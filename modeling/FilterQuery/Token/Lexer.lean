import FilterQuery.AllowList
import FilterQuery.Text.Blank
import FilterQuery.Token.Basic

/-!
# Scanning a text for tokens

`Token.scan` takes one token off a text. Words are checked against the
allow-list on the way, so a word that is neither an operator nor an allowed
field is an error like a stray sign. A `Lexer` hands out one token after the
other and nothing more after an error.
-/

namespace FilterQuery

inductive LexicalError where
  /-- A quote that is never closed, with all that follows it. -/
  | unterminated (text : String)
  /-- `&` or `|` without its twin, with the character found instead. -/
  | unpaired (text : String)
  /-- A word that is no operator and is not allowed as a field. -/
  | unknownField (word : String)
  deriving BEq, DecidableEq, Repr

def LexicalError.message : LexicalError → String
  | .unterminated text => "unterminated literal " ++ text
  | .unpaired text => "invalid boolean expression, " ++ Text.quote text
  | .unknownField word => Text.quote word ++ " isn't a valid field"

def LexicalError.token (e : LexicalError) : Token :=
  ⟨.error, e.message⟩

namespace Token

def isWordChar (c : Char) : Bool :=
  c.isAlphanum || c = '.'

/-- The literal whose opening quote stands before `rest`. -/
def scanLiteral (rest : List Char) : Token × List Char :=
  match rest.dropWhile (· ≠ '"') with
  | [] => (LexicalError.token (.unterminated (String.ofList ('"' :: rest))), [])
  | _ :: after => (⟨.literal, String.ofList (rest.takeWhile (· ≠ '"'))⟩, after)

/-- The operator whose first sign is `c`. A different second character is part
of the error. -/
def scanOperator (c : Char) : List Char → Token × List Char
  | [] => (LexicalError.token (.unpaired (String.ofList [c])), [])
  | d :: after =>
    if d = c then (⟨.operator, String.ofList [c, d]⟩, after)
    else (LexicalError.token (.unpaired (String.ofList [c, d])), after)

def scanComparator (c : Char) : List Char → Token × List Char
  | '=' :: after => (⟨.comparator, String.ofList [c, '=']⟩, after)
  | rest => (⟨.comparator, String.ofList [c]⟩, rest)

def ofWord (fields : AllowList) (word : String) : Token :=
  if isReserved word then ⟨.operator, word⟩
  else if fields.contains word then ⟨.field, word⟩
  else LexicalError.token (.unknownField word)

def scanWord (fields : AllowList) (c : Char) (rest : List Char) : Token × List Char :=
  (ofWord fields (String.ofList (c :: rest.takeWhile isWordChar)), rest.dropWhile isWordChar)

def scanFrom (fields : AllowList) (c : Char) (rest : List Char) : Token × List Char :=
  match c with
  | '(' => (⟨.openGroup, "("⟩, rest)
  | ')' => (⟨.closeGroup, ")"⟩, rest)
  | '"' => scanLiteral rest
  | '&' | '|' => scanOperator c rest
  | '<' | '>' | '=' | '!' => scanComparator c rest
  | _ => scanWord fields c rest

/-- The first token of a text and the text after it, if there is more than
blanks. -/
def scan (fields : AllowList) (text : List Char) : Option (Token × List Char) :=
  match text.dropWhile Text.isBlank with
  | [] => none
  | c :: rest => some (scanFrom fields c rest)

theorem length_scanFrom (fields : AllowList) (c : Char) (rest : List Char) :
    (scanFrom fields c rest).2.length ≤ rest.length := by
  unfold scanFrom
  split
  · simp
  · simp
  · unfold scanLiteral
    have := (List.dropWhile_sublist (l := rest) (· ≠ '"')).length_le
    split <;> grind
  · unfold scanOperator; grind
  · unfold scanOperator; grind
  · unfold scanComparator; grind
  · unfold scanComparator; grind
  · unfold scanComparator; grind
  · unfold scanComparator; grind
  · exact (List.dropWhile_sublist isWordChar).length_le

theorem length_scan {fields : AllowList} {text rest : List Char} {t : Token}
    (h : scan fields text = some (t, rest)) : rest.length < text.length := by
  unfold scan at h
  have hd := (List.dropWhile_sublist Text.isBlank (l := text)).length_le
  split at h
  · simp at h
  · rename_i c r hr
    rw [hr, List.length_cons] at hd
    have := length_scanFrom fields c r
    simp only [Option.some.injEq] at h
    rw [h] at this
    exact Nat.lt_of_le_of_lt this hd

end Token

/-- A text being scanned: what is left of it, and whether an error was met. -/
structure Lexer where
  fields : AllowList
  rest : List Char
  halted : Bool := false
  deriving Repr

namespace Lexer

def ofString (fields : AllowList) (text : String) : Lexer :=
  { fields, rest := text.toList }

def next? (l : Lexer) : Option (Token × Lexer) :=
  if l.halted then none
  else (Token.scan l.fields l.rest).map fun (t, rest) => (t, { l with rest, halted := t.isError })

theorem length_next? {l l' : Lexer} {t : Token} (h : l.next? = some (t, l')) :
    l'.rest.length < l.rest.length := by
  unfold next? at h
  split at h
  · simp at h
  · obtain ⟨⟨u, r⟩, hs, he⟩ := Option.map_eq_some_iff.1 h
    cases he
    exact Token.length_scan hs

end Lexer

end FilterQuery
