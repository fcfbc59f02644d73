import FilterQuery.Proofs.Token.Cursor
import FilterQuery.Proofs.Token.Spelling

/-!
# Reading a token with a cursor

A cursor that stands between two parts of its text (`Cursor.between`) asks for no
slice that is not there, and reading a token moves it between two other parts of
the same text. `Cursor.reads_read` says so of every token, together with what the
offsets are measured by: the token is the one that a scan takes, and the text cut
from the input is its text (`Token.Within`).
-/

namespace FilterQuery

def Text.size (chars : List Char) : Nat :=
  (String.ofList chars).utf8ByteSize

/-- A cursor with `before` behind it and `rest` ahead of it. -/
def Cursor.between (fields : AllowList) (before rest : List Char) : Cursor :=
  { input := String.ofList (before ++ rest), fields, position := Text.size before }

def Lexeme.cut (t : Token) (before opening content : List Char) : Lexeme where
  token := t
  start := Text.size before
  contentStart := Text.size (before ++ opening)
  contentEnd := Text.size (before ++ opening ++ content)

/-- How the text of a token stands in the piece of text that it is made of. A
literal stands between quotes, and the text of an error is not in it. -/
inductive Token.Within (t : Token) : List Char → List Char → List Char → Prop
  | whole {piece : List Char} : t.isError = false → t.kind ≠ .literal →
      t.text = String.ofList piece → Within t [] piece []
  | quoted {value : List Char} : t.kind = .literal → t.text = String.ofList value →
      Within t ['"'] value ['"']
  | error {opening content : List Char} : t.isError = true → Within t opening content []

/-- A reading behind `before` takes from `text` what a scan takes from it. -/
inductive Cursor.Reads (fields : AllowList) (before text : List Char) :
    Token × List Char → Option (Lexeme × Cursor) → Prop
  | intro {t : Token} {opening content closing rest : List Char} :
      t.Within opening content closing → opening ++ content ++ closing ≠ [] →
      text = opening ++ content ++ closing ++ rest →
      Reads fields before text (t, rest)
        (some (.cut t before opening content,
          between fields (before ++ opening ++ content ++ closing) rest))

variable {fields : AllowList} {before piece rest text value : List Char} {char : Char}
  {p : Char → Bool}

-- ---------------------------------------------------------------------------
-- Slices
-- ---------------------------------------------------------------------------

namespace Text

theorem size_append (a b : List Char) : size (a ++ b) = size a + size b := by
  rw [size, String.ofList_append, String.utf8ByteSize_append]
  rfl

theorem size_pos {chars : List Char} (h : chars ≠ []) : 0 < size chars := by
  rw [Nat.pos_iff_ne_zero, size, Ne, String.utf8ByteSize_eq_zero_iff]
  intro hempty
  exact h (String.ofList_eq_empty_iff.1 hempty)

theorem boundary_of_isPrefix {chars text : List Char} (h : chars <+: text) :
    Boundary (String.ofList text) (size chars) := by
  obtain ⟨rest, rfl⟩ := h
  exact String.Pos.Raw.isValid_iff_exists_append.2
    ⟨String.ofList chars, String.ofList rest, String.ofList_append, rfl⟩

theorem slice?_append (a b c : List Char) :
    slice? (String.ofList (a ++ b ++ c)) (size a) (size (a ++ b)) = some (String.ofList b) := by
  have ha : Boundary (String.ofList (a ++ b ++ c)) (size a) :=
    boundary_of_isPrefix (by simp [List.append_assoc])
  have hb : Boundary (String.ofList (a ++ b ++ c)) (size (a ++ b)) :=
    boundary_of_isPrefix (List.prefix_append _ _)
  have hle : size a ≤ size (a ++ b) := by
    rw [size_append]
    exact Nat.le_add_right _ _
  rw [slice?, dif_pos ⟨⟨ha, hb⟩, hle⟩, Option.some.injEq, ← String.toByteArray_inj,
    String.toByteArray_extract]
  simp only [String.offset_pos, size, ← String.size_toByteArray, String.ofList_append,
    String.toByteArray_append]
  rw [ByteArray.extract_append_size_left]
  exact ByteArray.extract_append_eq_right rfl ByteArray.size_append

end Text

namespace Cursor

-- ---------------------------------------------------------------------------
-- Moving
-- ---------------------------------------------------------------------------

@[simp] theorem input_between :
    (between fields before rest).input = String.ofList (before ++ rest) := rfl

@[simp] theorem position_between : (between fields before rest).position = Text.size before := rfl

@[simp] theorem finished_between : (between fields before rest).finished = false := rfl

theorem textFrom_between : (between fields (before ++ piece) rest).textFrom (Text.size before) =
    some (String.ofList piece) :=
  Text.slice?_append before piece rest

theorem peek_between : (between fields before rest).peek = some rest.head? := by
  have hslice := Text.slice?_append before rest []
  rw [List.append_nil] at hslice
  have hpeek : (between fields before rest).peek =
      (Text.slice? (String.ofList (before ++ rest)) (Text.size before)
        (Text.size (before ++ rest))).map fun text => text.toList.head? := rfl
  rw [hpeek, hslice, Option.map_some, String.toList_ofList]

theorem advance_between : (between fields before (char :: rest)).advance char =
    between fields (before ++ [char]) rest := by
  simp [advance, between, Text.size]

theorem bump_between_cons : (between fields before (char :: rest)).bump =
    some (some char, between fields (before ++ [char]) rest) := by
  rw [bump, peek_between, ← advance_between]
  rfl

theorem bump_between_nil : (between fields before []).bump =
    some (none, between fields before []) := by
  rw [bump, peek_between]
  rfl

theorem skipWhile_between : (between fields before rest).skipWhile p =
    some (between fields (before ++ rest.takeWhile p) (rest.dropWhile p)) := by
  induction rest generalizing before with
  | nil =>
    rw [skipWhile, peek_between]
    simp
  | cons char rest ih =>
    rw [skipWhile, peek_between]
    simp only [List.head?_cons]
    cases hp : p char with
    | true =>
      rw [advance_between, ih]
      simp [hp]
    | false => simp [hp]

theorem skipWhile_run (hp : piece.all p = true) (hrest : Text.Stops p rest) :
    (between fields before (piece ++ rest)).skipWhile p =
      some (between fields (before ++ piece) rest) := by
  rw [skipWhile_between, Text.takeWhile_run hp hrest, Text.dropWhile_run hp hrest]

-- ---------------------------------------------------------------------------
-- Reading one token
-- ---------------------------------------------------------------------------

theorem reads_lexeme (token : String → Token) (first : Char) (tail : List Char)
    (htoken : (token (String.ofList (first :: tail))).Within [] (first :: tail) []) :
    Reads fields before (first :: tail ++ rest) (token (String.ofList (first :: tail)), rest)
      ((between fields (before ++ first :: tail) rest).lexeme (Text.size before) token) := by
  -- Nothing opens or closes such a token, so its content is the whole piece.
  have hreads : Reads fields before ([] ++ (first :: tail) ++ [] ++ rest) _ _ :=
    .intro htoken (by simp) rfl
  simp only [Lexeme.cut, List.nil_append, List.append_nil] at hreads
  rw [lexeme, textFrom_between]
  exact hreads

theorem readLiteral_closed (hvalue : value.all (· ≠ '"') = true) :
    (between fields (before ++ ['"']) (value ++ '"' :: rest)).readLiteral (Text.size before) =
      some (.cut ⟨.literal, String.ofList value⟩ before ['"'] value,
        between fields (before ++ ['"'] ++ value ++ ['"']) rest) := by
  have hslice := Text.slice?_append (before ++ ['"']) value ('"' :: rest)
  rw [List.append_assoc (before ++ ['"'])] at hslice
  rw [readLiteral, skipWhile_run hvalue (Text.stops_cons.2 rfl)]
  simp only [Option.bind_eq_bind, Option.bind_some, bump_between_cons, Option.isNone_some,
    Bool.false_eq_true, if_false, input_between, position_between, hslice]
  rfl

theorem readLiteral_open (hvalue : value.all (· ≠ '"') = true) :
    (between fields (before ++ ['"']) value).readLiteral (Text.size before) =
      some (.cut (LexicalError.token (.unterminated (String.ofList ('"' :: value)))) before ['"']
          value,
        between fields (before ++ ['"'] ++ value) []) := by
  have hskip : (between fields (before ++ ['"']) (value ++ [])).skipWhile (· ≠ '"') = _ :=
    skipWhile_run hvalue Text.stops_nil
  have htext : (between fields (before ++ ['"'] ++ value) []).textFrom (Text.size before) =
      some (String.ofList ('"' :: value)) := by
    rw [List.append_assoc, textFrom_between]
    rfl
  rw [List.append_nil] at hskip
  rw [readLiteral, hskip]
  simp only [Option.bind_eq_bind, Option.bind_some, bump_between_nil, Option.isNone_none,
    if_true, position_between, htext]
  rfl

theorem reads_literal (before rest : List Char) :
    Reads fields before ('"' :: rest) (Token.scanLiteral rest)
      ((between fields (before ++ ['"']) rest).readLiteral (Text.size before)) := by
  obtain ⟨value, after, rfl, hvalue, hafter⟩ := Text.exists_run (· ≠ '"') rest
  rw [Token.scanLiteral, Text.dropWhile_run hvalue hafter, Text.takeWhile_run hvalue hafter]
  cases after with
  | nil =>
    rw [List.append_nil, readLiteral_open hvalue]
    have hwithin : (LexicalError.token (.unterminated (String.ofList ('"' :: value)))).Within
        ['"'] value [] := .error rfl
    have hreads : Reads fields before (['"'] ++ value ++ [] ++ []) _ _ :=
      .intro hwithin (List.cons_ne_nil _ _) rfl
    simpa using hreads
  | cons quote after =>
    obtain rfl : quote = '"' := by simpa using hafter
    rw [readLiteral_closed hvalue]
    have hwithin : Token.Within ⟨.literal, String.ofList value⟩ ['"'] value ['"'] :=
      .quoted rfl rfl
    have hreads : Reads fields before (['"'] ++ value ++ ['"'] ++ after) _ _ :=
      .intro hwithin (List.cons_ne_nil _ _) rfl
    simpa using hreads

theorem reads_operator {first : Char} (before rest : List Char) :
    Reads fields before (first :: rest) (Token.scanOperator first rest)
      ((between fields (before ++ [first]) rest).readOperator first (Text.size before)) := by
  let unpaired (text : String) : Token := LexicalError.token (.unpaired text)
  cases rest with
  | nil =>
    rw [readOperator, bump_between_nil]
    exact reads_lexeme unpaired first [] (.error rfl)
  | cons second rest =>
    rw [readOperator, bump_between_cons, List.append_assoc]
    simp only [Option.bind_eq_bind, Option.bind_some, Option.some.injEq, Token.scanOperator]
    split
    · exact reads_lexeme _ first [second] (.whole rfl (by simp) rfl)
    · exact reads_lexeme unpaired first [second] (.error rfl)

theorem reads_comparator {first : Char} (before rest : List Char) :
    Reads fields before (first :: rest) (Token.scanComparator first rest)
      ((between fields (before ++ [first]) rest).readComparator (Text.size before)) := by
  unfold Token.scanComparator
  split
  · rename_i after
    rw [readComparator, peek_between, bump_between_cons, List.append_assoc]
    exact reads_lexeme _ first ['='] (.whole rfl (by simp) rfl)
  · rename_i hne
    have hhead : rest.head? ≠ some '=' := by
      intro hhead
      obtain ⟨after, rfl⟩ := List.head?_eq_some_iff.1 hhead
      exact hne after rfl
    rw [readComparator, peek_between]
    simp only [Option.bind_eq_bind, Option.bind_some, if_neg hhead]
    exact reads_lexeme _ first [] (.whole rfl (by simp) rfl)

theorem reads_word {first : Char} (before rest : List Char) :
    Reads fields before (first :: rest) (Token.scanWord fields first rest)
      ((between fields (before ++ [first]) rest).readWord (Text.size before)) := by
  obtain ⟨tail, after, rfl, htail, hafter⟩ := Text.exists_run Token.isWordChar rest
  rw [readWord, skipWhile_run htail hafter, Token.scanWord, Text.dropWhile_run htail hafter,
    Text.takeWhile_run htail hafter, List.append_assoc]
  refine reads_lexeme _ first tail ?_
  unfold Token.ofWord
  split
  · exact .whole rfl (by simp) rfl
  · split
    · exact .whole rfl (by simp) rfl
    · exact .error rfl

theorem read_of_not_sign {c : Cursor} {first : Char} {start : Nat}
    (h : Token.isSign first = false) : c.read first start = c.readWord start := by
  unfold read
  split <;> first | rfl | simp [Token.isSign] at h

/-- Reading a token takes what scanning takes, whatever the token is. -/
theorem reads_read (before : List Char) (first : Char) (rest : List Char) :
    Reads fields before (first :: rest) (Token.scanFrom fields first rest)
      ((between fields (before ++ [first]) rest).read first (Text.size before)) := by
  unfold Token.scanFrom
  split
  · exact reads_lexeme (⟨.openGroup, ·⟩) '(' [] (.whole rfl (by simp) rfl)
  · exact reads_lexeme (⟨.closeGroup, ·⟩) ')' [] (.whole rfl (by simp) rfl)
  · exact reads_literal before rest
  iterate 2 exact reads_operator before rest
  iterate 4 exact reads_comparator before rest
  -- The last case knows only that no other one applies, which `read` is told here.
  · have hsign : Token.isSign first = false := by
      rw [Bool.eq_false_iff, Ne, Token.isSign_iff]
      grind
    rw [read_of_not_sign hsign]
    exact reads_word before rest

end Cursor

end FilterQuery
