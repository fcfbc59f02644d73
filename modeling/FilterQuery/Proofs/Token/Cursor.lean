import FilterQuery.Token.Lexer

/-!
# A cursor over the bytes of a text

A `Cursor` scans a text without cutting it up: it holds a byte offset into the
whole text, and takes the text of a token out of it only at the end. A slice at
an offset behind the end or inside a character is a fault, which is `none` here,
and every reading that asks for such a slice is `none` as well. A cursor that has
met its end or an error is finished.
-/

namespace FilterQuery

-- ---------------------------------------------------------------------------
-- Slices
-- ---------------------------------------------------------------------------

/-- The offset is not behind the end of the text and not inside a character. -/
abbrev Text.Boundary (text : String) (offset : Nat) : Prop :=
  String.Pos.Raw.IsValid text ⟨offset⟩

/-- The part of a text between two byte offsets, which must be boundaries and in
order. -/
def Text.slice? (text : String) (start stop : Nat) : Option String :=
  if h : (Text.Boundary text start ∧ Text.Boundary text stop) ∧ start ≤ stop then
    some (text.extract (text.pos ⟨start⟩ h.1.1) (text.pos ⟨stop⟩ h.1.2))
  else none

theorem Text.add_utf8ByteSize_of_slice? {text part : String} {start stop : Nat}
    (h : slice? text start stop = some part) : start + part.utf8ByteSize = stop := by
  unfold slice? at h
  split at h
  · rename_i hb
    cases h
    have hstop := hb.1.2.le_utf8ByteSize
    have hle := hb.2
    rw [← String.size_toByteArray, String.toByteArray_extract, ByteArray.size_extract,
      String.size_toByteArray]
    simp only [String.offset_pos] at *
    omega
  · cases h

-- ---------------------------------------------------------------------------
-- Cursors
-- ---------------------------------------------------------------------------

/-- A token with the offset at which it begins and the offsets of what stands in
it, which for a literal are those inside the quotes. -/
structure Lexeme where
  token : Token
  start : Nat
  contentStart : Nat
  contentEnd : Nat

structure Cursor where
  input : String
  fields : AllowList
  position : Nat := 0
  finished : Bool := false

namespace Cursor

def ofString (fields : AllowList) (text : String) : Cursor :=
  { input := text, fields }

def peek (c : Cursor) : Option (Option Char) :=
  (Text.slice? c.input c.position c.input.utf8ByteSize).map fun text => text.toList.head?

def advance (c : Cursor) (char : Char) : Cursor :=
  { c with position := c.position + char.utf8Size }

def bump (c : Cursor) : Option (Option Char × Cursor) :=
  c.peek.map fun
    | none => (none, c)
    | some char => (some char, c.advance char)

theorem lt_of_peek {c : Cursor} {char : Char} (h : c.peek = some (some char)) :
    c.position < c.input.utf8ByteSize := by
  obtain ⟨text, hslice, hhead⟩ := Option.map_eq_some_iff.1 h
  have hsize := Text.add_utf8ByteSize_of_slice? hslice
  have hne : text.utf8ByteSize ≠ 0 := by
    intro hzero
    rw [String.utf8ByteSize_eq_zero_iff.1 hzero] at hhead
    cases hhead
  omega

def skipWhile (p : Char → Bool) (c : Cursor) : Option Cursor :=
  match _h : c.peek with
  | none => none
  | some none => some c
  | some (some char) => if p char then (c.advance char).skipWhile p else some c
termination_by c.input.utf8ByteSize - c.position
decreasing_by
  have hlt := lt_of_peek ‹_›
  have hpos := char.utf8Size_pos
  simp only [advance]
  omega

def textFrom (c : Cursor) (start : Nat) : Option String :=
  Text.slice? c.input start c.position

def lexeme (c : Cursor) (start : Nat) (token : String → Token) : Option (Lexeme × Cursor) := do
  let text ← c.textFrom start
  return ({ token := token text, start, contentStart := start, contentEnd := c.position }, c)

/-- The literal whose opening quote, at `start`, has been taken. -/
def readLiteral (c : Cursor) (start : Nat) : Option (Lexeme × Cursor) := do
  let closing ← c.skipWhile (· ≠ '"')
  let (quote, after) ← closing.bump
  let token ←
    if quote.isNone then
      (after.textFrom start).map fun text => LexicalError.token (.unterminated text)
    else (Text.slice? c.input c.position closing.position).map fun text => ⟨.literal, text⟩
  return ({ token, start, contentStart := c.position, contentEnd := closing.position }, after)

def readOperator (c : Cursor) (first : Char) (start : Nat) : Option (Lexeme × Cursor) := do
  let (second, after) ← c.bump
  after.lexeme start fun text =>
    if second = some first then ⟨.operator, text⟩ else LexicalError.token (.unpaired text)

def readComparator (c : Cursor) (start : Nat) : Option (Lexeme × Cursor) := do
  if (← c.peek) = some '=' then
    let (_, after) ← c.bump
    after.lexeme start (⟨.comparator, ·⟩)
  else c.lexeme start (⟨.comparator, ·⟩)

def readWord (c : Cursor) (start : Nat) : Option (Lexeme × Cursor) := do
  let after ← c.skipWhile Token.isWordChar
  after.lexeme start (Token.ofWord c.fields)

def read (c : Cursor) (first : Char) (start : Nat) : Option (Lexeme × Cursor) :=
  match first with
  | '(' => c.lexeme start (⟨.openGroup, ·⟩)
  | ')' => c.lexeme start (⟨.closeGroup, ·⟩)
  | '"' => c.readLiteral start
  | '&' | '|' => c.readOperator first start
  | '<' | '>' | '=' | '!' => c.readComparator start
  | _ => c.readWord start

def next (c : Cursor) : Option (Option Lexeme × Cursor) :=
  if c.finished then some (none, c)
  else do
    let c ← c.skipWhile Text.isBlank
    let (first, after) ← c.bump
    match first with
    | none => return (none, { after with finished := true })
    | some first =>
      let (l, after) ← after.read first c.position
      return (some l, { after with finished := l.token.isError })

def calls (c : Cursor) : Nat → Option (List (Option Lexeme) × Cursor)
  | 0 => some ([], c)
  | n + 1 => do
    let (answers, c) ← c.calls n
    let (answer, c) ← c.next
    return (answers ++ [answer], c)

end Cursor

end FilterQuery
