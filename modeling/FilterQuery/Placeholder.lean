import FilterQuery.Text.Blank
import FilterQuery.Text.Quoted

/-!
# Placeholders

A condition marks the place of each argument with `?`; a question mark that is
part of the text is written twice. `Placeholder.pieces` cuts a text
accordingly, from left to right. Counting and numbering both go by its pieces,
so they agree on what a placeholder is.
-/

namespace FilterQuery.Placeholder

inductive Style where
  | dollar
  | colon
  deriving BEq, DecidableEq, Repr, Inhabited

def Style.name : Style → String
  | .dollar => "dollar"
  | .colon => "colon"

def Style.sign : Style → Char
  | .dollar => '$'
  | .colon => ':'

def Style.all : List Style :=
  [.dollar, .colon]

def Style.ofName? (name : String) : Option Style :=
  all.find? (·.name = name)

/-- A text that names no style, as it was given. -/
structure UnknownStyle where
  text : String
  deriving BEq, DecidableEq, Repr

def UnknownStyle.message (e : UnknownStyle) : String :=
  "unknown placeholder style " ++ Text.quote e.text

/-- Reads a style by its name or sign. Blanks around it and ASCII case do not
matter. -/
def Style.ofString (text : String) : Except UnknownStyle Style :=
  let word := String.ofList ((Text.trim text.toList).map Char.toLower)
  match all.find? fun s => s.name = word || String.ofList [s.sign] = word with
  | some style => .ok style
  | none => .error ⟨text⟩

inductive Piece where
  | plain (c : Char)
  /-- A doubled question mark, which stands for a single one. -/
  | question
  | placeholder
  deriving BEq, DecidableEq, Repr

def pieces : List Char → List Piece
  | [] => []
  | '?' :: '?' :: rest => .question :: pieces rest
  | '?' :: rest => .placeholder :: pieces rest
  | c :: rest => .plain c :: pieces rest

def count (sql : String) : Nat :=
  (pieces sql.toList).count .placeholder

/-- Writes pieces with numbered placeholders, of which `used` came before. -/
def writeNumbered (style : Style) (used : Nat) : List Piece → List Char
  | [] => []
  | .plain c :: rest => c :: writeNumbered style used rest
  | .question :: rest => '?' :: writeNumbered style used rest
  | .placeholder :: rest =>
    style.sign :: Nat.toDigits 10 (used + 1) ++ writeNumbered style (used + 1) rest

/-- Numbers the placeholders of a text from 1 on and undoubles its question
marks. -/
def number (style : Style) (sql : String) : String :=
  String.ofList (writeNumbered style 0 (pieces sql.toList))

end FilterQuery.Placeholder
