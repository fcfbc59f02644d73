import FilterQuery.Event
import FilterQuery.Token.Lexer

/-!
# Sources of tokens

A source hands out tokens one at a time until it runs dry, and may report an
event with a token. A list of tokens is a silent source; a lexer reports its
error.
-/

namespace FilterQuery

class TokenSource (σ : Type) where
  next? : σ → Option (Token × σ)
  report : Token → List Event
  /-- A bound on the tokens left. -/
  size : σ → Nat
  size_next? {s s' : σ} {t : Token} : next? s = some (t, s') → size s' < size s

namespace TokenSource

instance : TokenSource (List Token) where
  next?
    | [] => none
    | t :: ts => some (t, ts)
  report _ := []
  size := List.length
  size_next? h := by grind

instance : TokenSource Lexer where
  next? := Lexer.next?
  report t := if t.isError then [.lexingStopped t.text] else []
  size l := l.rest.length
  size_next? := Lexer.length_next?

variable {σ : Type} [TokenSource σ]

/-- Takes one token, if there is one; a dry source stays as it is. -/
def pull (s : σ) : Traced (Option Token × σ) :=
  match next? s with
  | none => { value := (none, s) }
  | some (t, s') => { value := (some t, s'), events := report σ t }

def drain (s : σ) : Traced (List Token × σ) :=
  match _h : next? s with
  | none => { value := ([], s) }
  | some (t, s') =>
    let r := drain s'
    { value := (t :: r.value.1, r.value.2), events := report σ t ++ r.events }
termination_by size s
decreasing_by exact size_next? ‹_›

theorem drain_of_none {s : σ} (h : next? s = none) : drain s = { value := ([], s) } := by
  rw [drain]
  split <;> simp_all

theorem drain_of_some {s s' : σ} {t : Token} (h : next? s = some (t, s')) :
    drain s =
      { value := (t :: (drain s').value.1, (drain s').value.2)
        events := report σ t ++ (drain s').events } := by
  rw [drain]
  split <;> simp_all

end TokenSource

/-- The tokens of a text, up to its end or its first error. -/
def Lexer.tokens (l : Lexer) : List Token :=
  (TokenSource.drain l).value.1

theorem Lexer.tokens_of_none {l : Lexer} (h : l.next? = none) : l.tokens = [] := by
  rw [Lexer.tokens, TokenSource.drain_of_none h]

theorem Lexer.tokens_of_some {l l' : Lexer} {t : Token} (h : l.next? = some (t, l')) :
    l.tokens = t :: l'.tokens := by
  rw [Lexer.tokens, TokenSource.drain_of_some h]
  rfl

end FilterQuery
