import FilterQuery.Filter.Builder
import FilterQuery.Token.Source

/-!
# Reading filters from a source of tokens

A `Parser` pulls tokens from its source only as long as it needs them, so
after a failure the source stands right behind the token that caused it. A
parser can be used again: it goes on where it stopped, and its depth is what
the last reading left behind.
-/

namespace FilterQuery

structure Parser (σ : Type) where
  source : σ
  depth : Nat := 0
  deriving Repr

structure Reading (σ : Type) where
  result : Except ParseError Filter
  parser : Parser σ
  events : List Event := []

variable {σ : Type} [TokenSource σ]

/-- What the end of the source makes of a builder. -/
def Builder.conclude (b : Builder) (s : σ) : Reading σ :=
  match b.finish with
  | .ok level =>
    { result := .ok level.root, parser := { source := s, depth := b.depth }
      events := [.parsed level.children.length level.op] }
  | .error e => { result := .error e, parser := { source := s, depth := b.depthAfter e } }

def Builder.run (limit : Nat) (b : Builder) (s : σ) : Reading σ :=
  match _h : TokenSource.next? s with
  | none => b.conclude s
  | some (t, s') =>
    match b.step limit t with
    | .error e =>
      { result := .error e, parser := { source := s', depth := b.depthAfter e }
        events := TokenSource.report σ t }
    | .ok b' =>
      let r := b'.run limit s'
      { r with events := TokenSource.report σ t ++ r.events }
termination_by TokenSource.size s
decreasing_by exact TokenSource.size_next? ‹_›

theorem Builder.run_of_none {limit : Nat} {b : Builder} {s : σ}
    (h : TokenSource.next? s = none) : b.run limit s = b.conclude s := by
  rw [Builder.run]
  split <;> simp_all

theorem Builder.run_of_error {limit : Nat} {b : Builder} {s s' : σ} {t : Token} {e : ParseError}
    (h : TokenSource.next? s = some (t, s')) (he : b.step limit t = .error e) :
    b.run limit s =
      { result := .error e, parser := { source := s', depth := b.depthAfter e }
        events := TokenSource.report σ t } := by
  rw [Builder.run]
  split <;> simp_all

theorem Builder.run_of_ok {limit : Nat} {b b' : Builder} {s s' : σ} {t : Token}
    (h : TokenSource.next? s = some (t, s')) (hb : b.step limit t = .ok b') :
    b.run limit s =
      { b'.run limit s' with events := TokenSource.report σ t ++ (b'.run limit s').events } := by
  rw [Builder.run]
  split <;> simp_all

def Parser.read (p : Parser σ) : Reading σ :=
  Builder.run maxDepth { depth := p.depth } p.source

def Parser.readMany (p : Parser σ) : Nat → List (Reading σ)
  | 0 => []
  | n + 1 => p.read :: p.read.parser.readMany n

def Filter.ofTokens (tokens : List Token) : Except ParseError Filter :=
  (Parser.mk tokens 0).read.result

end FilterQuery
