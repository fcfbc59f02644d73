import FilterQuery.Event
import FilterQuery.Placeholder

/-!
# Condition text with arguments

A filter is written as words with one space between them. Every group stands
in parentheses, and every value is replaced by a placeholder and travels as an
argument, in the order of the placeholders.
-/

namespace FilterQuery

mutual
def Filter.words : Filter → List String
  | .predicate p => [p.field, p.comparator.symbol, "?"]
  | .group _ [] => ["(", ")"]
  | .group op (f :: fs) => "(" :: f.words ++ Filter.wordsAfter op fs ++ [")"]
def Filter.wordsAfter (op : BoolOp) : List Filter → List String
  | [] => []
  | f :: fs => op.symbol :: f.words ++ Filter.wordsAfter op fs
end

structure Fragment where
  sql : String
  args : List String
  deriving BEq, DecidableEq, Repr

def Filter.toFragment (f : Filter) : Fragment where
  sql := " ".intercalate f.words
  args := f.predicates.map (·.value)

def Filter.compile (f : Filter) : Traced Fragment where
  value := f.toFragment
  events := [.compiled f.toFragment.args.length]

/-- The numbers of placeholders and arguments differ, so numbering would bind
values to the wrong places. -/
structure ArgumentMismatch where
  placeholders : Nat
  args : Nat
  deriving BEq, DecidableEq, Repr

def ArgumentMismatch.message (e : ArgumentMismatch) : String :=
  "fragment has " ++ e.placeholders.repr ++ " placeholders but " ++ e.args.repr ++ " arguments"

namespace Fragment

def placeholders (f : Fragment) : Nat :=
  Placeholder.count f.sql

def number (f : Fragment) (style : Placeholder.Style) : Except ArgumentMismatch Fragment :=
  if f.placeholders = f.args.length then
    .ok { f with sql := Placeholder.number style f.sql }
  else .error { placeholders := f.placeholders, args := f.args.length }

/-- Numbers a fragment in one style after the other. A step that fails leaves
the fragment to the next as it was. -/
def numberMany (f : Fragment) : List Placeholder.Style → List (Except ArgumentMismatch Fragment)
  | [] => []
  | style :: styles =>
    match f.number style with
    | .ok g => .ok g :: g.numberMany styles
    | .error e => .error e :: f.numberMany styles

end Fragment

end FilterQuery
