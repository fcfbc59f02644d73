import FilterQuery.Error
import FilterQuery.Filter.Basic

/-!
# Building a filter token by token

A `Builder` holds the levels that are open, the innermost one apart, and the
tokens of a predicate that is not complete yet. `Builder.step` takes one token
and either goes on or fails; `Builder.finish` says what the end of the tokens
means. All children of a level share one operator, the one read last in that
level, and AND if there was none.
-/

namespace FilterQuery

/-- The items between two parentheses, or of a whole text. -/
structure Level where
  op : BoolOp := .and
  children : List Filter := []
  deriving BEq, DecidableEq, Repr

def Level.push (l : Level) (child : Filter) : Level :=
  { l with children := l.children ++ [child] }

def Level.toFilter (l : Level) : Filter :=
  .group l.op l.children

/-- The filter of a whole text. A text that is one group stands for that
group. -/
def Level.root (l : Level) : Filter :=
  match l.children with
  | [.group op children] => .group op children
  | _ => l.toFilter

inductive Pending where
  | idle
  | operand (first : Token)
  | comparison (first second : Token)
  deriving BEq, DecidableEq, Repr

/-- Reads three tokens as a comparison of a field with a literal. The field
comes first in the predicate, and the comparator is kept as it is, whichever
operand was written first. -/
def Predicate.ofTokens (first second third : Token) : Except ParseError Predicate :=
  match first.kind, second.kind, third.kind with
  | .field, .comparator, .literal => compare first.text third.text
  | .literal, .comparator, .field => compare third.text first.text
  | _, _, _ => .error (.malformedPredicate first second third)
where
  compare (field value : String) : Except ParseError Predicate :=
    match Comparator.ofString? second.text with
    | some comparator => .ok { field, comparator, value }
    | none => .error (.unknownComparator second.text)

structure Builder where
  level : Level := {}
  /-- The levels around it, from the inside out. -/
  outer : List Level := []
  pending : Pending := .idle
  /-- How deep the innermost level counts as nested. -/
  depth : Nat := 0
  deriving BEq, DecidableEq, Repr

namespace Builder

def push (b : Builder) (child : Filter) : Builder :=
  { b with level := b.level.push child, pending := .idle }

def openGroup (limit : Nat) (b : Builder) : Except ParseError Builder :=
  if limit ≤ b.depth then .error .nestingTooDeep
  else .ok { outer := b.level :: b.outer, depth := b.depth + 1 }

def closeGroup (b : Builder) : Except ParseError Builder :=
  match b.outer with
  | [] => .error .unmatchedClose
  | around :: outer =>
    if b.level.children.isEmpty then .error .emptyGroup
    else .ok { level := around.push b.level.toFilter, outer, depth := b.depth - 1 }

def item (limit : Nat) (b : Builder) (t : Token) : Except ParseError Builder :=
  match t.kind with
  | .operator =>
    match BoolOp.ofString? t.text with
    | some op => .ok { b with level := { b.level with op } }
    | none => .error (.unknownOperator t.text)
  | .openGroup => b.openGroup limit
  | .closeGroup => b.closeGroup
  | .field | .literal => .ok { b with pending := .operand t }
  | .comparator => .error (.unexpectedToken t)
  | .error => .error (.lexical t.text)

def step (limit : Nat) (b : Builder) (t : Token) : Except ParseError Builder :=
  if t.isError then .error (.lexical t.text)
  else
    match b.pending with
    | .idle => b.item limit t
    | .operand first => .ok { b with pending := .comparison first t }
    | .comparison first second =>
      (Predicate.ofTokens first second t).map fun p => b.push (.predicate p)

def finish (b : Builder) : Except ParseError Level :=
  match b.pending, b.outer with
  | .operand _, _ | .comparison _ _, _ => .error .unexpectedEnd
  | .idle, _ :: _ => .error .unclosedGroup
  | .idle, [] => if b.level.children.isEmpty then .error .emptyFilter else .ok b.level

/-- The depth a failure leaves behind. A group that turns out empty or
unclosed has itself come to its end; every other failure leaves the open
groups counted. -/
def depthAfter (b : Builder) : ParseError → Nat
  | .emptyGroup | .unclosedGroup => b.depth - 1
  | _ => b.depth

end Builder

end FilterQuery
