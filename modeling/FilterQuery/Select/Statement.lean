import FilterQuery.Filter.Basic
import FilterQuery.Select.Column

/-!
# Selecting the rows a filter matches

The filter becomes a tree of binary joins: the children of a group are joined
from the left, a group of one is its child, and an empty group is a constant.
Parentheses are written only around a left operand with the other operator and
around a right operand that is a join.
-/

namespace FilterQuery

inductive Clause where
  | constant (value : Bool)
  | comparison (p : Predicate)
  | join (op : BoolOp) (left right : Clause)
  deriving BEq, DecidableEq, Repr

mutual
def Filter.clause : Filter → Clause
  | .predicate p => .comparison p
  | .group op [] => .constant (op = .and)
  | .group op (f :: fs) => Filter.joinOnto op f.clause fs
def Filter.joinOnto (op : BoolOp) (left : Clause) : List Filter → Clause
  | [] => left
  | f :: fs => Filter.joinOnto op (.join op left f.clause) fs
end

def Clause.op? : Clause → Option BoolOp
  | .join op _ _ => some op
  | _ => none

/-- Statement text with the values bound to its placeholders. -/
structure Statement where
  sql : String
  values : List String := []
  deriving BEq, DecidableEq, Repr

namespace Statement

def write (s : Statement) (text : String) : Statement :=
  { s with sql := s.sql ++ text }

def bind (s : Statement) (b : Backend) (value : String) : Statement where
  sql := s.sql ++ b.placeholder (s.values.length + 1)
  values := s.values ++ [value]

end Statement

def Comparator.operator : Comparator → String
  | .ne => "<>"
  | c => c.symbol

def Clause.render (b : Backend) : Clause → Statement → Statement
  | .constant value, s => s.write (if value then "TRUE" else "FALSE")
  | .comparison p, s =>
    (s.write ((Column.ofField p.field).render b ++ " " ++ p.comparator.operator ++ " ")).bind b
      p.value
  | .join op left right, s =>
    let s :=
      if left.op? = none || left.op? = some op then left.render b s
      else (left.render b (s.write "(")).write ")"
    let s := s.write (" " ++ op.symbol ++ " ")
    if right.op? = none then right.render b s
    else (right.render b (s.write "(")).write ")"

def Filter.select (b : Backend) (table : String) (f : Filter) : Statement :=
  f.clause.render b { sql := "SELECT * FROM " ++ b.identifier table ++ " WHERE " }

end FilterQuery
