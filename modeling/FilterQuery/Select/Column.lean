import FilterQuery.Backend

/-!
# Columns

A field names a column, or a column of a table when it has exactly one dot
with text on both sides. All other fields are one name, dots included.
-/

namespace FilterQuery

inductive Column where
  | plain (name : String)
  | qualified (table name : String)
  deriving BEq, DecidableEq, Repr

def Column.ofField (field : String) : Column :=
  let table := field.toList.takeWhile (· ≠ '.')
  match field.toList.dropWhile (· ≠ '.') with
  | [] => .plain field
  | _ :: name =>
    if table.isEmpty || name.isEmpty || name.contains '.' then .plain field
    else .qualified (String.ofList table) (String.ofList name)

def Column.render (b : Backend) : Column → String
  | .plain name => b.identifier name
  | .qualified table name => b.identifier table ++ "." ++ b.identifier name

end FilterQuery
