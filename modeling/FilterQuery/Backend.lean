/-!
# Backends

The databases statements are written for. They differ in the character around
names and in how placeholders are written. A name stands between quote
characters, so it may hold anything.
-/

namespace FilterQuery

inductive Backend where
  | postgres
  | mysql
  | sqlite
  deriving BEq, DecidableEq, Repr, Inhabited

namespace Backend

def name : Backend → String
  | .postgres => "postgres"
  | .mysql => "mysql"
  | .sqlite => "sqlite"

def all : List Backend :=
  [.postgres, .mysql, .sqlite]

def ofName? (name : String) : Option Backend :=
  all.find? (·.name = name)

def quoteChar : Backend → Char
  | .mysql => '\x60'
  | .postgres | .sqlite => '"'

def placeholder : Backend → Nat → String
  | .postgres, n => "$" ++ n.repr
  | .mysql, _ | .sqlite, _ => "?"

/-- A name between quote characters; one inside the name is written twice. -/
def identifier (b : Backend) (name : String) : String :=
  String.ofList
    (b.quoteChar ::
      name.toList.flatMap (fun c => if c = b.quoteChar then [c, c] else [c]) ++ [b.quoteChar])

end Backend

end FilterQuery
