import FilterQuery.Text.Quoted

/-!
# Tokens

A token is a kind with a text. The text of a literal is what stands between
its quotes, and that of an error is a message; a token made by hand may pair
any kind with any text.
-/

namespace FilterQuery

inductive Token.Kind where
  | openGroup
  | closeGroup
  | operator
  | comparator
  | literal
  | field
  | error
  deriving BEq, DecidableEq, Repr, Inhabited

def Token.Kind.name : Token.Kind → String
  | .openGroup => "'('"
  | .closeGroup => "')'"
  | .operator => "boolean operator"
  | .comparator => "comparator"
  | .literal => "literal"
  | .field => "field"
  | .error => "error"

structure Token where
  kind : Token.Kind
  text : String
  deriving BEq, DecidableEq, Repr, Inhabited

namespace Token

def isError (t : Token) : Bool :=
  t.kind = .error

/-- The token as messages show it. A parenthesis shows as itself, whatever
its text. -/
def describe (t : Token) : String :=
  match t.kind with
  | .openGroup | .closeGroup => t.kind.name
  | _ => t.kind.name ++ " " ++ Text.quote t.text

end Token

end FilterQuery
