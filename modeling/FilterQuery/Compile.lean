import FilterQuery.Config
import FilterQuery.Filter.Parser
import FilterQuery.Fragment

/-!
# From text to condition

The whole way: a text is scanned and read under an allow-list, written as a
condition, and its placeholders are numbered in the configured style. Field
names are checked while scanning and values only travel as arguments.
-/

namespace FilterQuery

def parseTraced (text : String) (fields : AllowList) : Traced (Except ParseError Filter) :=
  let r := (Parser.mk (Lexer.ofString fields text) 0).read
  { value := r.result, events := r.events }

def compileTraced (text : String) (fields : AllowList) : Traced (Except ParseError Fragment) := do
  match ← parseTraced text fields with
  | .error e => pure (.error e)
  | .ok f => return .ok (← f.compile)

inductive CompileError where
  | parse (e : ParseError)
  | mismatch (e : ArgumentMismatch)
  deriving BEq, DecidableEq, Repr

def CompileError.message : CompileError → String
  | .parse e => e.message
  | .mismatch e => e.message

def compileWithTraced (text : String) (config : Config) :
    Traced (Except CompileError Fragment) := do
  match ← compileTraced text config.fields with
  | .error e => pure (.error (.parse e))
  | .ok f =>
    match f.number config.style with
    | .ok g => pure (.ok g)
    | .error e => pure (.error (.mismatch e))

def parse (text : String) (fields : AllowList) : Except ParseError Filter :=
  (parseTraced text fields).value

def compile (text : String) (fields : AllowList) : Except ParseError Fragment :=
  (compileTraced text fields).value

def compileWith (text : String) (config : Config) : Except CompileError Fragment :=
  (compileWithTraced text config).value

theorem compile_eq (text : String) (fields : AllowList) :
    compile text fields = (parse text fields).map Filter.toFragment := by
  simp only [compile, compileTraced, parse, Traced.value_bind]
  cases (parseTraced text fields).value <;> rfl

end FilterQuery
