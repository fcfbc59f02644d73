import FilterQuery.Filter.Parser

/-!
# Sessions on one source

Single tokens and whole filters taken in turns from the same source. Each step
goes on right behind the last token that was pulled before it.
-/

namespace FilterQuery.Session

inductive Step where
  | next
  /-- Read what is left as a filter, with a new parser. -/
  | parse
  deriving BEq, DecidableEq, Repr

inductive Answer where
  | token (t : Option Token)
  | filter (result : Except ParseError Filter)

variable {σ : Type} [TokenSource σ]

def step (s : σ) : Step → Traced (Answer × σ)
  | .next => do
    let (t, s) ← TokenSource.pull s
    pure (.token t, s)
  | .parse =>
    let r := (Parser.mk s 0).read
    { value := (.filter r.result, r.parser.source), events := r.events }

def run (s : σ) : List Step → Traced (List Answer)
  | [] => pure []
  | first :: steps => do
    let (answer, s) ← step s first
    let answers ← run s steps
    pure (answer :: answers)

end FilterQuery.Session
