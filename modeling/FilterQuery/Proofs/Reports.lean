import FilterQuery.Proofs.Composition

/-!
# What a compilation reports

The events of a compilation tell how it ended, and no more. A lexer reports the
token that stops it, and that token is refused wherever it is pulled, so the
report and the lexical error come together; a reading that fails for another
reason has pulled no such token (`Builder.events_run`). A text that is read is
reported with its outermost level, before a single group takes its place, and
then with the number of its arguments. `reported_compileWith` says this of every
text and configuration.
-/

namespace FilterQuery

open Grammar (Item Items)

def Event.line (e : Event) : String × List (String × String) :=
  (e.message, e.details)

inductive Reported (text : String) (config : Config) :
    Except CompileError Fragment → List (String × List (String × String)) → Prop
  | lexical {m : String} :
      Reported text config (.error (.parse (.lexical m)))
        [("lexing stopped on error", [("error", m)])]
  | syntactical {e : ParseError} : (∀ m, e ≠ .lexical m) →
      Reported text config (.error (.parse e)) []
  /-- The outermost level of the text is not empty. It is counted as it was
  written, and the arguments are those of the filter it stands for, whether or
  not their number fits the placeholders. -/
  | compiled {items : List Item} {f : Filter} {result : Except CompileError Fragment} :
      Items maxDepth (Lexer.ofString config.fields text).tokens items →
      1 ≤ (Item.children items).length →
      parse text config.fields = .ok f →
      f = (Level.ofItems items).root →
      (∀ e, result ≠ .error (.parse e)) →
      Reported text config result
        [("parsed filter",
            [("children", (Item.children items).length.repr),
              ("op", (Item.lastOperator items).symbol)]),
          ("compiled filter", [("args", f.predicates.length.repr)])]

variable {limit : Nat} {b b' : Builder} {t : Token} {e : ParseError} {text : String}
  {fields : AllowList} {config : Config} {level : Level}

-- ---------------------------------------------------------------------------
-- Readings
-- ---------------------------------------------------------------------------

namespace Builder

def report : Except ParseError Level → List Event
  | .ok level => [.parsed level.children.length level.op]
  | .error (.lexical m) => [.lexingStopped m]
  | .error _ => []

theorem Step.report_eq (h : Step limit b t b') : TokenSource.report Lexer t = [] := by
  have hk : t.isError = false := by
    refine Bool.eq_false_iff.2 fun herror => ?_
    cases h.step_eq.symm.trans (Refusal.lexical (of_decide_eq_true herror)).step_eq
  simp [TokenSource.report, hk]

/-- A lexer reports the tokens that are refused as lexical errors, and no
others. -/
theorem Refusal.report_eq (h : Refusal limit b t e) :
    TokenSource.report Lexer t = report (.error e) := by
  cases h with
  | lexical hk => simp [TokenSource.report, report, Token.isError, hk]
  | _ => simp [TokenSource.report, report, Token.isError, *]

theorem events_conclude {σ : Type} [TokenSource σ] (b : Builder) (s : σ) :
    (b.conclude s).events = report b.finish := by
  unfold conclude
  cases h : b.finish with
  | ok level => rfl
  | error e =>
    cases unfinished_of_finish_eq h with
    | operand => rfl
    | comparison => rfl
    | unclosedGroup => rfl
    | emptyFilter => rfl

theorem events_run (limit : Nat) (b : Builder) (l : Lexer) :
    (b.run limit l).events = report (b.feed limit l.tokens >>= finish) := by
  induction b, l using @run_induct Lexer _ limit with
  | dry b l hl =>
    rw [run_of_none hl, Lexer.tokens_of_none hl, events_conclude]
    rfl
  | refused b l t l' e hl hb =>
    rw [run_of_error hl hb, Lexer.tokens_of_some hl, feed_cons_of_error hb]
    exact (refusal_of_step_eq hb).report_eq
  | taken b l t l' b' hl hb ih =>
    rw [run_of_ok hl hb, Lexer.tokens_of_some hl, feed_cons_of_step hb, ← ih,
      (step_of_step_eq hb).report_eq]
    rfl

end Builder

-- ---------------------------------------------------------------------------
-- Compilations
-- ---------------------------------------------------------------------------

theorem parseTraced_eq (text : String) (fields : AllowList) :
    parseTraced text fields =
      { value := (readLevel text fields).map Level.root
        events := Builder.report (readLevel text fields) } := by
  have hvalue : (parseTraced text fields).value = (readLevel text fields).map Level.root :=
    parse_eq_map_root text fields
  have hevents : (parseTraced text fields).events = Builder.report (readLevel text fields) :=
    Builder.events_run maxDepth {} (Lexer.ofString fields text)
  rw [← hvalue, ← hevents]

theorem compileTraced_of_error (h : readLevel text fields = .error e) :
    (compileTraced text fields).value = .error e ∧
      (compileTraced text fields).events = Builder.report (.error e) := by
  rw [compileTraced, parseTraced_eq, h]
  exact ⟨rfl, List.append_nil _⟩

theorem compileTraced_of_ok (h : readLevel text fields = .ok level) :
    (compileTraced text fields).value = .ok level.root.toFragment ∧
      (compileTraced text fields).events =
        [.parsed level.children.length level.op, .compiled level.root.predicates.length] := by
  have hargs : level.root.toFragment.args.length = level.root.predicates.length :=
    List.length_map _
  rw [compileTraced, parseTraced_eq, h, ← hargs]
  exact ⟨rfl, rfl⟩

theorem events_compileWithTraced (text : String) (config : Config) :
    (compileWithTraced text config).events = (compileTraced text config.fields).events := by
  rw [compileWithTraced, Traced.events_bind]
  cases (compileTraced text config.fields).value with
  | error e => exact List.append_nil _
  | ok f =>
    cases h : f.number config.style with
    | ok g => simp [h]
    | error e => simp [h]

theorem compileWith_eq_parse_error_iff : compileWith text config = .error (.parse e) ↔
    readLevel text config.fields = .error e := by
  rw [compileWith, compileWithTraced, Traced.value_bind]
  cases h : readLevel text config.fields with
  | error e' => simp [(compileTraced_of_error h).1]
  | ok level =>
    rw [(compileTraced_of_ok h).1]
    cases hn : level.root.toFragment.number config.style with
    | ok g => simp [hn]
    | error e' => simp [hn]

theorem reported_error (text : String) (config : Config) (e : ParseError) :
    Reported text config (.error (.parse e)) ((Builder.report (.error e)).map Event.line) := by
  cases e with
  | lexical m => exact .lexical
  | _ => exact .syntactical nofun

/-- The log of a compilation is the one that belongs to its result: a single
line with the message if the text cannot be scanned, none if it can but is no
filter, and otherwise two lines, about its outermost level and about its
arguments. -/
theorem reported_compileWith (text : String) (config : Config) :
    Reported text config (compileWith text config)
      ((compileWithTraced text config).events.map Event.line) := by
  rw [events_compileWithTraced]
  cases h : readLevel text config.fields with
  | error e =>
    rw [(compileTraced_of_error h).2, compileWith_eq_parse_error_iff.2 h]
    exact reported_error text config e
  | ok level =>
    obtain ⟨items, -, hitems, hne, rfl⟩ := items_of_readLevel h
    have hparse : parse text config.fields = .ok (Level.ofItems items).root := by
      rw [parse_eq_map_root, h]
      rfl
    rw [(compileTraced_of_ok h).2]
    refine .compiled hitems (List.length_pos_of_ne_nil hne) hparse rfl fun e he => ?_
    cases h.symm.trans (compileWith_eq_parse_error_iff.1 he)

end FilterQuery
