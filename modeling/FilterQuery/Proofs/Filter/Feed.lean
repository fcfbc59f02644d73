import FilterQuery.Compile

/-!
# Feeding tokens to a builder

`Builder.feed` gives a list of tokens to a builder without a source.
`Builder.result_run` says that what a reading gives depends only on the tokens
its source hands out, so reading a text is reading the list of its tokens
(`parse_eq_ofTokens`).

`Builder.Step` says once what a token can do to a builder, `Builder.Refusal` why
a builder refuses one, and `Builder.Unfinished` why the tokens must not end yet.
-/

namespace FilterQuery

namespace Builder

-- ---------------------------------------------------------------------------
-- What one token does
-- ---------------------------------------------------------------------------

/-- The builder after a token that is not refused. -/
inductive Step (limit : Nat) : Builder → Token → Builder → Prop
  | operator {level : Level} {outer : List Level} {depth : Nat} {t : Token} {op : BoolOp} :
      t.kind = .operator → BoolOp.ofString? t.text = some op →
      Step limit ⟨level, outer, .idle, depth⟩ t ⟨{ level with op }, outer, .idle, depth⟩
  | openGroup {level : Level} {outer : List Level} {depth : Nat} {t : Token} :
      t.kind = .openGroup → depth < limit →
      Step limit ⟨level, outer, .idle, depth⟩ t ⟨{}, level :: outer, .idle, depth + 1⟩
  | closeGroup {level around : Level} {outer : List Level} {depth : Nat} {t : Token} :
      t.kind = .closeGroup → level.children ≠ [] →
      Step limit ⟨level, around :: outer, .idle, depth⟩ t
        ⟨around.push level.toFilter, outer, .idle, depth - 1⟩
  | operand {level : Level} {outer : List Level} {depth : Nat} {t : Token} :
      t.kind = .field ∨ t.kind = .literal →
      Step limit ⟨level, outer, .idle, depth⟩ t ⟨level, outer, .operand t, depth⟩
  | comparison {level : Level} {outer : List Level} {depth : Nat} {first t : Token} :
      t.kind ≠ .error →
      Step limit ⟨level, outer, .operand first, depth⟩ t
        ⟨level, outer, .comparison first t, depth⟩
  | predicate {level : Level} {outer : List Level} {depth : Nat} {first second t : Token}
      {p : Predicate} : Predicate.ofTokens first second t = .ok p →
      Step limit ⟨level, outer, .comparison first second, depth⟩ t
        ⟨level.push (.predicate p), outer, .idle, depth⟩

/-- Why a token is refused. An error token is refused everywhere, any other one
only for what stands before it. -/
inductive Refusal (limit : Nat) : Builder → Token → ParseError → Prop
  | lexical {b : Builder} {t : Token} : t.kind = .error → Refusal limit b t (.lexical t.text)
  | unknownOperator {level : Level} {outer : List Level} {depth : Nat} {t : Token} :
      t.kind = .operator → BoolOp.ofString? t.text = none →
      Refusal limit ⟨level, outer, .idle, depth⟩ t (.unknownOperator t.text)
  | nestingTooDeep {level : Level} {outer : List Level} {depth : Nat} {t : Token} :
      t.kind = .openGroup → limit ≤ depth →
      Refusal limit ⟨level, outer, .idle, depth⟩ t .nestingTooDeep
  | unmatchedClose {level : Level} {depth : Nat} {t : Token} : t.kind = .closeGroup →
      Refusal limit ⟨level, [], .idle, depth⟩ t .unmatchedClose
  | emptyGroup {level around : Level} {outer : List Level} {depth : Nat} {t : Token} :
      t.kind = .closeGroup → level.children = [] →
      Refusal limit ⟨level, around :: outer, .idle, depth⟩ t .emptyGroup
  | unexpectedToken {level : Level} {outer : List Level} {depth : Nat} {t : Token} :
      t.kind = .comparator → Refusal limit ⟨level, outer, .idle, depth⟩ t (.unexpectedToken t)
  | malformedPredicate {level : Level} {outer : List Level} {depth : Nat}
      {first second t : Token} : t.kind ≠ .error →
      Predicate.ofTokens first second t = .error (.malformedPredicate first second t) →
      Refusal limit ⟨level, outer, .comparison first second, depth⟩ t
        (.malformedPredicate first second t)
  | unknownComparator {level : Level} {outer : List Level} {depth : Nat}
      {first second t : Token} : t.kind ≠ .error →
      Predicate.ofTokens first second t = .error (.unknownComparator second.text) →
      Refusal limit ⟨level, outer, .comparison first second, depth⟩ t
        (.unknownComparator second.text)

variable {limit : Nat} {b b' : Builder} {t : Token} {ts us : List Token} {e : ParseError}

theorem Step.step_eq (h : Step limit b t b') : b.step limit t = .ok b' := by
  cases h with
  | operator hk hop => simp [step, item, Token.isError, hk, hop]
  | openGroup hk hd => simp [step, item, Builder.openGroup, Token.isError, hk, Nat.not_le.2 hd]
  | closeGroup hk hc => simp [step, item, Builder.closeGroup, Token.isError, hk, hc]
  | operand hk => rcases hk with hk | hk <;> simp [step, item, Token.isError, hk]
  | comparison hk => simp [step, Token.isError, hk]
  | predicate hp =>
    have hk : t.kind ≠ .error := by
      intro hk
      simp [Predicate.ofTokens, hk] at hp
    simp [step, Token.isError, hk, hp, Except.map, push]

theorem Refusal.step_eq (h : Refusal limit b t e) : b.step limit t = .error e := by
  cases h with
  | lexical hk => simp [step, Token.isError, hk]
  | unknownOperator hk hop => simp [step, item, Token.isError, hk, hop]
  | nestingTooDeep hk hd => simp [step, item, Builder.openGroup, Token.isError, hk, hd]
  | unmatchedClose hk => simp [step, item, Builder.closeGroup, Token.isError, hk]
  | emptyGroup hk hc => simp [step, item, Builder.closeGroup, Token.isError, hk, hc]
  | unexpectedToken hk => simp [step, item, Token.isError, hk]
  | malformedPredicate hk hp => simp [step, Token.isError, hk, hp, Except.map]
  | unknownComparator hk hp => simp [step, Token.isError, hk, hp, Except.map]

theorem ofTokens_eq_error {first second third : Token}
    (h : Predicate.ofTokens first second third = .error e) :
    e = .malformedPredicate first second third ∨ e = .unknownComparator second.text := by
  unfold Predicate.ofTokens Predicate.ofTokens.compare at h
  repeat' split at h
  all_goals cases h
  · exact .inr rfl
  · exact .inr rfl
  · exact .inl rfl

/-- A token is taken or refused, and in which way depends on its kind and on
the predicate that is not complete yet. -/
theorem step_or_refusal (limit : Nat) (b : Builder) (t : Token) :
    (∃ b', Step limit b t b') ∨ ∃ e, Refusal limit b t e := by
  obtain ⟨level, outer, pending, depth⟩ := b
  by_cases herror : t.kind = .error
  · exact .inr ⟨_, .lexical herror⟩
  cases pending with
  | idle =>
    cases hk : t.kind with
    | openGroup =>
      rcases Nat.lt_or_ge depth limit with hd | hd
      · exact .inl ⟨_, .openGroup hk hd⟩
      · exact .inr ⟨_, .nestingTooDeep hk hd⟩
    | closeGroup =>
      cases outer with
      | nil => exact .inr ⟨_, .unmatchedClose hk⟩
      | cons around outer =>
        by_cases hc : level.children = []
        · exact .inr ⟨_, .emptyGroup hk hc⟩
        · exact .inl ⟨_, .closeGroup hk hc⟩
    | operator =>
      cases hop : BoolOp.ofString? t.text with
      | none => exact .inr ⟨_, .unknownOperator hk hop⟩
      | some op => exact .inl ⟨_, .operator hk hop⟩
    | comparator => exact .inr ⟨_, .unexpectedToken hk⟩
    | literal => exact .inl ⟨_, .operand (.inr hk)⟩
    | field => exact .inl ⟨_, .operand (.inl hk)⟩
    | error => exact absurd hk herror
  | operand first => exact .inl ⟨_, .comparison herror⟩
  | comparison first second =>
    cases hp : Predicate.ofTokens first second t with
    | ok p => exact .inl ⟨_, .predicate hp⟩
    | error e =>
      rcases ofTokens_eq_error hp with rfl | rfl
      · exact .inr ⟨_, .malformedPredicate herror hp⟩
      · exact .inr ⟨_, .unknownComparator herror hp⟩

theorem step_of_step_eq (h : b.step limit t = .ok b') : Step limit b t b' := by
  rcases step_or_refusal limit b t with ⟨c, hc⟩ | ⟨e, he⟩
  · cases h.symm.trans hc.step_eq
    exact hc
  · cases h.symm.trans he.step_eq

theorem refusal_of_step_eq (h : b.step limit t = .error e) : Refusal limit b t e := by
  rcases step_or_refusal limit b t with ⟨c, hc⟩ | ⟨e', he⟩
  · cases h.symm.trans hc.step_eq
  · cases h.symm.trans he.step_eq
    exact he

-- ---------------------------------------------------------------------------
-- Lists of tokens
-- ---------------------------------------------------------------------------

def feed (limit : Nat) (b : Builder) (ts : List Token) : Except ParseError Builder :=
  ts.foldlM (step limit) b

theorem feed_cons_of_step (h : b.step limit t = .ok b') :
    b.feed limit (t :: ts) = b'.feed limit ts := by
  simp only [feed, List.foldlM_cons, h]
  rfl

theorem feed_cons_of_error (h : b.step limit t = .error e) :
    b.feed limit (t :: ts) = .error e := by
  simp only [feed, List.foldlM_cons, h]
  rfl

theorem feed_append : b.feed limit (ts ++ us) = b.feed limit ts >>= fun b' => b'.feed limit us :=
  List.foldlM_append

theorem feed_append_of_ok (h : b.feed limit ts = .ok b') :
    b.feed limit (ts ++ us) = b'.feed limit us := by
  rw [feed_append, h]
  rfl

theorem feed_append_of_error (h : b.feed limit ts = .error e) :
    b.feed limit (ts ++ us) = .error e := by
  rw [feed_append, h]
  rfl

/-- An invariant that every token keeps holds after every list of tokens. The
invariant may speak of the tokens taken so far. -/
theorem feed_induction {P : List Token → Builder → Prop}
    (hstep : ∀ {ts b t b'}, P ts b → Step limit b t b' → P (ts ++ [t]) b')
    (hb : P ts b) (h : b.feed limit us = .ok b') : P (ts ++ us) b' := by
  induction us generalizing ts b with
  | nil =>
    cases h
    simpa using hb
  | cons t us ih =>
    cases hs : b.step limit t with
    | error e =>
      rw [feed_cons_of_error hs] at h
      cases h
    | ok c =>
      rw [feed_cons_of_step hs] at h
      have hc := ih (hstep hb (step_of_step_eq hs)) h
      simpa using hc

def result (limit : Nat) (b : Builder) (ts : List Token) : Except ParseError Filter :=
  (b.feed limit ts >>= finish).map Level.root

theorem result_nil : b.result limit [] = b.finish.map Level.root := rfl

theorem result_cons_of_step (h : b.step limit t = .ok b') :
    b.result limit (t :: ts) = b'.result limit ts := by
  rw [result, feed_cons_of_step h, result]

theorem result_cons_of_error (h : b.step limit t = .error e) :
    b.result limit (t :: ts) = .error e := by
  rw [result, feed_cons_of_error h]
  rfl

theorem result_of_feed_error (h : b.feed limit ts = .error e) : b.result limit ts = .error e := by
  rw [result, h]
  rfl

theorem finish_eq_ok_iff {level : Level} : b.finish = .ok level ↔
    ∃ depth, b = ⟨level, [], .idle, depth⟩ ∧ level.children ≠ [] := by
  obtain ⟨inner, outer, pending, depth⟩ := b
  constructor
  · intro h
    unfold finish at h
    split at h
    · cases h
    · cases h
    · cases h
    · split at h
      · cases h
      · rename_i hp ho hc
        cases h
        cases hp
        cases ho
        exact ⟨depth, rfl, by simpa using hc⟩
  · rintro ⟨d, he, hc⟩
    cases he
    simp [finish, hc]

inductive Unfinished : Builder → ParseError → Prop
  | operand {level : Level} {outer : List Level} {depth : Nat} {first : Token} :
      Unfinished ⟨level, outer, .operand first, depth⟩ .unexpectedEnd
  | comparison {level : Level} {outer : List Level} {depth : Nat} {first second : Token} :
      Unfinished ⟨level, outer, .comparison first second, depth⟩ .unexpectedEnd
  | unclosedGroup {level around : Level} {outer : List Level} {depth : Nat} :
      Unfinished ⟨level, around :: outer, .idle, depth⟩ .unclosedGroup
  | emptyFilter {level : Level} {depth : Nat} : level.children = [] →
      Unfinished ⟨level, [], .idle, depth⟩ .emptyFilter

theorem unfinished_of_finish_eq (h : b.finish = .error e) : Unfinished b e := by
  obtain ⟨level, outer, pending, depth⟩ := b
  cases pending with
  | operand first =>
    cases h
    exact .operand
  | comparison first second =>
    cases h
    exact .comparison
  | idle =>
    cases outer with
    | cons around outer =>
      cases h
      exact .unclosedGroup
    | nil =>
      simp only [finish] at h
      split at h
      · rename_i hc
        cases h
        exact .emptyFilter (List.isEmpty_iff.1 hc)
      · cases h

theorem result_eq_ok_iff {f : Filter} : b.result limit ts = .ok f ↔
    ∃ level depth, b.feed limit ts = .ok ⟨level, [], .idle, depth⟩ ∧ level.children ≠ [] ∧
      level.root = f := by
  constructor
  · intro h
    cases hr : b.feed limit ts >>= finish with
    | error e => simp [result, hr, Except.map] at h
    | ok level =>
      rw [result, hr] at h
      obtain ⟨c, hc, hf⟩ := Json.bind_eq_ok.1 hr
      obtain ⟨depth, rfl, hn⟩ := finish_eq_ok_iff.1 hf
      exact ⟨level, depth, hc, hn, Except.ok.inj h⟩
  · rintro ⟨level, depth, hf, hn, rfl⟩
    have hr : finish ⟨level, [], .idle, depth⟩ = .ok level := finish_eq_ok_iff.2 ⟨depth, rfl, hn⟩
    rw [result, Json.bind_eq_ok.2 ⟨_, hf, hr⟩]
    rfl

-- ---------------------------------------------------------------------------
-- Sources of tokens
-- ---------------------------------------------------------------------------

variable {σ : Type} [TokenSource σ]

/-- Induction over a reading, by what becomes of the next token. A source gets
smaller with every token, whether or not the builder takes it. -/
@[elab_as_elim]
theorem run_induct (limit : Nat) {motive : Builder → σ → Prop}
    (dry : ∀ b s, TokenSource.next? s = none → motive b s)
    (refused : ∀ b s t s' e, TokenSource.next? s = some (t, s') → b.step limit t = .error e →
      motive b s)
    (taken : ∀ b s t s' b', TokenSource.next? s = some (t, s') → b.step limit t = .ok b' →
      motive b' s' → motive b s)
    (b : Builder) (s : σ) : motive b s := by
  induction hn : TokenSource.size s using Nat.strongRecOn generalizing b s with
  | ind n ih =>
    cases hs : TokenSource.next? s with
    | none => exact dry b s hs
    | some r =>
      obtain ⟨t, s'⟩ := r
      cases hb : b.step limit t with
      | error e => exact refused b s t s' e hs hb
      | ok b' => exact taken b s t s' b' hs hb (ih _ (hn ▸ TokenSource.size_next? hs) b' s' rfl)

theorem result_run (limit : Nat) (b : Builder) (s : σ) :
    (b.run limit s).result = b.result limit (TokenSource.drain s).value.1 := by
  induction b, s using @run_induct σ _ limit with
  | dry b s hs =>
    rw [run_of_none hs, TokenSource.drain_of_none hs, result_nil, conclude]
    cases b.finish <;> rfl
  | refused b s t s' e hs hb =>
    rw [run_of_error hs hb, TokenSource.drain_of_some hs, result_cons_of_error hb]
  | taken b s t s' b' hs hb ih =>
    rw [run_of_ok hs hb, TokenSource.drain_of_some hs, result_cons_of_step hb, ih]

end Builder

theorem drain_list (ts : List Token) : (TokenSource.drain ts).value.1 = ts := by
  induction ts with
  | nil => rw [TokenSource.drain_of_none rfl]
  | cons t ts ih => rw [TokenSource.drain_of_some rfl, ih]

theorem Filter.ofTokens_eq_result (ts : List Token) :
    Filter.ofTokens ts = Builder.result maxDepth {} ts := by
  rw [Filter.ofTokens, Parser.read, Builder.result_run, drain_list]

theorem parse_eq_ofTokens (text : String) (fields : AllowList) :
    parse text fields = Filter.ofTokens (Lexer.ofString fields text).tokens := by
  rw [Filter.ofTokens_eq_result, Lexer.tokens, ← Builder.result_run]
  rfl

end FilterQuery
