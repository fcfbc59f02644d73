import FilterQuery.Proofs.Filter.Grammar
import FilterQuery.Proofs.Filter.Stop

/-!
# What can be wrong with groups

In a list of complete predicates, operators and parentheses, in whatever order,
nothing but the groups can be wrong. `groupErrors_eq_scan`: what is wrong with
them is found by a scan that keeps no filters and no operators, and only counts
the children of each open level.
-/

namespace FilterQuery

namespace Balance

inductive Mark where
  | predicate
  | operator
  | opening
  | closing
  deriving BEq, DecidableEq, Repr

inductive Mark.Spells : Mark → List Token → Prop
  | fieldFirst {f c v : Token} {comparator : Comparator} : f.kind = .field →
      c.kind = .comparator → v.kind = .literal → Comparator.ofString? c.text = some comparator →
      Spells .predicate [f, c, v]
  | literalFirst {f c v : Token} {comparator : Comparator} : v.kind = .literal →
      c.kind = .comparator → f.kind = .field → Comparator.ofString? c.text = some comparator →
      Spells .predicate [v, c, f]
  | operator {t : Token} {op : BoolOp} : t.kind = .operator → BoolOp.ofString? t.text = some op →
      Spells .operator [t]
  | opening {t : Token} : t.kind = .openGroup → Spells .opening [t]
  | closing {t : Token} : t.kind = .closeGroup → Spells .closing [t]

/-- A complete predicate, an operator that can be read, or a parenthesis. -/
structure Part where
  mark : Mark
  tokens : List Token
  spells : mark.Spells tokens

/-- The number of children of each open level, where predicates and groups are
children. -/
structure Tally where
  inner : Nat := 0
  outer : List Nat := []
  deriving BEq, DecidableEq, Repr

namespace Tally

def depth (c : Tally) : Nat :=
  c.outer.length

def step (limit : Nat) (c : Tally) : Mark → Except ParseError Tally
  | .predicate => .ok { c with inner := c.inner + 1 }
  | .operator => .ok c
  | .opening =>
    if c.depth = limit then .error .nestingTooDeep
    else .ok { inner := 0, outer := c.inner :: c.outer }
  | .closing =>
    match c.outer with
    | [] => .error .unmatchedClose
    | around :: outer =>
      if c.inner = 0 then .error .emptyGroup else .ok { inner := around + 1, outer }

/-- What is wrong with the groups, if anything is: the first thing that goes
wrong from left to right, and else what is missing at the end. -/
def scan (limit : Nat) (c : Tally) : List Mark → Option ParseError
  | [] =>
    if 0 < c.depth then some .unclosedGroup
    else if c.inner = 0 then some .emptyFilter
    else none
  | m :: ms =>
    match c.step limit m with
    | .error e => some e
    | .ok c' => c'.scan limit ms

def ofLevels (level : Level) (outer : List Level) : Tally where
  inner := level.children.length
  outer := outer.map (·.children.length)

end Tally

end Balance

open Balance

variable {limit : Nat} {level : Level} {outer : List Level} {e : ParseError}

theorem Balance.Mark.Spells.exists_ofTokens {ts : List Token} (h : Mark.predicate.Spells ts) :
    ∃ a c d p, ts = [a, c, d] ∧ (a.kind = .field ∨ a.kind = .literal) ∧ c.kind = .comparator ∧
      Predicate.ofTokens a c d = .ok p := by
  cases h with
  | fieldFirst hf hc hv hcmp =>
    exact ⟨_, _, _, _, rfl, .inl hf, hc, Predicate.ofTokens_fieldFirst hf hc hv hcmp⟩
  | literalFirst hv hc hf hcmp =>
    exact ⟨_, _, _, _, rfl, .inr hv, hc, Predicate.ofTokens_literalFirst hv hc hf hcmp⟩

namespace Builder

/-- Between two parts, the open levels are all that matters of a builder. -/
def between (level : Level) (outer : List Level) : Builder :=
  ⟨level, outer, .idle, outer.length⟩

inductive PartTaken (limit : Nat) (level : Level) (outer : List Level) (part : Part) : Prop
  | taken {level' : Level} {outer' : List Level} :
      (between level outer).feed limit part.tokens = .ok (between level' outer') →
      (Tally.ofLevels level outer).step limit part.mark = .ok (.ofLevels level' outer') →
      outer'.length ≤ limit → PartTaken limit level outer part
  | refused {e : ParseError} : (between level outer).feed limit part.tokens = .error e →
      (Tally.ofLevels level outer).step limit part.mark = .error e →
      PartTaken limit level outer part

theorem partTaken (part : Part) (hle : outer.length ≤ limit) :
    PartTaken limit level outer part := by
  obtain ⟨mark, ts, h⟩ := part
  cases mark with
  | predicate =>
    obtain ⟨a, c, d, p, rfl, ha, hc, hp⟩ := h.exists_ofTokens
    refine .taken (feed_predicate ha hc hp) ?_ hle
    simp [Tally.step, Tally.ofLevels, Level.push]
  | operator =>
    cases h with
    | operator hk hop => exact .taken (feed_cons_of_step (Step.operator hk hop).step_eq) rfl hle
  | opening =>
    cases h with
    | opening hk =>
      rcases Nat.lt_or_eq_of_le hle with hlt | heq
      · refine .taken (feed_cons_of_step (Step.openGroup hk hlt).step_eq) ?_ hlt
        simp [Tally.step, Tally.depth, Tally.ofLevels, Nat.ne_of_lt hlt]
      · -- The builder refuses from the limit on, the tally only at it: `hle` is what
        -- makes the two the same.
        have hdeep : Refusal limit (between level outer) _ .nestingTooDeep :=
          .nestingTooDeep hk (Nat.le_of_eq heq.symm)
        refine .refused (feed_cons_of_error hdeep.step_eq) ?_
        simp [Tally.step, Tally.depth, Tally.ofLevels, heq]
  | closing =>
    cases h with
    | closing hk =>
      cases outer with
      | nil => exact .refused (feed_cons_of_error (Refusal.unmatchedClose hk).step_eq) rfl
      | cons around outer =>
        by_cases hc : level.children = []
        · refine .refused (feed_cons_of_error (Refusal.emptyGroup hk hc).step_eq) ?_
          simp [Tally.step, Tally.ofLevels, hc]
        · have hle : outer.length ≤ limit := Nat.le_of_succ_le hle
          refine .taken (feed_cons_of_step (Step.closeGroup hk hc).step_eq) ?_ hle
          simp [Tally.step, Tally.ofLevels, Level.push, hc]

theorem result_between_nil : (between level outer).result limit [] = .error e ↔
    (Tally.ofLevels level outer).scan limit [] = some e := by
  cases outer with
  | cons around outer =>
    simp [result_nil, between, finish, Tally.scan, Tally.depth, Tally.ofLevels, Except.map]
  | nil =>
    by_cases hc : level.children = [] <;>
      simp [result_nil, between, finish, Tally.scan, Tally.depth, Tally.ofLevels, Except.map, hc]

/-- Reading parts fails as the scan of their marks does, whatever levels are
open before them. -/
theorem result_parts (parts : List Part) (hle : outer.length ≤ limit) :
    (between level outer).result limit (parts.flatMap Part.tokens) = .error e ↔
      (Tally.ofLevels level outer).scan limit (parts.map Part.mark) = some e := by
  induction parts generalizing level outer with
  | nil => exact result_between_nil
  | cons part parts ih =>
    rw [List.flatMap_cons, List.map_cons, Tally.scan]
    have hpart : PartTaken limit level outer part := partTaken part hle
    cases hpart with
    | taken hf hstep hle =>
      rw [result, feed_append_of_ok hf, hstep]
      exact ih hle
    | refused hf hstep =>
      rw [result_of_feed_error (feed_append_of_error hf), hstep]
      simp

end Builder

/-- Reading complete predicates, operators and parentheses fails exactly as the
scan that counts the children of the open levels does. -/
theorem Balance.groupErrors_eq_scan (parts : List Part) :
    Filter.failure? (parts.flatMap Part.tokens) = Tally.scan 64 {} (parts.map Part.mark) := by
  refine Option.ext fun e => ?_
  rw [Filter.failure?_eq_some_iff, Filter.ofTokens_eq_result]
  exact Builder.result_parts parts (Nat.zero_le _)

/-- Parts of all four kinds, with the literal of the predicate first. The group
holds an operator, which does not fill it. -/
theorem Balance.groupErrors_eq_scan_operator :
    ∃ parts : List Part, parts.map Part.mark = [.predicate, .opening, .operator, .closing] ∧
      Filter.failure? (parts.flatMap Part.tokens) = some .emptyGroup := by
  let predicate : Part :=
    ⟨.predicate, [⟨.literal, "18"⟩, ⟨.comparator, "<="⟩, ⟨.field, "Age"⟩],
      .literalFirst rfl rfl rfl rfl⟩
  let opening : Part := ⟨.opening, [⟨.openGroup, "("⟩], .opening rfl⟩
  let operator : Part := ⟨.operator, [⟨.operator, "&&"⟩], .operator rfl rfl⟩
  let closing : Part := ⟨.closing, [⟨.closeGroup, ")"⟩], .closing rfl⟩
  have hscan := groupErrors_eq_scan [predicate, opening, operator, closing]
  exact ⟨[predicate, opening, operator, closing], rfl, hscan.trans (by decide)⟩

end FilterQuery
