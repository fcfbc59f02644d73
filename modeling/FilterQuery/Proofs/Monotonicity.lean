import Mathlib
import FilterQuery.Proofs.Filter.Accepted
import FilterQuery.Proofs.Projection

/-!
# Filters are monotone

There is no negation between the predicates of a filter, so a record that
satisfies more of them is matched no less (`Filter.eval_mono`). What keeps a
filter from matching by default is that none of its groups is empty: the value of
such a filter is that of one of its predicates (`Filter.Full.exists_eval_eq`).
A filter that is not read from a text may have an empty group, and one that is
joined by AND matches every record.
-/

namespace FilterQuery

def Value.isComparable : Value → Bool
  | .bool _ | .number _ | .string _ => true
  | .null | .array _ | .object _ => false

variable {f : Filter} {children : List Filter} {holds holds' : Predicate → Bool}
  {record : Value} {p : Predicate}

namespace Filter

theorem eval_mono (h : ∀ p ∈ f.predicates, holds p = true → holds' p = true)
    (hf : f.eval holds = true) : f.eval holds' = true := by
  induction f with
  | predicate p => exact h p (by simp [predicates]) hf
  | group op children ih =>
    have hchildren : ∀ c ∈ children, c.eval holds = true → c.eval holds' = true := by
      intro c hc
      refine ih c hc fun p hp => h p ?_
      rw [predicates_group]
      exact List.mem_flatMap.2 ⟨c, hc, hp⟩
    cases op with
    | and =>
      rw [eval, evalAll_eq_all, List.all_eq_true] at hf ⊢
      exact fun c hc => hchildren c hc (hf c hc)
    | or =>
      rw [eval, evalAny_eq_any, List.any_eq_true] at hf ⊢
      obtain ⟨c, hc, htrue⟩ := hf
      exact ⟨c, hc, hchildren c hc htrue⟩

/-- Some child decides a group: one that fails if AND fails, one that holds if
OR holds, and else any of them. -/
theorem exists_child_eval_eq (op : BoolOp) (holds : Predicate → Bool) (hne : children ≠ []) :
    ∃ c ∈ children, (Filter.group op children).eval holds = c.eval holds := by
  obtain ⟨first, hfirst⟩ := List.exists_mem_of_ne_nil children hne
  cases op with
  | and =>
    rw [eval, evalAll_eq_all]
    cases hall : children.all (·.eval holds) with
    | true => exact ⟨first, hfirst, (List.all_eq_true.1 hall first hfirst).symm⟩
    | false =>
      obtain ⟨c, hc, hfails⟩ := List.all_eq_false.1 hall
      exact ⟨c, hc, (Bool.eq_false_iff.2 hfails).symm⟩
  | or =>
    rw [eval, evalAny_eq_any]
    cases hany : children.any (·.eval holds) with
    | true =>
      obtain ⟨c, hc, hholds⟩ := List.any_eq_true.1 hany
      exact ⟨c, hc, hholds.symm⟩
    | false =>
      have hfails := List.any_eq_false.1 hany first hfirst
      exact ⟨first, hfirst, (Bool.eq_false_iff.2 hfails).symm⟩

theorem Full.exists_eval_eq (hf : f.Full) (holds : Predicate → Bool) :
    ∃ p ∈ f.predicates, f.eval holds = holds p := by
  induction hf with
  | predicate p => exact ⟨p, by simp [predicates], rfl⟩
  | @group op children hne _ ih =>
    obtain ⟨c, hc, hgroup⟩ := exists_child_eval_eq op holds hne
    obtain ⟨p, hp, heval⟩ := ih c hc
    refine ⟨p, ?_, hgroup.trans heval⟩
    rw [predicates_group]
    exact List.mem_flatMap.2 ⟨c, hc, hp⟩

end Filter

theorem Predicate.accepts_of_not_comparable {v : Value} (h : v.isComparable = false) :
    p.accepts v = false := by
  cases v with
  | null => rfl
  | bool b => cases h
  | number x => cases h
  | string s => cases h
  | array items => rfl
  | object entries => rfl

theorem Predicate.matches_of_not_comparable
    (h : ∀ v, record.find? p.field = some v → v.isComparable = false) :
    p.matches record = false := by
  rw [Predicate.matches]
  cases hfind : record.find? p.field with
  | none => rfl
  | some v => exact accepts_of_not_comparable (h v hfind)

/-- A filter that is read from a text matches a record at least as soon as
another one that satisfies no more of its predicates. It matches no record that
satisfies none of them, such as one without a comparable value for any field,
and every record that satisfies all of them. -/
theorem matches_mono_of_parse {text : String} {fields : AllowList}
    (h : parse text fields = .ok f) (record other : Value) :
    ((∀ p ∈ f.predicates, p.matches record = true → p.matches other = true) →
      f.matches record = true → f.matches other = true) ∧
    ((∀ p ∈ f.predicates, p.matches record = false) → f.matches record = false) ∧
    ((∀ name ∈ f.fieldNames, ∀ v, record.find? name = some v → v.isComparable = false) →
      f.matches record = false) ∧
    ((∀ p ∈ f.predicates, p.matches record = true) → f.matches record = true) := by
  obtain ⟨ts, -, hwhole⟩ := parse_eq_ok_iff.1 h
  obtain ⟨p, hp, hdecides⟩ := hwhole.full.exists_eval_eq (·.matches record)
  refine ⟨fun hmore => Filter.eval_mono hmore, fun hnone => ?_, fun hvalues => ?_, fun hall => ?_⟩
  · exact hdecides.trans (hnone p hp)
  · have hvalue := hvalues p.field (Filter.field_mem_fieldNames hp)
    exact hdecides.trans (Predicate.matches_of_not_comparable hvalue)
  · exact hdecides.trans (hall p hp)

/-- A nested filter with a field that occurs twice. The second record satisfies
the predicates that the first one does, and one more. -/
theorem matches_mono_of_parse_nested :
    let text := "b != \"1\" && (a = \"x\" or \"y\" < a)"
    let f : Filter := .group .and [.predicate ⟨"b", .ne, "1"⟩,
      .group .or [.predicate ⟨"a", .eq, "x"⟩, .predicate ⟨"a", .lt, "y"⟩]]
    let record : Value := .object [("a", .string "w"), ("b", .string "2")]
    let other : Value := .object [("a", .string "x"), ("b", .string "")]
    let empty : Value := .object [("a", .null), ("b", .array [.string "2"])]
    parse text (.ofList ["a", "b"]) = .ok f ∧
      (f.matches record = true → f.matches other = true) ∧
      f.matches empty = false ∧
      f.matches other = true := by
  intro text f record other empty
  have hparse : parse text (.ofList ["a", "b"]) = .ok f := by cbv
  have hpredicates : f.predicates = [⟨"b", .ne, "1"⟩, ⟨"a", .eq, "x"⟩, ⟨"a", .lt, "y"⟩] := by cbv
  have hnames : f.fieldNames = ["b", "a"] := by decide +kernel
  refine ⟨hparse, (matches_mono_of_parse hparse record other).1 ?_,
    (matches_mono_of_parse hparse empty other).2.2.1 ?_,
    (matches_mono_of_parse hparse other other).2.2.2 ?_⟩
  · rw [hpredicates]
    decide +kernel
  · rw [hnames]
    simp only [List.forall_mem_cons]
    refine ⟨?_, ?_, by simp⟩
    · rintro v ⟨⟩
      rfl
    · rintro v ⟨⟩
      rfl
  · rw [hpredicates]
    decide +kernel

/-- A group that no text is read as: it holds by default. -/
example (record : Value) : (Filter.group .and []).matches record = true := rfl

end FilterQuery
