import Mathlib.Data.List.Dedup
import FilterQuery.Proofs.Filter.Tree
import FilterQuery.Record

/-!
# What a filter sees of a record

A filter asks a record for the values of its own fields and for nothing else,
and a value counts the same whether it is nested or stored under its whole
dotted name. `matches_project`: a record is matched like its projection, the
flat record that has the value found for every field under the name of the
field.

Fields may overlap, as `a` and `a.b` do, so the path of a missing field can lead
through the value of another one in the projection. It finds nothing there that
the record does not have: the first step of a path has no dots, and for such a
name looking up the field and the key is the same (`find?_of_dot_not_mem`).
-/

namespace FilterQuery

def Filter.fieldNames (f : Filter) : List String :=
  (f.predicates.map (·.field)).dedup

/-- The flat record of what is found for the names, each under its own. -/
def Value.project (record : Value) (names : List String) : Value :=
  .object (names.filterMap fun name => (record.find? name).map (name, ·))

variable {record other v : Value} {name : String} {names : List String} {text : List Char}
  {entries : List (String × Value)} {f : Filter}

-- ---------------------------------------------------------------------------
-- Paths
-- ---------------------------------------------------------------------------

theorem exists_segments (text : List Char) : ∃ s ss, segments text = s :: ss ∧ '.' ∉ s := by
  induction text with
  | nil => exact ⟨[], [], rfl, by simp⟩
  | cons c text ih =>
    obtain ⟨s, ss, hsegments, hs⟩ := ih
    by_cases hc : c = '.'
    · exact ⟨[], segments text, by simp [segments, hc], by simp⟩
    · exact ⟨c :: s, ss, by simp [segments, hc, hsegments], by simp [Ne.symm hc, hs]⟩

theorem segments_of_dot_not_mem (h : '.' ∉ text) : segments text = [text] := by
  induction text with
  | nil => rfl
  | cons c text ih =>
    obtain ⟨hc, htext⟩ := not_or.1 (mt List.mem_cons.2 h)
    simp [segments, Ne.symm hc, ih htext]

namespace Value

theorem find?_of_get?_eq_some (h : record.get? name = some v) : record.find? name = some v := by
  rw [find?, h]

theorem exists_path (name : String) : ∃ step path, '.' ∉ step.toList ∧
    ∀ record : Value, record.find? name =
      (record.get? name).or ((record.get? step).bind fun v => v.walk? path) := by
  obtain ⟨s, ss, hsegments, hs⟩ := exists_segments name.toList
  refine ⟨String.ofList s, ss.map String.ofList, by simpa using hs, fun record => ?_⟩
  rw [find?, hsegments]
  cases record.get? name with
  | some v => rfl
  | none => rfl

theorem find?_of_dot_not_mem (h : '.' ∉ name.toList) : record.find? name = record.get? name := by
  rw [find?, segments_of_dot_not_mem h]
  cases hget : record.get? name with
  | some v => rfl
  | none => simp [walk?, hget]

-- ---------------------------------------------------------------------------
-- Flat records
-- ---------------------------------------------------------------------------

theorem get?_object_cons (key : String) :
    (Value.object ((name, v) :: entries)).get? key =
      if key = name then some v else (Value.object entries).get? key := by
  rw [get?, get?, List.lookup_cons]
  by_cases h : key = name
  · simp [h]
  · simp [h, beq_false_of_ne h]

theorem find?_object_cons (h : (Value.object entries).find? name = some v) (key : String) :
    (Value.object ((name, v) :: entries)).find? key = (Value.object entries).find? key := by
  by_cases hkey : key = name
  · rw [hkey, h]
    exact find?_of_get?_eq_some (by rw [get?_object_cons, if_pos rfl])
  · obtain ⟨step, path, hstep, hfind⟩ := exists_path key
    have hget : (Value.object ((name, v) :: entries)).get? step =
        (Value.object entries).get? step := by
      rw [get?_object_cons]
      split
      · rename_i hname
        rw [← find?_of_dot_not_mem hstep, hname, h]
      · rfl
    rw [hfind, hfind, get?_object_cons, if_neg hkey, hget]

theorem get?_project (key : String) :
    (record.project names).get? key = if key ∈ names then record.find? key else none := by
  induction names with
  | nil => rfl
  | cons n names ih =>
    cases hn : record.find? n with
    | none =>
      have hproject : record.project (n :: names) = record.project names := by
        simp [project, hn]
      rw [hproject, ih]
      by_cases hkey : key = n
      · simp [hkey, hn]
      · simp [hkey]
    | some v =>
      have hproject : (record.project (n :: names)).get? key =
          if key = n then some v else (record.project names).get? key := by
        rw [project, List.filterMap_cons, hn]
        exact get?_object_cons key
      rw [hproject, ih]
      by_cases hkey : key = n
      · simp [hkey, hn]
      · simp [hkey]

theorem find?_project (h : name ∈ names) :
    (record.project names).find? name = record.find? name := by
  obtain ⟨step, path, hstep, hfind⟩ := exists_path name
  have hname : (record.project names).get? name = record.find? name := by
    rw [get?_project, if_pos h]
  rw [hfind (record.project names), hname]
  cases hmissing : record.find? name with
  | some v => rfl
  | none =>
    -- The first step of the path is a key of the projection only if it is one of the record.
    have hpath : ((record.get? step).bind fun v => v.walk? path) = none :=
      (Option.or_eq_none_iff.1 ((hfind record).symm.trans hmissing)).2
    rw [Option.none_or, get?_project]
    split
    · rw [find?_of_dot_not_mem hstep, hpath]
    · rfl

end Value

-- ---------------------------------------------------------------------------
-- Matching
-- ---------------------------------------------------------------------------

namespace Filter

theorem eval_congr {holds holds' : Predicate → Bool}
    (h : ∀ p ∈ f.predicates, holds p = holds' p) : f.eval holds = f.eval holds' := by
  induction f with
  | predicate p => exact h p (by simp [predicates])
  | group op children ih =>
    have hchildren : ∀ c ∈ children, c.eval holds = c.eval holds' := by
      intro c hc
      refine ih c hc fun p hp => h p ?_
      rw [predicates_group]
      exact List.mem_flatMap.2 ⟨c, hc, hp⟩
    cases op with
    | and =>
      rw [eval, eval, evalAll_eq_all, evalAll_eq_all, Bool.eq_iff_iff, List.all_eq_true,
        List.all_eq_true]
      exact forall₂_congr fun c hc => by rw [hchildren c hc]
    | or =>
      rw [eval, eval, evalAny_eq_any, evalAny_eq_any, Bool.eq_iff_iff, List.any_eq_true,
        List.any_eq_true]
      exact exists_congr fun c => and_congr_right fun hc => by rw [hchildren c hc]

theorem field_mem_fieldNames {p : Predicate} (h : p ∈ f.predicates) : p.field ∈ f.fieldNames :=
  List.mem_dedup.2 (List.mem_map_of_mem h)

theorem matches_congr (h : ∀ name ∈ f.fieldNames, other.find? name = record.find? name) :
    f.matches other = f.matches record := by
  refine eval_congr fun p hp => ?_
  rw [Predicate.matches, Predicate.matches, h p.field (field_mem_fieldNames hp)]

/-- A filter sees the values of its own fields and nothing else of a record. A
record is matched like its projection on these fields, and like any other with
the same values for them. A value may be stored under its whole name besides
where its path leads; and what is stored under the whole name hides what the
path leads to, also if it is null. -/
theorem matches_project (f : Filter) (record : Value) :
    f.matches (record.project f.fieldNames) = f.matches record ∧
    (∀ other : Value, (∀ name ∈ f.fieldNames, other.find? name = record.find? name) →
      f.matches other = f.matches record) ∧
    (∀ entries name v, record = .object entries → record.find? name = some v →
      f.matches (.object ((name, v) :: entries)) = f.matches record) ∧
    (∀ name v (other : Value), record.get? name = some v → other.get? name = some v →
      (∀ n ∈ f.fieldNames, n ≠ name → other.find? n = record.find? n) →
      f.matches other = f.matches record) ∧
    ∀ p : Predicate, record.get? p.field = some .null → p.matches record = false := by
  refine ⟨?_, fun other => matches_congr, ?_, ?_, ?_⟩
  · exact matches_congr fun name hname => Value.find?_project hname
  · rintro entries name v rfl hv
    exact matches_congr fun n _ => Value.find?_object_cons hv n
  · intro name v other hrecord hother hrest
    refine matches_congr fun n hn => ?_
    by_cases hname : n = name
    · rw [hname, Value.find?_of_get?_eq_some hother, Value.find?_of_get?_eq_some hrecord]
    · exact hrest n hn hname
  · intro p hnull
    rw [Predicate.matches, Value.find?_of_get?_eq_some hnull]
    rfl

/-- The fields `a` and `a.b` overlap and `a.c` is missing; and a null under the
whole name `a.b` hides the text that is nested. -/
theorem matches_project_overlapping :
    let f : Filter := .group .or
      [.predicate ⟨"a.b", .eq, "x"⟩, .predicate ⟨"a", .eq, "x"⟩, .predicate ⟨"a.c", .eq, "x"⟩]
    let p : Predicate := ⟨"a.b", .eq, "x"⟩
    let nested : List (String × Value) := [("a", .object [("b", .string "x")]), ("d", .bool true)]
    f.matches (.object [("a.b", .string "x"), ("a", .object [("b", .string "x")])]) =
        f.matches (.object nested) ∧
      f.matches (.object (("a.b", .string "x") :: nested)) = f.matches (.object nested) ∧
      (Filter.predicate p).matches (.object [("a.b", .null)]) =
        (Filter.predicate p).matches (.object (("a.b", .null) :: nested)) ∧
      p.matches (.object (("a.b", .null) :: nested)) = false := by
  intro f p nested
  have hnames : f.fieldNames = ["a.b", "a", "a.c"] := by decide +kernel
  have hproject : (Value.object nested).project f.fieldNames =
      .object [("a.b", .string "x"), ("a", .object [("b", .string "x")])] := by
    rw [hnames]
    rfl
  refine ⟨?_, ?_, ?_, ?_⟩
  · rw [← hproject]
    exact (matches_project f (.object nested)).1
  · exact (matches_project f (.object nested)).2.2.1 nested "a.b" (.string "x") rfl rfl
  · refine (matches_project (.predicate p) (.object (("a.b", .null) :: nested))).2.2.2.1 "a.b" .null _
      rfl rfl ?_
    intro n hn hne
    exact absurd (List.mem_singleton.1 hn) hne
  · exact (matches_project f (.object (("a.b", .null) :: nested))).2.2.2.2 p rfl

end Filter

end FilterQuery
