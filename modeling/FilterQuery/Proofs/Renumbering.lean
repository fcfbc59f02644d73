import FilterQuery.Proofs.Placeholder.Runs

/-!
# Numbering more than once

Numbering a text halves its runs of question marks, so a question mark that was
written twice is a placeholder the next time. Which of them are placeholders
after `k` steps is told by the binary digit `k` of the length of every run of
the text as it was at first, and not by the styles (`runsWithBit_number`).

`numberMany_eq_bits` says what every step of a session gives. The condition of
an accepted text has nothing left to number after one step.
-/

namespace FilterQuery

/-- The number of runs of question marks whose length has the binary digit `k`. -/
def Placeholder.runsWithBit (k : Nat) (text : List Char) : Nat :=
  (runs text).countP (·.testBit k)

/-- The fragment that a step leaves to the one after it. A step that fails
changes nothing. -/
def Fragment.next (f : Fragment) (style : Placeholder.Style) : Fragment :=
  match f.number style with
  | .ok g => g
  | .error _ => f

structure Fragment.Turned (f : Fragment) (k : Nat) (g : Fragment) : Prop where
  args_eq : g.args = f.args
  runsWithBit_eq (j : Nat) :
    Placeholder.runsWithBit j g.sql.toList = Placeholder.runsWithBit (k + j) f.sql.toList

variable {style : Placeholder.Style} {styles : List Placeholder.Style} {used k m : Nat}
  {text rest : List Char} {f g : Fragment} {fields : AllowList}

-- ---------------------------------------------------------------------------
-- Runs of a numbered text
-- ---------------------------------------------------------------------------

namespace Placeholder

theorem runsWithBit_run (hrest : Text.Stops isMark rest) :
    runsWithBit k (List.replicate m '?' ++ rest) =
      (if m.testBit k then 1 else 0) + runsWithBit k rest := by
  by_cases hm : m = 0
  · simp [hm]
  · rw [runsWithBit, runs_run hm hrest, List.countP_cons, Nat.add_comm]
    rfl

theorem runsWithBit_stretch {stretch : List Char} (h : '?' ∉ stretch) :
    runsWithBit k (stretch ++ rest) = runsWithBit k rest := by
  rw [runsWithBit, runs_stretch h, runsWithBit]

theorem count_eq_runsWithBit (sql : String) : count sql = runsWithBit 0 sql.toList := by
  rw [count, count_pieces_eq_countP, runsWithBit, runs, List.countP_map, List.countP_filter]
  refine List.countP_congr fun part _ => ?_
  simp [isOddRun, and_comm]

theorem stops_writeNumbered (h : Text.Stops isMark text) :
    Text.Stops isMark (writeNumbered style used (pieces text)) := by
  cases text with
  | nil => exact Text.stops_nil
  | cons c text =>
    have hc : isMark c = false := Text.stops_cons.1 h
    rw [pieces_cons_of_ne (isMark_eq_false_iff.1 hc), writeNumbered]
    exact Text.stops_cons.2 hc

theorem stops_stretch {stretch : List Char} (h : '?' ∉ stretch) (hrest : Text.Stops isMark rest) :
    Text.Stops isMark (stretch ++ rest) := by
  cases stretch with
  | nil => exact hrest
  | cons c stretch =>
    exact Text.stops_cons.2 (isMark_eq_false_iff.2 fun he => h (he ▸ List.mem_cons_self))

theorem runsWithBit_numberRun (hrest : Text.Stops isMark rest) :
    runsWithBit k (numberRun style used m ++ rest) =
      (if m.testBit (k + 1) then 1 else 0) + runsWithBit k rest := by
  rw [numberRun, List.append_assoc, Nat.testBit_succ]
  split
  · have hmarker : '?' ∉ (style.marker (used + 1)).toList := question_not_mem_marker _
    rw [runsWithBit_run (stops_stretch hmarker hrest), runsWithBit_stretch hmarker]
  · rw [List.nil_append, runsWithBit_run hrest]

/-- Numbering moves the binary digits of every run down by one. -/
theorem runsWithBit_writeNumbered (used : Nat) (text : List Char) :
    runsWithBit k (writeNumbered style used (pieces text)) = runsWithBit (k + 1) text := by
  induction text using parts_induct generalizing used with
  | nil => rfl
  | stretch stretch rest _ hstretch _ ih =>
    rw [writeNumbered_stretch hstretch, runsWithBit_stretch hstretch, runsWithBit_stretch hstretch,
      ih]
  | run m rest _ hrest ih =>
    rw [writeNumbered_run hrest, runsWithBit_numberRun (stops_writeNumbered hrest),
      runsWithBit_run hrest, ih]

theorem runsWithBit_number (sql : String) :
    runsWithBit k (number style sql).toList = runsWithBit (k + 1) sql.toList := by
  rw [number, String.toList_ofList, runsWithBit_writeNumbered]

end Placeholder

-- ---------------------------------------------------------------------------
-- Sessions
-- ---------------------------------------------------------------------------

namespace Fragment

open Placeholder (runsWithBit)

theorem numberMany_cons : f.numberMany (style :: styles) =
    f.number style :: (f.next style).numberMany styles := by
  rw [numberMany, next]
  cases f.number style <;> rfl

theorem args_of_number_eq_ok (hg : f.number style = .ok g) : g.args = f.args := by
  unfold number at hg
  split at hg
  · cases hg
    rfl
  · cases hg

theorem args_next : (f.next style).args = f.args := by
  unfold next
  split
  · exact args_of_number_eq_ok ‹_›
  · rfl

theorem Turned.refl (f : Fragment) : f.Turned 0 f :=
  ⟨rfl, fun j => by rw [Nat.zero_add]⟩

theorem Turned.placeholders_eq (hg : f.Turned k g) :
    g.placeholders = runsWithBit k f.sql.toList :=
  (Placeholder.count_eq_runsWithBit g.sql).trans (hg.runsWithBit_eq 0)

theorem Turned.number_eq_ok (hg : f.Turned k g) (h : runsWithBit k f.sql.toList = f.args.length) :
    g.number style = .ok { g with sql := Placeholder.number style g.sql } := by
  rw [number, hg.placeholders_eq, hg.args_eq, if_pos h]

theorem Turned.number_eq_error (hg : f.Turned k g)
    (h : runsWithBit k f.sql.toList ≠ f.args.length) :
    g.number style =
      .error { placeholders := runsWithBit k f.sql.toList, args := f.args.length } := by
  rw [number, hg.placeholders_eq, hg.args_eq, if_neg h]

theorem Turned.next (hg : f.Turned k g) (style : Placeholder.Style) :
    f.Turned (k + if (g.number style).isOk then 1 else 0) (g.next style) := by
  refine ⟨args_next.trans hg.args_eq, fun j => ?_⟩
  by_cases h : runsWithBit k f.sql.toList = f.args.length
  · simp only [Fragment.next, hg.number_eq_ok h, Except.isOk, Except.toBool, if_true]
    rw [Placeholder.runsWithBit_number, hg.runsWithBit_eq, Nat.add_right_comm, Nat.add_assoc]
  · simp only [Fragment.next, hg.number_eq_error h]
    exact hg.runsWithBit_eq j

theorem Turned.foldl_next (hg : f.Turned k g) (styles : List Placeholder.Style) :
    f.Turned (k + (g.numberMany styles).countP (·.isOk)) (styles.foldl Fragment.next g) := by
  induction styles generalizing g k with
  | nil => exact hg
  | cons style styles ih =>
    have hturned := ih (hg.next style)
    rw [numberMany_cons, List.countP_cons, Nat.add_comm (List.countP _ _), ← Nat.add_assoc]
    exact hturned

theorem numberMany_append (f : Fragment) (done styles : List Placeholder.Style) :
    f.numberMany (done ++ styles) =
      f.numberMany done ++ (done.foldl Fragment.next f).numberMany styles := by
  induction done generalizing f with
  | nil => rfl
  | cons style done ih =>
    rw [List.cons_append, numberMany_cons, numberMany_cons, ih]
    rfl

theorem numberMany_of_error {e : ArgumentMismatch} (he : ∀ style, f.number style = .error e)
    (styles : List Placeholder.Style) :
    f.numberMany styles = List.replicate styles.length (.error e) := by
  induction styles with
  | nil => rfl
  | cons style styles ih =>
    rw [numberMany, he style, ih]
    rfl

theorem args_of_mem_numberMany (hg : .ok g ∈ f.numberMany styles) : g.args = f.args := by
  induction styles generalizing f with
  | nil => cases hg
  | cons style styles ih =>
    rw [numberMany_cons] at hg
    rcases List.mem_cons.1 hg with hstep | hg
    · exact args_of_number_eq_ok hstep.symm
    · exact (ih hg).trans args_next

theorem question_not_mem_of_compile {text : String} (hf : compile text fields = .ok f)
    (hg : f.number style = .ok g) : f.args ≠ [] ∧ '?' ∉ g.sql.toList := by
  obtain ⟨t, ht, rfl⟩ := compile_eq_ok_iff.1 hf
  obtain ⟨ts, -, hwhole⟩ := parse_eq_ok_iff.1 ht
  have hfront : ∀ p ∈ t.predicates, Placeholder.FrontOnly p.field :=
    fun p hp => (predicates_legal_of_parse ht p hp).field.frontOnly
  refine ⟨by simpa [Filter.toFragment] using hwhole.full.predicates_ne_nil, ?_⟩
  rw [number, Filter.placeholders_toFragment hfront] at hg
  split at hg
  · rename_i hcount
    have hleads : t.predicates.countP (fun p => Placeholder.leads p.field) = 0 := by
      have hargs : t.toFragment.args.length = t.predicates.length := List.length_map _
      omega
    have hquestion : ∀ p ∈ t.predicates, '?' ∉ p.field.toList := by
      intro p hp
      have hlead := List.countP_eq_zero.1 hleads p hp
      exact Placeholder.not_mem_of_frontOnly (hfront p hp) (by simpa using hlead)
    cases hg
    rw [Filter.number_sql hquestion]
    exact Filter.question_not_mem_numbered hquestion
  · cases hg

/-- Numbering a fragment again and again, where a step that fails leaves it as
it was. After `k` steps that succeed, the placeholders are the runs of question
marks of the first text whose length has the binary digit `k`. Whatever its
style, the next step succeeds if they are as many as the arguments, and
otherwise it fails, as do all after it. The condition of an accepted text has
no placeholders once it is numbered. -/
theorem numberMany_eq_bits (f : Fragment) (done : List Placeholder.Style)
    (style : Placeholder.Style) (later : List Placeholder.Style) :
    let k := (f.numberMany done).countP (·.isOk)
    let placeholders := runsWithBit k f.sql.toList
    let results := f.numberMany (done ++ style :: later)
    (∀ g, .ok g ∈ results → g.args = f.args) ∧
    (placeholders = f.args.length →
      ∃ g, results = f.numberMany done ++ .ok g :: g.numberMany later) ∧
    (placeholders ≠ f.args.length →
      results = f.numberMany done ++
        List.replicate (later.length + 1) (.error { placeholders, args := f.args.length })) ∧
    ∀ text fields g, compile text fields = .ok f → f.number style = .ok g →
      g.numberMany later =
        List.replicate later.length (.error { placeholders := 0, args := f.args.length }) := by
  intro k placeholders results
  have hturned : f.Turned k (done.foldl Fragment.next f) := by
    have hsteps := (Turned.refl f).foldl_next done
    rw [Nat.zero_add] at hsteps
    exact hsteps
  have hresults : results =
      f.numberMany done ++ (done.foldl Fragment.next f).numberMany (style :: later) :=
    f.numberMany_append done (style :: later)
  refine ⟨fun g => args_of_mem_numberMany, fun heq => ?_, fun hne => ?_, ?_⟩
  · rw [hresults, numberMany, hturned.number_eq_ok heq]
    exact ⟨_, rfl⟩
  · rw [hresults]
    exact congrArg _ (numberMany_of_error (fun s => hturned.number_eq_error hne) (style :: later))
  · intro text fields g hf hg
    obtain ⟨hargs, hquestion⟩ := question_not_mem_of_compile hf hg
    have hzero : runsWithBit 0 g.sql.toList = 0 := by
      rw [← List.append_nil g.sql.toList, Placeholder.runsWithBit_stretch hquestion]
      rfl
    have hne : runsWithBit 0 g.sql.toList ≠ g.args.length := by
      rw [hzero, args_of_number_eq_ok hg]
      exact fun h => hargs (List.length_eq_zero_iff.1 h.symm)
    refine numberMany_of_error (fun s => ?_) later
    rw [(Turned.refl g).number_eq_error hne, hzero, args_of_number_eq_ok hg]

/-- Runs of three, two and one question marks: the second numbering takes the
marks that the first has undoubled, and only the third is refused. Of the
condition of an accepted text the second is refused. -/
theorem numberMany_eq_bits_doubled :
    (Fragment.mk "???a??b?" ["x", "y"]).numberMany [.dollar, .colon, .dollar, .colon] =
        [.ok ⟨"?$1a?b$2", ["x", "y"]⟩, .ok ⟨":1$1a:2b$2", ["x", "y"]⟩,
          .error { placeholders := 0, args := 2 }, .error { placeholders := 0, args := 2 }] ∧
      (Fragment.mk "( a = $1 )" ["x"]).numberMany [.colon, .dollar] =
        [.error { placeholders := 0, args := 1 }, .error { placeholders := 0, args := 1 }] := by
  constructor
  · have hdone : (Fragment.mk "???a??b?" ["x", "y"]).numberMany [.dollar, .colon] =
        [.ok ⟨"?$1a?b$2", ["x", "y"]⟩, .ok ⟨":1$1a:2b$2", ["x", "y"]⟩] := rfl
    have hlater := (numberMany_eq_bits (Fragment.mk "???a??b?" ["x", "y"]) [.dollar, .colon] .dollar
      [.colon]).2.2.1 (by decide +kernel)
    rw [hdone] at hlater
    exact hlater
  · have hcompile : compile "a=\"x\"" (.ofList ["a"]) = .ok ⟨"( a = ? )", ["x"]⟩ := by cbv
    have hnumber : (Fragment.mk "( a = ? )" ["x"]).number .dollar = .ok ⟨"( a = $1 )", ["x"]⟩ := rfl
    exact (numberMany_eq_bits _ [] .dollar [.colon, .dollar]).2.2.2 _ _ _ hcompile hnumber

end Fragment

end FilterQuery
