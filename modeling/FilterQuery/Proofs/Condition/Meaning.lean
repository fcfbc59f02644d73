import FilterQuery.Proofs.Condition.Reading
import FilterQuery.Proofs.Select.Clause
import FilterQuery.Record

/-!
# What a filter means

The truth value of a filter when each of its predicates is given one, by its
place and not by what it says (`Filter.truth`). Matching a record is the case
where the values come from the record (`Filter.truth_eq_eval`). The clause of a
filter has the same value (`Filter.truth_clause`).

The signs of a filter are those of its condition, with parentheses around every
group; the signs of a clause are those of a statement, where most are dropped.
Both are conditions with the value of the filter (`Filter.derives_signs`,
`Clause.derives_signs`).
-/

namespace FilterQuery

open Condition (Sign Rank Derives)

def BoolOp.neutral : BoolOp → Bool
  | .and => true
  | .or => false

theorem BoolOp.combine_neutral (op : BoolOp) (v : Bool) : op.combine v op.neutral = v := by
  cases op <;> simp [combine, neutral]

theorem BoolOp.combine_assoc (op : BoolOp) (u v w : Bool) :
    op.combine (op.combine u v) w = op.combine u (op.combine v w) := by
  cases op with
  | and => exact Bool.and_assoc u v w
  | or => exact Bool.or_assoc u v w

/-- Something holds of every predicate and its place, places being counted from
`k` on. -/
def Placed (P : Nat → Predicate → Prop) (k : Nat) (ps : List Predicate) : Prop :=
  ∀ i p, ps[i]? = some p → P (k + i) p

theorem Placed.of_append {P : Nat → Predicate → Prop} {k : Nat} {ps qs : List Predicate}
    (h : Placed P k (ps ++ qs)) : Placed P k ps ∧ Placed P (k + ps.length) qs := by
  constructor
  · intro i p hp
    have hi : i < ps.length := (List.getElem?_eq_some_iff.1 hp).1
    exact h i p ((List.getElem?_append_left hi).trans hp)
  · intro i p hp
    rw [Nat.add_assoc]
    refine h (ps.length + i) p ?_
    rw [List.getElem?_append_right (Nat.le_add_right _ _), Nat.add_sub_cancel_left]
    exact hp

variable {f : Filter} {fs : List Filter} {op : BoolOp} {values : Nat → Bool} {k : Nat}
  {holds : Predicate → Bool} {ss : List Sign} {v : Bool} {c left : Clause}

namespace Filter

mutual
/-- The truth value of a filter with `k` predicates before it, each predicate
having the value of its place. -/
def truth (values : Nat → Bool) (k : Nat) : Filter → Bool
  | .predicate _ => values k
  | .group op children => truthList values op k children
def truthList (values : Nat → Bool) (op : BoolOp) (k : Nat) : List Filter → Bool
  | [] => op.neutral
  | f :: fs => op.combine (f.truth values k) (truthList values op (k + f.predicates.length) fs)
end

-- ---------------------------------------------------------------------------
-- Matching
-- ---------------------------------------------------------------------------

theorem eval_group_nil : (Filter.group op []).eval holds = op.neutral := by
  cases op <;> simp [eval, evalAll, evalAny, BoolOp.neutral]

theorem eval_group_cons : (Filter.group op (f :: fs)).eval holds =
    op.combine (f.eval holds) ((Filter.group op fs).eval holds) := by
  cases op <;> simp [eval, evalAll, evalAny, BoolOp.combine]

theorem truthList_eq_eval
    (hfs : ∀ f ∈ fs, ∀ k, Placed (fun i p => values i = holds p) k f.predicates →
      f.truth values k = f.eval holds)
    (h : Placed (fun i p => values i = holds p) k (fs.flatMap predicates)) :
    truthList values op k fs = (Filter.group op fs).eval holds := by
  induction fs generalizing k with
  | nil => rw [truthList, eval_group_nil]
  | cons f fs ih =>
    obtain ⟨hf, hfs⟩ := List.forall_mem_cons.1 hfs
    obtain ⟨hplace, hplaces⟩ := Placed.of_append h
    rw [truthList, eval_group_cons, hf k hplace, ih hfs hplaces]

theorem truth_eq_eval (h : Placed (fun i p => values i = holds p) k f.predicates) :
    f.truth values k = f.eval holds := by
  induction f generalizing k with
  | predicate p =>
    rw [truth, eval]
    exact h 0 p rfl
  | group op children ih =>
    rw [predicates_group] at h
    rw [truth]
    exact truthList_eq_eval (fun f hf k => ih f hf) h

theorem length_predicates_shape (f : Filter) : f.shape.predicates.length = f.predicates.length := by
  induction f with
  | predicate p => rfl
  | group op children ih =>
    rw [shape_group, predicates_group, predicates_group, List.flatMap_map, List.length_flatMap,
      List.length_flatMap, List.map_congr_left ih]

theorem truthList_shape (h : ∀ f ∈ fs, ∀ k, f.shape.truth values k = f.truth values k) :
    truthList values op k (fs.map shape) = truthList values op k fs := by
  induction fs generalizing k with
  | nil => rfl
  | cons f fs ih =>
    obtain ⟨hf, hfs⟩ := List.forall_mem_cons.1 h
    rw [List.map_cons, truthList, truthList, hf, length_predicates_shape, ih hfs]

theorem truth_shape (f : Filter) (values : Nat → Bool) (k : Nat) :
    f.shape.truth values k = f.truth values k := by
  induction f generalizing k with
  | predicate p => rfl
  | group op children ih =>
    rw [shape_group, truth, truth]
    exact truthList_shape ih

/-- The fold over the groups of a filter is the truth value of every filter of
the same shape. The fold cannot tell equal predicates apart, but for some filter
of that shape there are none. -/
theorem eval_eq_truth_of_shape {g : Filter} (h : g.shape = f.shape)
    (hv : Placed (fun i p => values i = holds p) 0 g.predicates) :
    g.eval holds = f.truth values 0 := by
  rw [← truth_shape f, ← h, truth_shape g, truth_eq_eval hv]

-- ---------------------------------------------------------------------------
-- Clauses
-- ---------------------------------------------------------------------------

end Filter

def Clause.truth (values : Nat → Bool) (k : Nat) : Clause → Bool
  | .constant value => value
  | .comparison _ => values k
  | .join op left right =>
    op.combine (left.truth values k) (right.truth values (k + left.predicates.length))

namespace Filter

theorem truth_joinOnto (h : ∀ f ∈ fs, ∀ k, f.clause.truth values k = f.truth values k) :
    (joinOnto op left fs).truth values k =
      op.combine (left.truth values k) (truthList values op (k + left.predicates.length) fs) := by
  induction fs generalizing left with
  | nil => rw [joinOnto, truthList, op.combine_neutral]
  | cons f fs ih =>
    obtain ⟨hf, hfs⟩ := List.forall_mem_cons.1 h
    rw [joinOnto, ih hfs, truthList, Clause.truth, op.combine_assoc, hf, Clause.predicates,
      List.length_append, predicates_clause, Nat.add_assoc]

theorem truth_clause (f : Filter) (values : Nat → Bool) (k : Nat) :
    f.clause.truth values k = f.truth values k := by
  induction f generalizing k with
  | predicate p => rw [clause, Clause.truth, truth]
  | group op children ih =>
    rw [truth]
    cases children with
    | nil =>
      rw [clause, Clause.truth, truthList]
      cases op <;> rfl
    | cons c children =>
      obtain ⟨hc, hcs⟩ := List.forall_mem_cons.1 ih
      rw [clause_group_cons, truth_joinOnto hcs, hc, predicates_clause, truthList]

end Filter

-- ---------------------------------------------------------------------------
-- Signs
-- ---------------------------------------------------------------------------

namespace Filter

mutual
/-- The signs of a condition: those of every group between parentheses. -/
def signs (values : Nat → Bool) (k : Nat) : Filter → List Sign
  | .predicate _ => [.truth (values k)]
  | .group _ [] => [.opening, .closing]
  | .group op (f :: fs) =>
    .opening :: (f.signs values k ++ signsAfter values op (k + f.predicates.length) fs) ++
      [.closing]
def signsAfter (values : Nat → Bool) (op : BoolOp) (k : Nat) : List Filter → List Sign
  | [] => []
  | f :: fs =>
    .operator op :: (f.signs values k ++ signsAfter values op (k + f.predicates.length) fs)
end

theorem derives_signsAfter
    (hfs : ∀ f ∈ fs, ∀ k, Derives .operand (f.signs values k) (f.truth values k))
    (h : Derives (.ofOp op) ss v) :
    Derives (.ofOp op) (ss ++ signsAfter values op k fs)
      (op.combine v (truthList values op k fs)) := by
  induction fs generalizing ss v k with
  | nil =>
    rw [signsAfter, truthList, List.append_nil, op.combine_neutral]
    exact h
  | cons f fs ih =>
    obtain ⟨hf, hfs⟩ := List.forall_mem_cons.1 hfs
    have hjoin := ih (k := k + f.predicates.length) hfs (h.join (hf k))
    rw [op.combine_assoc] at hjoin
    simpa [signsAfter, truthList] using hjoin

/-- Between its parentheses, a group is read with its own operator only. -/
theorem derives_signs (hf : f.Full) (values : Nat → Bool) (k : Nat) :
    Derives .operand (f.signs values k) (f.truth values k) := by
  induction f, hf using Full.induct generalizing k with
  | predicate p =>
    rw [signs, truth]
    exact .truth
  | group op c children hfull ih =>
    obtain ⟨hc, hcs⟩ := List.forall_mem_cons.1 ih
    rw [signs, truth, truthList]
    exact .group (derives_signsAfter hcs ((hc k).lift op)).disjunction

end Filter

namespace Clause

def rank (c : Clause) : Rank :=
  match c.op? with
  | none => .operand
  | some op => .ofOp op

def encloseSigns (bare : Bool) (ss : List Sign) : List Sign :=
  if bare then ss else .opening :: ss ++ [.closing]

def signs (values : Nat → Bool) (k : Nat) : Clause → List Sign
  | .constant value => [.truth value]
  | .comparison _ => [.truth (values k)]
  | .join op left right =>
    encloseSigns (left.bareLeft op) (left.signs values k) ++ .operator op ::
      encloseSigns right.bareRight (right.signs values (k + left.predicates.length))

theorem derives_bareRight (h : Derives c.rank ss v) :
    Derives .operand (encloseSigns c.bareRight ss) v := by
  unfold encloseSigns bareRight
  split
  · rename_i hop
    rwa [rank, of_decide_eq_true hop] at h
  · exact .group h.disjunction

theorem derives_bareLeft (h : Derives c.rank ss v) :
    Derives (.ofOp op) (encloseSigns (c.bareLeft op) ss) v := by
  unfold encloseSigns bareLeft
  split
  · rename_i hop
    rcases Bool.or_eq_true_iff.1 hop with hop | hop
    · rw [rank, of_decide_eq_true hop] at h
      exact h.lift op
    · rwa [rank, of_decide_eq_true hop] at h
  · exact .lift (.group h.disjunction) op

/-- No parentheses are dropped that were needed. -/
theorem derives_signs (c : Clause) (values : Nat → Bool) (k : Nat) :
    Derives c.rank (c.signs values k) (c.truth values k) := by
  induction c generalizing k with
  | constant value => exact .truth
  | comparison p => exact .truth
  | join op left right ihl ihr => exact (derives_bareLeft (ihl k)).join (derives_bareRight (ihr _))

end Clause

end FilterQuery
