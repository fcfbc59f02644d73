import FilterQuery.Fragment

/-!
# Filters as trees

Induction on a filter by the children of its groups, the depth of a filter,
filters without empty groups, and the shape of a filter, which is the filter
without its values. The words of a condition depend on the shape only
(`words_eq_of_shape_eq`).
-/

namespace FilterQuery

theorem toList_intercalate_space {word : String} (words : List String) :
    ' ' :: (" ".intercalate (word :: words)).toList =
      (word :: words).flatMap fun w => ' ' :: w.toList := by
  induction words generalizing word with
  | nil => simp
  | cons next words ih =>
    rw [String.intercalate_cons_cons, List.flatMap_cons, ← ih]
    simp

namespace Filter

/-- Induction with one hypothesis for each child of a group. -/
@[elab_as_elim, induction_eliminator]
theorem induct {motive : Filter → Prop} (predicate : ∀ p, motive (.predicate p))
    (group : ∀ op children, (∀ c ∈ children, motive c) → motive (.group op children))
    (f : Filter) : motive f :=
  @Filter.rec motive (fun fs => ∀ c ∈ fs, motive c) predicate group (by simp)
    (fun _ _ hf hfs => List.forall_mem_cons.2 ⟨hf, hfs⟩) f

variable {f g : Filter} {fs : List Filter} {op : BoolOp} {n : Nat}

-- ---------------------------------------------------------------------------
-- Words
-- ---------------------------------------------------------------------------

theorem wordsAfter_eq_flatMap (op : BoolOp) (fs : List Filter) :
    wordsAfter op fs = fs.flatMap fun f => op.symbol :: f.words := by
  induction fs with
  | nil => rfl
  | cons f fs ih => simp [wordsAfter, ih]

theorem words_group_cons : (Filter.group op (f :: fs)).words =
    "(" :: f.words ++ (fs.flatMap fun f => op.symbol :: f.words) ++ [")"] := by
  rw [words, wordsAfter_eq_flatMap]

theorem words_ne_nil (f : Filter) : f.words ≠ [] := by
  cases f with
  | predicate p => simp [words]
  | group op fs => cases fs <;> simp [words]

theorem toList_sql (f : Filter) :
    ' ' :: f.toFragment.sql.toList = f.words.flatMap fun w => ' ' :: w.toList := by
  obtain ⟨word, words, hw⟩ := List.exists_cons_of_ne_nil f.words_ne_nil
  rw [toFragment, hw, toList_intercalate_space]

-- ---------------------------------------------------------------------------
-- Depth and empty groups
-- ---------------------------------------------------------------------------

mutual
/-- How many groups stand inside each other, the filter itself counted. -/
def depth : Filter → Nat
  | .predicate _ => 0
  | .group _ children => depthList children + 1
def depthList : List Filter → Nat
  | [] => 0
  | f :: fs => Nat.max f.depth (depthList fs)
end

theorem depthList_le_iff : depthList fs ≤ n ↔ ∀ f ∈ fs, f.depth ≤ n := by
  induction fs with
  | nil => simp [depthList]
  | cons f fs ih =>
    rw [List.forall_mem_cons, ← ih]
    exact Nat.max_le

theorem lt_add_depthList_of_cons {limit : Nat} (h : limit < n + depthList (f :: fs))
    (hf : ¬limit < n + f.depth) : limit < n + depthList fs := by
  have hmax : depthList (f :: fs) = max f.depth (depthList fs) := rfl
  omega

inductive Full : Filter → Prop
  | predicate (p : Predicate) : Full (.predicate p)
  | group {op : BoolOp} {children : List Filter} : children ≠ [] → (∀ c ∈ children, Full c) →
      Full (.group op children)

@[elab_as_elim]
theorem Full.induct {motive : (f : Filter) → f.Full → Prop}
    (predicate : ∀ p, motive (.predicate p) (.predicate p))
    (group : ∀ op c children (hfull : ∀ f ∈ c :: children, f.Full),
      (∀ f hf, motive f (hfull f hf)) →
        motive (.group op (c :: children)) (.group (List.cons_ne_nil c children) hfull))
    (f : Filter) (hf : f.Full) : motive f hf := by
  induction hf with
  | predicate p => exact predicate p
  | @group op children hn hfull ih =>
    cases children with
    | nil => exact absurd rfl hn
    | cons c children => exact group op c children hfull ih

-- ---------------------------------------------------------------------------
-- Shape
-- ---------------------------------------------------------------------------

mutual
def shape : Filter → Filter
  | .predicate p => .predicate { p with value := "" }
  | .group op children => .group op (shapeList children)
def shapeList : List Filter → List Filter
  | [] => []
  | f :: fs => f.shape :: shapeList fs
end

theorem shapeList_eq_map (fs : List Filter) : shapeList fs = fs.map shape := by
  induction fs with
  | nil => rfl
  | cons f fs ih => simp [shapeList, ih]

@[simp] theorem shape_group : (Filter.group op fs).shape = .group op (fs.map shape) := by
  rw [shape, shapeList_eq_map]

theorem words_shape (f : Filter) : f.shape.words = f.words := by
  induction f with
  | predicate p => rfl
  | group op children ih =>
    cases children with
    | nil => rfl
    | cons c children =>
      have hc : c.shape.words = c.words := ih c List.mem_cons_self
      have hcs : (children.map fun f => op.symbol :: f.shape.words) =
          children.map fun f => op.symbol :: f.words :=
        List.map_congr_left fun f hf => by rw [ih f (List.mem_cons_of_mem _ hf)]
      rw [shape_group, List.map_cons, words_group_cons, words_group_cons, hc, List.flatMap_map,
        List.flatMap_def, hcs, ← List.flatMap_def]

theorem words_eq_of_shape_eq (h : f.shape = g.shape) : f.words = g.words := by
  rw [← words_shape f, h, words_shape]

end Filter

end FilterQuery
