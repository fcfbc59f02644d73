import FilterQuery.Filter.Basic

/-!
# Allow-lists

The set of field names a filter may use. The names are kept in increasing
order without repetition, so an allow-list is determined by its members
(`AllowList.ext_contains`) and what is reported about it comes sorted by code
point.
-/

namespace FilterQuery

structure AllowList where
  names : List String
  increasing : names.Pairwise (· < ·) := by simp
  deriving DecidableEq, Repr

namespace AllowList

def place (name : String) : List String → List String
  | [] => [name]
  | n :: ns =>
    if name < n then name :: n :: ns
    else if name = n then n :: ns
    else n :: place name ns

theorem mem_place {x name : String} {ns : List String} :
    x ∈ place name ns ↔ x = name ∨ x ∈ ns := by
  induction ns with
  | nil => simp [place]
  | cons n ns ih => grind [place]

theorem pairwise_place {name : String} {ns : List String} (h : ns.Pairwise (· < ·)) :
    (place name ns).Pairwise (· < ·) := by
  induction ns with
  | nil => simp [place]
  | cons n ns ih =>
    rw [List.pairwise_cons] at h
    simp only [place]
    split
    · rename_i hlt
      refine List.pairwise_cons.2 ⟨fun y hy => ?_, List.pairwise_cons.2 h⟩
      rcases List.mem_cons.1 hy with rfl | hy
      · exact hlt
      · exact String.lt_trans hlt (h.1 y hy)
    · split
      · exact List.pairwise_cons.2 h
      · rename_i hnlt hne
        refine List.pairwise_cons.2 ⟨fun y hy => ?_, ih h.2⟩
        rcases mem_place.1 hy with rfl | hy
        · exact Std.lt_of_le_of_ne (String.not_lt.1 hnlt) (Ne.symm hne)
        · exact h.1 y hy

def empty : AllowList := { names := [] }

def insert (fields : AllowList) (name : String) : AllowList :=
  ⟨place name fields.names, pairwise_place fields.increasing⟩

def ofList (names : List String) : AllowList :=
  names.foldl insert empty

def contains (fields : AllowList) (name : String) : Bool :=
  fields.names.contains name

def size (fields : AllowList) : Nat :=
  fields.names.length

def isEmpty (fields : AllowList) : Bool :=
  fields.names.isEmpty

/-- The members that no filter can name, because they read as operators. -/
def reserved (fields : AllowList) : List String :=
  fields.names.filter isReserved

@[simp] theorem contains_empty (x : String) : empty.contains x = false := rfl

theorem contains_insert (fields : AllowList) (name x : String) :
    (fields.insert name).contains x = (x == name || fields.contains x) := by
  rw [Bool.eq_iff_iff]
  simp [contains, insert, mem_place]

theorem contains_ofList (names : List String) (x : String) :
    (ofList names).contains x = names.contains x := by
  suffices h : ∀ fields : AllowList,
      (names.foldl insert fields).contains x = (fields.contains x || names.contains x) by
    simp [ofList, h]
  induction names with
  | nil => simp
  | cons n ns ih => intro fields; grind [contains_insert]

theorem eq_of_mem_iff {l m : List String} (hl : l.Pairwise (· < ·)) (hm : m.Pairwise (· < ·))
    (h : ∀ x, x ∈ l ↔ x ∈ m) : l = m := by
  induction l generalizing m with
  | nil =>
    cases m with
    | nil => rfl
    | cons y ys => exact absurd ((h y).2 List.mem_cons_self) (by simp)
  | cons x xs ih =>
    cases m with
    | nil => exact absurd ((h x).1 List.mem_cons_self) (by simp)
    | cons y ys =>
      rw [List.pairwise_cons] at hl hm
      have hxy : x = y := by
        rcases List.mem_cons.1 ((h x).1 List.mem_cons_self) with hx | hx
        · exact hx
        rcases List.mem_cons.1 ((h y).2 List.mem_cons_self) with hy | hy
        · exact hy.symm
        exact absurd (hl.1 y hy) (String.lt_asymm (hm.1 x hx))
      subst hxy
      congr 1
      refine ih hl.2 hm.2 fun z => ⟨fun hz => ?_, fun hz => ?_⟩
      · rcases List.mem_cons.1 ((h z).1 (List.mem_cons_of_mem _ hz)) with rfl | h'
        · exact absurd (hl.1 z hz) (String.lt_irrefl z)
        · exact h'
      · rcases List.mem_cons.1 ((h z).2 (List.mem_cons_of_mem _ hz)) with rfl | h'
        · exact absurd (hm.1 z hz) (String.lt_irrefl z)
        · exact h'

theorem ext_contains {a b : AllowList} (h : ∀ x, a.contains x = b.contains x) : a = b := by
  have hn : a.names = b.names := by
    refine eq_of_mem_iff a.increasing b.increasing fun x => ?_
    have := h x
    rw [contains, contains, Bool.eq_iff_iff] at this
    simpa using this
  cases a
  cases b
  cases hn
  rfl

end AllowList

end FilterQuery
