import Mathlib
import FilterQuery.Proofs.Filter.Written

/-!
# Which filters can be read

`exists_parse_eq_ok_iff`: a filter can be read from some text exactly when it is
a group, has no empty groups and only names and values a text can hold, and is
not too deep. Its own level need not be written as a group, which leaves room
for one group more, but only beside something else: a single group stands for
the whole text.

Nothing is asked of the operators. The text that shows this has one before
every child, so that groups of one child have theirs too.
-/

namespace FilterQuery

open Grammar (Item Items Whole)

namespace Filter

def children : Filter → List Filter
  | .predicate _ => []
  | .group _ children => children

structure Reachable (fields : AllowList) (f : Filter) : Prop where
  isGroup : ∃ op children, f = .group op children
  full : f.Full
  legal : ∀ p ∈ f.predicates, p.Legal fields
  room : f.depth ≤ 64 ∨ f.depth = 65 ∧ 2 ≤ f.children.length

mutual
def ledTokens : Filter → List Token
  | .predicate p => p.tokens
  | .group op children => ⟨.openGroup, "("⟩ :: ledTokensList op children ++ [⟨.closeGroup, ")"⟩]
def ledTokensList (op : BoolOp) : List Filter → List Token
  | [] => []
  | f :: fs => ⟨.operator, op.symbol⟩ :: f.ledTokens ++ ledTokensList op fs
end

mutual
def conjoined : Filter → Filter
  | .predicate p => .predicate p
  | .group _ children => .group .and (conjoinedList children)
def conjoinedList : List Filter → List Filter
  | [] => []
  | f :: fs => f.conjoined :: conjoinedList fs
end

variable {fields : AllowList} {f g : Filter} {fs : List Filter} {op : BoolOp} {room : Nat}

-- ---------------------------------------------------------------------------
-- Reading the tokens of a filter
-- ---------------------------------------------------------------------------

theorem ledTokensList_eq_flatMap (op : BoolOp) (fs : List Filter) :
    ledTokensList op fs = fs.flatMap fun f => ⟨.operator, op.symbol⟩ :: f.ledTokens := by
  induction fs with
  | nil => rfl
  | cons f fs ih => simp [ledTokensList, ih]

theorem ledTokens_group : (Filter.group op fs).ledTokens =
    ⟨.openGroup, "("⟩ :: (fs.flatMap fun f => ⟨.operator, op.symbol⟩ :: f.ledTokens) ++
      [⟨.closeGroup, ")"⟩] := by
  rw [ledTokens, ledTokensList_eq_flatMap]

theorem items_led (op : BoolOp) (h : ∀ c ∈ fs, Items room c.ledTokens [.child c]) :
    Items room (fs.flatMap fun f => ⟨.operator, op.symbol⟩ :: f.ledTokens)
      (fs.flatMap fun f => [.operator op, .child f]) :=
  .separated rfl (ofString?_symbol op) h

theorem ofItems_led (hne : fs ≠ []) :
    Level.ofItems (fs.flatMap fun f => [.operator op, .child f]) = ⟨op, fs⟩ := by
  simp [Level.ofItems, Item.lastOperator_led hne, Item.children_separated]

theorem items_ledTokens (hf : f.Full) (hd : f.depth ≤ room) :
    Items room f.ledTokens [.child f] := by
  induction f generalizing room with
  | predicate p => exact items_predicate p
  | group op children ih =>
    cases hf with
    | group hn hfull =>
      cases room with
      | zero => simp [Filter.depth] at hd
      | succ room =>
        have hd := depthList_le_iff.1 (Nat.le_of_succ_le_succ hd)
        have hinner := items_led op fun c hc => ih c hc (hfull c hc) (hd c hc)
        have hg := Items.group (o := ⟨.openGroup, "("⟩) (c := ⟨.closeGroup, ")"⟩) rfl rfl hinner
          (by simpa [Item.children_separated] using hn) .nil
        rw [ledTokens_group]
        simpa [Item.children_separated, Item.lastOperator_led hn] using hg

theorem legal_ledTokens (h : ∀ p ∈ f.predicates, p.Legal fields) :
    ∀ t ∈ f.ledTokens, t.Legal fields := by
  induction f with
  | predicate p =>
    obtain ⟨hfield, hvalue⟩ := h p (by simp [predicates])
    intro t ht
    simp only [ledTokens, Predicate.tokens, List.mem_cons, List.not_mem_nil, or_false] at ht
    rcases ht with rfl | rfl | rfl
    · exact .field hfield
    · exact p.comparator.legal_symbol
    · exact .literal hvalue
  | group op children ih =>
    intro t ht
    rw [ledTokens_group] at ht
    simp only [List.cons_append, List.mem_cons, List.mem_append, List.mem_flatMap,
      List.not_mem_nil, or_false] at ht
    rcases ht with rfl | ⟨c, hc, rfl | ht⟩ | rfl
    · exact .openGroup
    · exact op.legal_symbol
    · refine ih c hc (fun p hp => h p ?_) t ht
      rw [predicates_group]
      exact List.mem_flatMap.2 ⟨c, hc, hp⟩
    · exact .closeGroup

-- ---------------------------------------------------------------------------
-- Operators do not matter
-- ---------------------------------------------------------------------------

theorem conjoinedList_eq_map (fs : List Filter) : conjoinedList fs = fs.map conjoined := by
  induction fs with
  | nil => rfl
  | cons f fs ih => simp [conjoinedList, ih]

@[simp] theorem conjoined_group :
    (Filter.group op fs).conjoined = .group .and (fs.map conjoined) := by
  rw [conjoined, conjoinedList_eq_map]

theorem predicates_conjoined (f : Filter) : f.conjoined.predicates = f.predicates := by
  induction f with
  | predicate p => rfl
  | group op children ih =>
    rw [conjoined_group, predicates_group, predicates_group, List.flatMap_map, List.flatMap_def,
      List.flatMap_def, List.map_congr_left ih]

theorem depthList_map {h : Filter → Filter} (hd : ∀ f ∈ fs, (h f).depth = f.depth) :
    depthList (fs.map h) = depthList fs := by
  induction fs with
  | nil => rfl
  | cons f fs ih =>
    obtain ⟨hf, hfs⟩ := List.forall_mem_cons.1 hd
    rw [List.map_cons, depthList, depthList, hf, ih hfs]

theorem depth_conjoined (f : Filter) : f.conjoined.depth = f.depth := by
  induction f with
  | predicate p => rfl
  | group op children ih => rw [conjoined_group, depth, depth, depthList_map ih]

theorem full_conjoined_iff : f.conjoined.Full ↔ f.Full := by
  induction f with
  | predicate p => exact ⟨fun _ => .predicate p, fun _ => .predicate p⟩
  | group op children ih =>
    rw [conjoined_group]
    constructor
    · intro h
      cases h with
      | group hn hc =>
        refine .group (by simpa using hn) fun c hm => (ih c hm).1 ?_
        exact hc _ (List.mem_map_of_mem hm)
    · intro h
      cases h with
      | group hn hc =>
        refine .group (by simpa using hn) ?_
        exact List.forall_mem_map.2 fun c hm => (ih c hm).2 (hc c hm)

theorem reachable_conjoined_iff : f.conjoined.Reachable fields ↔ f.Reachable fields := by
  have hgroup : (∃ op children, f.conjoined = .group op children) ↔
      ∃ op children, f = .group op children := by
    cases f with
    | predicate p => simp [conjoined]
    | group op children => simp
  have hlength : f.conjoined.children.length = f.children.length := by
    cases f with
    | predicate p => rfl
    | group op members => simp [children]
  constructor
  · rintro ⟨hg, hf, hl, hr⟩
    rw [predicates_conjoined] at hl
    rw [depth_conjoined, hlength] at hr
    exact ⟨hgroup.1 hg, full_conjoined_iff.1 hf, hl, hr⟩
  · rintro ⟨hg, hf, hl, hr⟩
    refine ⟨hgroup.2 hg, full_conjoined_iff.2 hf, ?_, ?_⟩
    · rw [predicates_conjoined]
      exact hl
    · rw [depth_conjoined, hlength]
      exact hr

end Filter

-- ---------------------------------------------------------------------------
-- The image of reading
-- ---------------------------------------------------------------------------

variable {fields : AllowList} {text : String} {f : Filter} {ts : List Token} {depth : Nat}

/-- A level with a single child is a group for the whole text or just one
predicate, so the deepest filters have two children. -/
theorem Grammar.Whole.room (h : Whole depth ts f) (hpos : 0 < depth) :
    f.depth ≤ depth ∨ f.depth = depth + 1 ∧ 2 ≤ f.children.length := by
  cases h with
  | group hi hc => exact .inl (hi.depth_le _ (by simp [hc]))
  | @level items hi hn hc =>
    have hle := Filter.depthList_le_iff.2 hi.depth_le
    by_cases hd : Filter.depthList (Item.children items) = depth
    · refine .inr ⟨by rw [Filter.depth, hd], ?_⟩
      generalize Item.children items = children at hn hc hd
      rcases children with _ | ⟨c, _ | ⟨d, children⟩⟩
      · exact absurd rfl hn
      · cases c with
        | predicate p =>
          have hzero : Filter.depthList [.predicate p] = 0 := rfl
          rw [hzero] at hd
          exact absurd hd (Nat.ne_of_lt hpos)
        | group op members => exact absurd rfl (hc op members)
      · simp [Filter.children]
    · refine .inl ?_
      rw [Filter.depth]
      omega

theorem reachable_of_parse (h : parse text fields = .ok f) : f.Reachable fields := by
  obtain ⟨ts, -, hw⟩ := parse_eq_ok_iff.1 h
  exact ⟨hw.exists_group, hw.full, predicates_legal_of_parse h, hw.room (by decide)⟩

theorem exists_parse_of_whole (hl : ∀ t ∈ ts, t.Legal fields) (hw : Whole maxDepth ts f) :
    ∃ text, parse text fields = .ok f := by
  refine ⟨String.ofList (ts.flatMap fun t => ' ' :: t.spelling), parse_eq_ok_iff.2 ⟨ts, ?_, hw⟩⟩
  rw [String.toList_ofList]
  exact spelled_spaced hl

theorem Level.root_of_two_le {l : Level} (h : 2 ≤ l.children.length) : l.root = l.toFilter := by
  unfold root
  split
  · rename_i hc
    simp [hc] at h
  · rfl

theorem Filter.Reachable.exists_whole (h : f.Reachable fields) :
    ∃ ts, (∀ t ∈ ts, t.Legal fields) ∧ Whole maxDepth ts f := by
  obtain ⟨⟨op, children, rfl⟩, hfull, hlegal, hroom⟩ := h
  have htokens := legal_ledTokens hlegal
  rcases hroom with hd | ⟨hd, htwo⟩
  · exact ⟨_, htokens, .group (items_ledTokens hfull hd) rfl⟩
  · -- The level of the whole text is left without parentheses.
    rw [ledTokens_group] at htokens
    simp only [List.cons_append, List.forall_mem_cons, List.forall_mem_append] at htokens
    cases hfull with
    | group hn hfull =>
      have hdepth : depthList children = maxDepth := Nat.succ.inj hd
      have hitems := items_led op fun c hc =>
        items_ledTokens (hfull c hc) (depthList_le_iff.1 (Nat.le_of_eq hdepth) c hc)
      have hlevel := Level.root_ofItems hitems (by simpa [Item.children_separated] using hn)
      rw [ofItems_led hn, Level.root_of_two_le htwo] at hlevel
      exact ⟨_, htokens.2.1, hlevel⟩

/-- The filters that can be read from some text are those that are
`Filter.Reachable`, and their operators can be chosen freely. -/
theorem exists_parse_eq_ok_iff (fields : AllowList) :
    (∀ f : Filter, (∃ text, parse text fields = .ok f) ↔ f.Reachable fields) ∧
      ∀ f g : Filter, f.conjoined = g.conjoined → (∃ text, parse text fields = .ok f) →
        ∃ text, parse text fields = .ok g := by
  have himage (f : Filter) : (∃ text, parse text fields = .ok f) ↔ f.Reachable fields := by
    constructor
    · rintro ⟨text, h⟩
      exact reachable_of_parse h
    · intro h
      obtain ⟨ts, hl, hw⟩ := h.exists_whole
      exact exists_parse_of_whole hl hw
  refine ⟨himage, fun f g hfg hf => ?_⟩
  rw [himage, ← Filter.reachable_conjoined_iff, hfg, Filter.reachable_conjoined_iff, ← himage] at hf
  exact hf

/-- OR can be read in a group of one child. Of 65 groups inside each other, the
outermost can be read only if it has another child. -/
theorem exists_parse_eq_ok_iff_edges :
    let fields := AllowList.ofList ["a"]
    let p : Filter := .predicate ⟨"a", .eq, "1"⟩
    let nested (n : Nat) : Filter := Nat.repeat (fun g => .group .or [g]) n p
    ((Filter.group .and [p]).conjoined = (Filter.group .or [p]).conjoined ∧
      ∃ text, parse text fields = .ok (.group .or [p])) ∧
    (∃ text, parse text fields = .ok (.group .or [nested 64, p])) ∧
    ¬∃ text, parse text fields = .ok (nested 65) := by
  intro fields p nested
  obtain ⟨himage, hoperators⟩ := exists_parse_eq_ok_iff fields
  have hfull (n : Nat) : (nested n).Full := by
    induction n with
    | zero => exact .predicate _
    | succ n ih => exact .group (by simp) (by simpa using ih)
  refine ⟨⟨rfl, hoperators (.group .and [p]) _ rfl ⟨"a=\"1\"", by cbv⟩⟩, ?_, ?_⟩
  · refine (himage _).2 ⟨⟨_, _, rfl⟩, ?_, ?_, .inr ⟨by cbv, by decide⟩⟩
    · refine .group (by simp) (List.forall_mem_cons.2 ⟨hfull 64, ?_⟩)
      simpa using .predicate _
    · have hpredicates : (Filter.group .or [nested 64, p]).predicates =
          [⟨"a", .eq, "1"⟩, ⟨"a", .eq, "1"⟩] := by cbv
      have hname : Token.IsField fields "a" := ⟨by cbv, by cbv, by cbv⟩
      rw [hpredicates]
      simpa using ⟨hname, by decide⟩
  · intro h
    have hdepth : (nested 65).depth = 65 := by cbv
    have hlength : (nested 65).children.length = 1 := rfl
    have hroom := ((himage _).1 h).room
    rw [hdepth, hlength] at hroom
    omega

end FilterQuery
