import FilterQuery.Proofs.Filter.Feed

/-!
# The grammar of filters

`Grammar.Items` derives the items of one level from its tokens, and
`Grammar.Whole` the filter of a whole list of tokens. `ofTokens_eq_ok_iff_whole`:
the lists of tokens that can be read are exactly those with a derivation, and
the filter read is the one derived.

Operators may stand anywhere in a level, also first, last or one after the
other. Nothing is said about the error where there is no derivation.
-/

namespace FilterQuery

namespace Grammar

inductive Item where
  | operator (op : BoolOp)
  | child (f : Filter)
  deriving Repr

def Item.operator? : Item → Option BoolOp
  | .operator op => some op
  | .child _ => none

def Item.child? : Item → Option Filter
  | .operator _ => none
  | .child f => some f

def Item.children (items : List Item) : List Filter :=
  items.filterMap Item.child?

/-- The operator of a level: its last one, and AND if there is none. -/
def Item.lastOperator (items : List Item) : BoolOp :=
  (items.filterMap Item.operator?).getLast?.getD .and

/-- `Items depth tokens items`: the tokens are the items of one level, in which
groups nest at most `depth` deep. -/
inductive Items : Nat → List Token → List Item → Prop
  | nil {depth : Nat} : Items depth [] []
  | operator {depth : Nat} {t : Token} {op : BoolOp} {ts : List Token} {items : List Item} :
      t.kind = .operator → BoolOp.ofString? t.text = some op → Items depth ts items →
      Items depth (t :: ts) (.operator op :: items)
  | fieldFirst {depth : Nat} {f c v : Token} {comparator : Comparator} {ts : List Token}
      {items : List Item} : f.kind = .field → c.kind = .comparator → v.kind = .literal →
      Comparator.ofString? c.text = some comparator → Items depth ts items →
      Items depth (f :: c :: v :: ts) (.child (.predicate ⟨f.text, comparator, v.text⟩) :: items)
  | literalFirst {depth : Nat} {f c v : Token} {comparator : Comparator} {ts : List Token}
      {items : List Item} : v.kind = .literal → c.kind = .comparator → f.kind = .field →
      Comparator.ofString? c.text = some comparator → Items depth ts items →
      Items depth (v :: c :: f :: ts) (.child (.predicate ⟨f.text, comparator, v.text⟩) :: items)
  | group {depth : Nat} {o c : Token} {inner ts : List Token} {members items : List Item} :
      o.kind = .openGroup → c.kind = .closeGroup → Items depth inner members →
      Item.children members ≠ [] → Items (depth + 1) ts items →
      Items (depth + 1) (o :: inner ++ c :: ts)
        (.child (.group (Item.lastOperator members) (Item.children members)) :: items)

/-- `Whole depth tokens f`: the tokens stand for the filter `f`. A level whose
only child is a group stands for that group. -/
inductive Whole (depth : Nat) : List Token → Filter → Prop
  | level {ts : List Token} {items : List Item} : Items depth ts items → Item.children items ≠ [] →
      (∀ op members, Item.children items ≠ [.group op members]) →
      Whole depth ts (.group (Item.lastOperator items) (Item.children items))
  | group {ts : List Token} {items : List Item} {op : BoolOp} {members : List Filter} :
      Items depth ts items → Item.children items = [.group op members] →
      Whole depth ts (.group op members)

-- ---------------------------------------------------------------------------
-- Levels and their items
-- ---------------------------------------------------------------------------

@[simp] theorem Item.children_nil : Item.children [] = [] := rfl

@[simp] theorem Item.children_operator {op : BoolOp} {items : List Item} :
    Item.children (.operator op :: items) = Item.children items := rfl

@[simp] theorem Item.children_child {f : Filter} {items : List Item} :
    Item.children (.child f :: items) = f :: Item.children items := rfl

theorem Items.append {depth : Nat} {ts us : List Token} {items more : List Item}
    (h : Items depth ts items) (hm : Items depth us more) :
    Items depth (ts ++ us) (items ++ more) := by
  induction h with
  | nil => exact hm
  | operator hk hop _ ih => exact .operator hk hop (ih hm)
  | fieldFirst hf hc hv hcmp _ ih => exact .fieldFirst hf hc hv hcmp (ih hm)
  | literalFirst hv hc hf hcmp _ ih => exact .literalFirst hv hc hf hcmp (ih hm)
  | group ho hc hi hn _ _ ih =>
    have h := Items.group ho hc hi hn (ih hm)
    simpa using h

section
variable {α : Type} {depth : Nat} {xs : List α} {op : BoolOp} {child : α → Filter}

theorem Items.separated {o : Token} {tokens : α → List Token} (ho : o.kind = .operator)
    (hop : BoolOp.ofString? o.text = some op)
    (h : ∀ x ∈ xs, Items depth (tokens x) [.child (child x)]) :
    Items depth (xs.flatMap fun x => o :: tokens x)
      (xs.flatMap fun x => [.operator op, .child (child x)]) := by
  induction xs with
  | nil => exact .nil
  | cons x xs ih =>
    obtain ⟨hx, hxs⟩ := List.forall_mem_cons.1 h
    exact .operator ho hop (hx.append (ih hxs))

theorem Item.children_separated (xs : List α) :
    Item.children (xs.flatMap fun x => [.operator op, .child (child x)]) = xs.map child := by
  induction xs with
  | nil => rfl
  | cons x xs ih => simp [ih]

theorem Item.operators_separated (xs : List α) :
    (xs.flatMap fun x => [Item.operator op, .child (child x)]).filterMap Item.operator? =
      xs.map fun _ => op := by
  induction xs with
  | nil => rfl
  | cons x xs ih => simp [List.filterMap_cons, Item.operator?, ih]

theorem Item.lastOperator_separated (c : Filter) (xs : List α) :
    Item.lastOperator (.child c :: xs.flatMap fun x => [.operator op, .child (child x)]) =
      if xs.isEmpty then .and else op := by
  cases xs with
  | nil => rfl
  | cons x xs =>
    simp only [Item.lastOperator, List.filterMap_cons, Item.operator?, Item.operators_separated,
      List.getLast?_map]
    simp [List.getLast?_cons]

theorem Item.lastOperator_led (hne : xs ≠ []) :
    Item.lastOperator (xs.flatMap fun x => [.operator op, .child (child x)]) = op := by
  obtain ⟨x, xs, rfl⟩ := List.exists_cons_of_ne_nil hne
  rw [Item.lastOperator, Item.operators_separated, List.getLast?_map]
  simp [List.getLast?_cons]

end

end Grammar

open Grammar (Item Items Whole)

variable {limit depth : Nat} {ts us : List Token} {items : List Item} {b b' : Builder} {t : Token}
  {level : Level} {outer : List Level} {f : Filter}

def Level.ofItems (items : List Item) : Level where
  op := Item.lastOperator items
  children := Item.children items

def Level.add (l : Level) : Item → Level
  | .operator op => { l with op }
  | .child f => l.push f

theorem Level.foldl_add (items : List Item) (l : Level) :
    items.foldl Level.add l =
      ⟨(items.filterMap Item.operator?).getLast?.getD l.op, l.children ++ Item.children items⟩ := by
  induction items generalizing l with
  | nil => simp
  | cons item items ih =>
    rw [List.foldl_cons, ih]
    cases item with
    | operator op => simp [Level.add, Item.operator?, List.getLast?_cons]
    | child f => simp [Level.add, Level.push, Item.operator?]

theorem Level.ofItems_eq_foldl (items : List Item) : Level.ofItems items = items.foldl Level.add {} := by
  rw [Level.foldl_add]
  rfl

theorem Level.ofItems_append (items : List Item) (item : Item) :
    Level.ofItems (items ++ [item]) = (Level.ofItems items).add item := by
  simp only [Level.ofItems_eq_foldl, List.foldl_append, List.foldl_cons, List.foldl_nil]

theorem Level.root_ofItems (h : Items depth ts items) (hn : Item.children items ≠ []) :
    Whole depth ts (Level.ofItems items).root := by
  unfold Level.root
  split
  · rename_i op members hc
    exact .group h hc
  · rename_i hc
    exact .level h hn hc

theorem Grammar.Whole.exists_items (h : Whole depth ts f) :
    ∃ items, Items depth ts items ∧ Item.children items ≠ [] ∧ (Level.ofItems items).root = f := by
  cases h with
  | @level items hi hn hc =>
    refine ⟨items, hi, hn, ?_⟩
    unfold Level.root
    split
    · rename_i op members he
      exact absurd he (hc op members)
    · rfl
  | @group items op members hi hc =>
    refine ⟨items, hi, by simp [hc], ?_⟩
    simp [Level.root, Level.ofItems, hc]

-- ---------------------------------------------------------------------------
-- Every derivation is read
-- ---------------------------------------------------------------------------

theorem Predicate.ofTokens_fieldFirst {f c v : Token} {comparator : Comparator}
    (hf : f.kind = .field) (hc : c.kind = .comparator) (hv : v.kind = .literal)
    (hcmp : Comparator.ofString? c.text = some comparator) :
    Predicate.ofTokens f c v = .ok ⟨f.text, comparator, v.text⟩ := by
  simp [Predicate.ofTokens, Predicate.ofTokens.compare, hf, hc, hv, hcmp]

theorem Predicate.ofTokens_literalFirst {f c v : Token} {comparator : Comparator}
    (hv : v.kind = .literal) (hc : c.kind = .comparator) (hf : f.kind = .field)
    (hcmp : Comparator.ofString? c.text = some comparator) :
    Predicate.ofTokens v c f = .ok ⟨f.text, comparator, v.text⟩ := by
  simp [Predicate.ofTokens, Predicate.ofTokens.compare, hf, hc, hv, hcmp]

theorem Builder.feed_predicate {a c d : Token} {p : Predicate}
    (ha : a.kind = .field ∨ a.kind = .literal) (hc : c.kind = .comparator)
    (hp : Predicate.ofTokens a c d = .ok p) :
    Builder.feed limit ⟨level, outer, .idle, depth⟩ (a :: c :: d :: ts) =
      Builder.feed limit ⟨level.push (.predicate p), outer, .idle, depth⟩ ts := by
  rw [feed_cons_of_step (Step.operand ha).step_eq,
    feed_cons_of_step (Step.comparison (by simp [hc])).step_eq,
    feed_cons_of_step (Step.predicate hp).step_eq]

/-- The items of a level are added to the level they stand in, whatever is
around it. -/
theorem Builder.feed_items {room : Nat} (h : Items room ts items) (hd : depth + room ≤ limit) :
    Builder.feed limit ⟨level, outer, .idle, depth⟩ ts =
      .ok ⟨items.foldl Level.add level, outer, .idle, depth⟩ := by
  -- The inner level of a group is read with other levels around it.
  induction h generalizing level outer depth with
  | nil => rfl
  | operator hk hop _ ih => rw [feed_cons_of_step (Step.operator hk hop).step_eq, ih hd]; rfl
  | fieldFirst hf hc hv hcmp _ ih =>
    rw [feed_predicate (.inl hf) hc (Predicate.ofTokens_fieldFirst hf hc hv hcmp), ih hd]
    rfl
  | literalFirst hv hc hf hcmp _ ih =>
    rw [feed_predicate (.inr hv) hc (Predicate.ofTokens_literalFirst hv hc hf hcmp), ih hd]
    rfl
  | @group room o c inner ts members items ho hc _ hn _ ihm ih =>
    have hopen : Step limit ⟨level, outer, .idle, depth⟩ o ⟨{}, level :: outer, .idle, depth + 1⟩ :=
      .openGroup ho (by omega)
    rw [List.cons_append, feed_cons_of_step hopen.step_eq,
      feed_append_of_ok (ihm (show depth + 1 + room ≤ limit by omega)), ← Level.ofItems_eq_foldl,
      feed_cons_of_step (Step.closeGroup hc hn).step_eq, Nat.add_sub_cancel, ih hd]
    rfl

theorem Grammar.Whole.ofTokens_eq (h : Whole maxDepth ts f) : Filter.ofTokens ts = .ok f := by
  obtain ⟨items, hi, hn, rfl⟩ := h.exists_items
  have hf : Builder.feed maxDepth {} ts = .ok ⟨items.foldl Level.add {}, [], .idle, 0⟩ :=
    Builder.feed_items hi (by simp)
  rw [← Level.ofItems_eq_foldl] at hf
  rw [Filter.ofTokens_eq_result]
  exact Builder.result_eq_ok_iff.2 ⟨_, 0, hf, hn, rfl⟩

-- ---------------------------------------------------------------------------
-- All that is read has a derivation
-- ---------------------------------------------------------------------------

def Pending.tokens : Pending → List Token
  | .idle => []
  | .operand first => [first]
  | .comparison first second => [first, second]

/-- The tokens of the open levels, from the outside in: the items of a level,
then the parenthesis that opens the next one. -/
inductive Builder.Opened (limit : Nat) : List Token → Level → List Level → Prop
  | top {ts : List Token} {items : List Item} : Items limit ts items →
      Opened limit ts (Level.ofItems items) []
  | inner {ts us : List Token} {o : Token} {around : Level} {outer : List Level}
      {items : List Item} : Opened limit us around outer → o.kind = .openGroup →
      outer.length < limit → Items (limit - (outer.length + 1)) ts items →
      Opened limit (us ++ o :: ts) (Level.ofItems items) (around :: outer)

structure Builder.Taken (limit : Nat) (ts : List Token) (b : Builder) : Prop where
  opened : ∃ us, ts = us ++ b.pending.tokens ∧ Builder.Opened limit us b.level b.outer
  depth_eq : b.depth = b.outer.length

namespace Builder

theorem Opened.add {item : Item} (h : Opened limit ts level outer)
    (hi : Items (limit - outer.length) us [item]) :
    Opened limit (ts ++ us) (level.add item) outer := by
  cases h with
  | top h =>
    rw [← Level.ofItems_append]
    exact .top (h.append hi)
  | inner ho hk hlt h =>
    rw [← Level.ofItems_append, List.append_assoc, List.cons_append]
    exact .inner ho hk hlt (h.append hi)

theorem Opened.close {around : Level} {c : Token} (h : Opened limit ts level (around :: outer))
    (hc : c.kind = .closeGroup) (hn : level.children ≠ []) :
    Opened limit (ts ++ [c]) (around.push level.toFilter) outer := by
  cases h with
  | @inner ts us o _ _ items ho hk hlt hi =>
    -- The closed level is one more item of the level around it.
    have hg : Items (limit - outer.length) (o :: ts ++ [c])
        [.child (Level.ofItems items).toFilter] := by
      have hsucc : limit - outer.length = limit - (outer.length + 1) + 1 := by omega
      rw [hsucc]
      exact .group hk hc hi hn .nil
    have h := ho.add hg
    simpa [Level.add] using h

theorem items_of_ofTokens {a c d : Token} {p : Predicate} {room : Nat}
    (h : Predicate.ofTokens a c d = .ok p) :
    Items room [a, c, d] [.child (.predicate p)] := by
  unfold Predicate.ofTokens at h
  split at h
  · rename_i ha hc hd
    unfold Predicate.ofTokens.compare at h
    split at h
    · rename_i hcmp
      cases h
      exact .fieldFirst ha hc hd hcmp .nil
    · cases h
  · rename_i ha hc hd
    unfold Predicate.ofTokens.compare at h
    split at h
    · rename_i hcmp
      cases h
      exact .literalFirst ha hc hd hcmp .nil
    · cases h
  · cases h

theorem Taken.step (h : Taken limit ts b) (hs : Step limit b t b') :
    Taken limit (ts ++ [t]) b' := by
  obtain ⟨⟨us, rfl, ho⟩, hd⟩ := h
  cases hs with
  | operator hk hop =>
    exact ⟨⟨_, by simp [Pending.tokens], ho.add (.operator hk hop .nil)⟩, hd⟩
  | openGroup hk hlt =>
    exact ⟨⟨_, by simp [Pending.tokens], .inner ho hk (hd ▸ hlt) .nil⟩, by simpa using hd⟩
  | closeGroup hk hn =>
    exact ⟨⟨_, by simp [Pending.tokens], ho.close hk hn⟩, Nat.sub_eq_of_eq_add hd⟩
  | operand hk => exact ⟨⟨us, by simp [Pending.tokens], ho⟩, hd⟩
  | comparison hk => exact ⟨⟨us, by simp [Pending.tokens], ho⟩, hd⟩
  | predicate hp =>
    exact ⟨⟨_, by simp [Pending.tokens], ho.add (items_of_ofTokens hp)⟩, hd⟩

theorem Taken.feed (h : Taken limit ts b) (hf : b.feed limit us = .ok b') :
    Taken limit (ts ++ us) b' :=
  feed_induction Taken.step h hf

theorem taken_nil : Taken limit [] {} :=
  ⟨⟨[], rfl, .top .nil⟩, rfl⟩

end Builder

theorem Builder.items_of_feed (h : Builder.feed limit {} ts = .ok ⟨level, [], .idle, depth⟩) :
    ∃ items, Items limit ts items ∧ Level.ofItems items = level := by
  obtain ⟨us, hts, ho⟩ := (Builder.taken_nil.feed h).opened
  simp only [Pending.tokens, List.nil_append, List.append_nil] at hts
  subst hts
  cases ho with
  | top hi => exact ⟨_, hi, rfl⟩

theorem Grammar.whole_of_ofTokens (h : Filter.ofTokens ts = .ok f) : Whole maxDepth ts f := by
  rw [Filter.ofTokens_eq_result] at h
  obtain ⟨level, depth, hf, hn, rfl⟩ := Builder.result_eq_ok_iff.1 h
  obtain ⟨items, hi, rfl⟩ := Builder.items_of_feed hf
  exact Level.root_ofItems hi hn

/-- A list of tokens is read as a filter exactly when the grammar derives that
filter, with groups nested at most 64 deep. -/
theorem ofTokens_eq_ok_iff_whole (ts : List Token) (f : Filter) :
    Filter.ofTokens ts = .ok f ↔ Whole 64 ts f :=
  ⟨Grammar.whole_of_ofTokens, Grammar.Whole.ofTokens_eq⟩

end FilterQuery
