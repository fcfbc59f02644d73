import FilterQuery.Proofs.Filter.Accepted

/-!
# Filters written as tokens

`Filter.tokens` writes a filter the way its condition is written: every group
between parentheses, and the operator of a group between its children. Reading
these tokens gives the filter back up to the operator of groups with one child,
which is not written (`ofTokens_tokens`), as long as groups nest at most 64
deep; deeper filters are refused for that reason and no other
(`ofTokens_tokens_of_lt_depth`).
-/

namespace FilterQuery

open Grammar (Item Items Whole)

def Predicate.tokens (p : Predicate) : List Token :=
  [⟨.field, p.field⟩, ⟨.comparator, p.comparator.symbol⟩, ⟨.literal, p.value⟩]

def Token.word (t : Token) : String :=
  if t.kind = .literal then "?" else t.text

namespace Filter

mutual
def tokens : Filter → List Token
  | .predicate p => p.tokens
  | .group _ [] => [⟨.openGroup, "("⟩, ⟨.closeGroup, ")"⟩]
  | .group op (f :: fs) =>
    ⟨.openGroup, "("⟩ :: f.tokens ++ tokensAfter op fs ++ [⟨.closeGroup, ")"⟩]
def tokensAfter (op : BoolOp) : List Filter → List Token
  | [] => []
  | f :: fs => ⟨.operator, op.symbol⟩ :: f.tokens ++ tokensAfter op fs
end

mutual
/-- The filter with AND in every group of one child. -/
def normal : Filter → Filter
  | .predicate p => .predicate p
  | .group op children => .group (if children.length = 1 then .and else op) (normalList children)
def normalList : List Filter → List Filter
  | [] => []
  | f :: fs => f.normal :: normalList fs
end

variable {f : Filter} {fs : List Filter} {op : BoolOp} {fields : AllowList} {limit room depth : Nat}
  {level : Level} {outer : List Level}

theorem tokensAfter_eq_flatMap (op : BoolOp) (fs : List Filter) :
    tokensAfter op fs = fs.flatMap fun f => ⟨.operator, op.symbol⟩ :: f.tokens := by
  induction fs with
  | nil => rfl
  | cons f fs ih => simp [tokensAfter, ih]

theorem tokens_group_cons : (Filter.group op (f :: fs)).tokens =
    ⟨.openGroup, "("⟩ :: (f.tokens ++ fs.flatMap fun f => ⟨.operator, op.symbol⟩ :: f.tokens) ++
      [⟨.closeGroup, ")"⟩] := by
  rw [tokens, tokensAfter_eq_flatMap]
  simp

theorem normalList_eq_map (fs : List Filter) : normalList fs = fs.map normal := by
  induction fs with
  | nil => rfl
  | cons f fs ih => simp [normalList, ih]

theorem normal_group : (Filter.group op fs).normal =
    .group (if fs.length = 1 then .and else op) (fs.map normal) := by
  rw [normal, normalList_eq_map]

-- ---------------------------------------------------------------------------
-- Tokens and words
-- ---------------------------------------------------------------------------

theorem forall_mem_tokens {P : Token → Prop} (hopen : P ⟨.openGroup, "("⟩)
    (hclose : P ⟨.closeGroup, ")"⟩) (hop : ∀ op : BoolOp, P ⟨.operator, op.symbol⟩)
    (hp : ∀ p ∈ f.predicates, P ⟨.field, p.field⟩ ∧ P ⟨.comparator, p.comparator.symbol⟩ ∧
      P ⟨.literal, p.value⟩) : ∀ t ∈ f.tokens, P t := by
  induction f with
  | predicate p =>
    obtain ⟨hfield, hcomparator, hvalue⟩ := hp p (by simp [predicates])
    intro t ht
    simp only [tokens, Predicate.tokens, List.mem_cons, List.not_mem_nil, or_false] at ht
    rcases ht with rfl | rfl | rfl
    · exact hfield
    · exact hcomparator
    · exact hvalue
  | group op children ih =>
    have hchild : ∀ c ∈ children, ∀ t ∈ c.tokens, P t := by
      intro c hc
      refine ih c hc fun p hpc => hp p ?_
      rw [predicates_group]
      exact List.mem_flatMap.2 ⟨c, hc, hpc⟩
    cases children with
    | nil =>
      intro t ht
      simp only [tokens, List.mem_cons, List.not_mem_nil, or_false] at ht
      rcases ht with rfl | rfl
      · exact hopen
      · exact hclose
    | cons c children =>
      obtain ⟨hc, hcs⟩ := List.forall_mem_cons.1 hchild
      intro t ht
      rw [tokens_group_cons] at ht
      simp only [List.cons_append, List.mem_cons, List.mem_append, List.mem_flatMap,
        List.not_mem_nil, or_false] at ht
      rcases ht with rfl | (ht | ⟨d, hd, rfl | ht⟩) | rfl
      · exact hopen
      · exact hc t ht
      · exact hop op
      · exact hcs d hd t ht
      · exact hclose

theorem words_eq_map_tokens (f : Filter) : f.words = f.tokens.map Token.word := by
  induction f with
  | predicate p => rfl
  | group op children ih =>
    cases children with
    | nil => rfl
    | cons c children =>
      obtain ⟨hc, hcs⟩ := List.forall_mem_cons.1 ih
      have hafter : (children.map fun f => op.symbol :: f.words) =
          children.map fun f => op.symbol :: f.tokens.map Token.word :=
        List.map_congr_left fun f hf => by rw [hcs f hf]
      rw [words_group_cons, tokens_group_cons, hc, List.flatMap_def, hafter, ← List.flatMap_def]
      simp [List.map_flatMap, Token.word]

theorem predicates_normal (f : Filter) : f.normal.predicates = f.predicates := by
  induction f with
  | predicate p => rfl
  | group op children ih =>
    rw [normal_group, predicates_group, predicates_group, List.flatMap_map, List.flatMap_def,
      List.flatMap_def, List.map_congr_left ih]

theorem words_normal (f : Filter) : f.normal.words = f.words := by
  induction f with
  | predicate p => rfl
  | group op children ih =>
    cases children with
    | nil => rfl
    | cons c children =>
      obtain ⟨hc, hcs⟩ := List.forall_mem_cons.1 ih
      rw [normal_group, List.map_cons, words_group_cons, words_group_cons, hc, List.flatMap_map]
      cases children with
      | nil => rfl
      | cons d children =>
        have hafter : ((d :: children).map fun f => op.symbol :: f.normal.words) =
            (d :: children).map fun f => op.symbol :: f.words :=
          List.map_congr_left fun f hf => by rw [hcs f hf]
        rw [if_neg (by simp), List.flatMap_def, hafter, ← List.flatMap_def]

theorem toFragment_normal (f : Filter) : f.normal.toFragment = f.toFragment := by
  rw [toFragment, toFragment, words_normal, predicates_normal]

-- ---------------------------------------------------------------------------
-- Reading the tokens of a filter
-- ---------------------------------------------------------------------------

theorem items_predicate (p : Predicate) : Items room p.tokens [.child (.predicate p)] :=
  .fieldFirst rfl rfl rfl (Comparator.ofString?_symbol _) .nil

theorem ofString?_symbol (op : BoolOp) : BoolOp.ofString? op.symbol = some op := by
  cases op <;> decide

/-- The tokens of a filter are one item, which is the filter up to operators
that are not written. -/
theorem items_tokens (hf : f.Full) (hd : f.depth ≤ room) :
    Items room f.tokens [.child f.normal] := by
  induction f generalizing room with
  | predicate p => exact items_predicate p
  | group op children ih =>
    cases hf with
    | group hn hfull =>
      cases room with
      | zero => simp [Filter.depth] at hd
      | succ room =>
        have hd := depthList_le_iff.1 (Nat.le_of_succ_le_succ hd)
        cases children with
        | nil => exact absurd rfl hn
        | cons c children =>
          have hitems : ∀ f ∈ c :: children, Items room f.tokens [.child f.normal] :=
            fun f hf => ih f hf (hfull f hf) (hd f hf)
          obtain ⟨hc, hcs⟩ := List.forall_mem_cons.1 hitems
          have hinner : Items room
              (c.tokens ++ children.flatMap fun f => ⟨.operator, op.symbol⟩ :: f.tokens)
              ([.child c.normal] ++ children.flatMap fun f => [.operator op, .child f.normal]) :=
            hc.append (.separated rfl (ofString?_symbol op) hcs)
          have hg := Items.group (o := ⟨.openGroup, "("⟩) (c := ⟨.closeGroup, ")"⟩) rfl rfl hinner
            (by simp) .nil
          rw [tokens_group_cons, normal_group]
          simpa [Item.children_separated, Item.lastOperator_separated] using hg

theorem feed_tokens (hf : f.Full) (hd : depth + f.depth ≤ limit) :
    Builder.feed limit ⟨level, outer, .idle, depth⟩ f.tokens =
      .ok ⟨level.push f.normal, outer, .idle, depth⟩ :=
  Builder.feed_items (items_tokens hf (Nat.le_refl _)) hd

theorem feed_append_of_lt_depth {c : Filter} {ts : List Token} (hc : c.Full)
    (hdeep : limit < depth + c.depth → ∀ level,
      Builder.feed limit ⟨level, outer, .idle, depth⟩ c.tokens = .error .nestingTooDeep)
    (hrest : ¬limit < depth + c.depth → ∀ level,
      Builder.feed limit ⟨level, outer, .idle, depth⟩ ts = .error .nestingTooDeep) :
    Builder.feed limit ⟨level, outer, .idle, depth⟩ (c.tokens ++ ts) = .error .nestingTooDeep := by
  -- Either the child itself stops the reading, or it is read and the rest does.
  by_cases hlt : limit < depth + c.depth
  · exact Builder.feed_append_of_error (hdeep hlt level)
  · rw [Builder.feed_append_of_ok (feed_tokens hc (Nat.not_lt.1 hlt))]
    exact hrest hlt _

theorem feed_after_of_lt_depth (hfull : ∀ f ∈ fs, f.Full)
    (hdeep : ∀ f ∈ fs, limit < depth + f.depth → ∀ level,
      Builder.feed limit ⟨level, outer, .idle, depth⟩ f.tokens = .error .nestingTooDeep)
    (hle : depth ≤ limit) (h : limit < depth + depthList fs) :
    Builder.feed limit ⟨level, outer, .idle, depth⟩
      (fs.flatMap fun f => ⟨.operator, op.symbol⟩ :: f.tokens) = .error .nestingTooDeep := by
  induction fs generalizing level with
  | nil => exact absurd h (Nat.not_lt.2 hle)
  | cons f fs ih =>
    obtain ⟨hf, hfs⟩ := List.forall_mem_cons.1 hfull
    obtain ⟨hdeepf, hdeepfs⟩ := List.forall_mem_cons.1 hdeep
    rw [List.flatMap_cons, List.cons_append,
      Builder.feed_cons_of_step (Builder.Step.operator rfl (ofString?_symbol op)).step_eq]
    refine feed_append_of_lt_depth hf hdeepf fun hlt level => ?_
    exact ih hfs hdeepfs (lt_add_depthList_of_cons h hlt)

theorem feed_tokens_of_lt_depth (hf : f.Full) (hle : depth ≤ limit)
    (h : limit < depth + f.depth) :
    Builder.feed limit ⟨level, outer, .idle, depth⟩ f.tokens = .error .nestingTooDeep := by
  induction f generalizing level outer depth with
  | predicate p => exact absurd h (Nat.not_lt.2 hle)
  | group op children ih =>
    cases hf with
    | group hn hfull =>
      cases children with
      | nil => exact absurd rfl hn
      | cons c children =>
        rw [tokens_group_cons, List.cons_append]
        -- Without room the parenthesis is refused; with room, some child is too deep.
        by_cases hlt : depth < limit
        · have hdeep : ∀ f ∈ c :: children, limit < depth + 1 + f.depth → ∀ inner,
              Builder.feed limit ⟨inner, level :: outer, .idle, depth + 1⟩ f.tokens =
                .error .nestingTooDeep :=
            fun f hf hfd inner => ih f hf (hfull f hf) hlt hfd
          obtain ⟨hfullc, hfullcs⟩ := List.forall_mem_cons.1 hfull
          obtain ⟨hdeepc, hdeepcs⟩ := List.forall_mem_cons.1 hdeep
          rw [Builder.feed_cons_of_step (Builder.Step.openGroup rfl hlt).step_eq]
          refine Builder.feed_append_of_error (feed_append_of_lt_depth hfullc hdeepc ?_)
          intro hc inner
          have hinner : limit < depth + 1 + depthList (c :: children) := by
            rw [Filter.depth] at h
            omega
          exact feed_after_of_lt_depth hfullcs hdeepcs hlt (lt_add_depthList_of_cons hinner hc)
        · refine Builder.feed_cons_of_error ?_
          simp [Builder.step, Builder.item, Builder.openGroup, Token.isError, Nat.not_lt.1 hlt]

theorem ofTokens_tokens (hf : f.Full) (hg : ∃ op children, f = .group op children)
    (hd : f.depth ≤ maxDepth) : Filter.ofTokens f.tokens = .ok f.normal := by
  obtain ⟨op, children, rfl⟩ := hg
  rw [normal_group]
  refine Whole.ofTokens_eq (.group (items_tokens hf hd) ?_)
  rw [normal_group]
  rfl

theorem ofTokens_tokens_of_lt_depth (hf : f.Full) (hd : maxDepth < f.depth) :
    Filter.ofTokens f.tokens = .error .nestingTooDeep := by
  rw [Filter.ofTokens_eq_result]
  refine Builder.result_of_feed_error (feed_tokens_of_lt_depth hf (Nat.zero_le _) ?_)
  rw [Nat.zero_add]
  exact hd

end Filter

end FilterQuery
