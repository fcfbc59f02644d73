import Mathlib
import FilterQuery.Proofs.Filter.Accepted
import FilterQuery.Record

/-!
# Filters in parentheses

A text in parentheses is one child of whatever stands around it, and nothing
in it reaches outside. `parse_joined`: accepted texts, each in parentheses and
with one operator between them, make an accepted text. The children of its
filter are the outermost levels of the texts, so it has the arguments of all of
them, in order, and matches a record when all of their filters do, or some.

The level of a text is not always its filter: where the level is a single
group, the filter is that group (`Level.root`).
-/

namespace FilterQuery

open Grammar (Item Items Whole)

/-- The outermost level of a text, before a single group takes its place. -/
def readLevel (text : String) (fields : AllowList) : Except ParseError Level :=
  Builder.feed maxDepth {} (Lexer.ofString fields text).tokens >>= Builder.finish

def Level.nesting (l : Level) : Nat :=
  Filter.depthList l.children

/-- The texts in parentheses, with the same word between any two of them. -/
def joined (word : String) (texts : List String) : String :=
  (" " ++ word ++ " ").intercalate (texts.map fun s => "(" ++ s ++ ")")

/-- The filter of levels in parentheses. A single one stands for itself. -/
def Level.compose (op : BoolOp) : List Level → Filter
  | [l] => l.toFilter
  | levels => .group op (levels.map Level.toFilter)

/-- Whether a property holds of all (AND) or of some (OR) of a list. -/
def BoolOp.gather {α : Type} (op : BoolOp) (xs : List α) (p : α → Bool) : Bool :=
  match op with
  | .and => xs.all p
  | .or => xs.any p

def Token.enclose (ts : List Token) : List Token :=
  ⟨.openGroup, "("⟩ :: ts ++ [⟨.closeGroup, ")"⟩]

variable {fields : AllowList} {text word : String} {op : BoolOp} {level : Level} {depth : Nat}
  {ts us : List Token} {items : List Item} {chars more blanks : List Char}
  {texts : List String} {parts : List (String × Level)}

-- ---------------------------------------------------------------------------
-- Texts one after the other
-- ---------------------------------------------------------------------------

theorem Spelled.blanks_append (hb : blanks.all Text.isBlank = true) (h : Spelled fields ts chars) :
    Spelled fields ts (blanks ++ chars) := by
  cases h with
  | nil h => exact .nil (by simp [hb, h])
  | cons h hbegins hrest =>
    rw [← List.append_assoc]
    exact .cons (by simp [hb, h]) hbegins hrest

theorem Spelled.append (h : Spelled fields ts chars)
    (hstops : ∀ t : Token, Text.Stops t.absorbs more) (hmore : Spelled fields us more) :
    Spelled fields (ts ++ us) (chars ++ more) := by
  induction h with
  | nil hb => exact hmore.blanks_append hb
  | @cons t ts blanks body rest hb hbegins _ ih =>
    obtain ⟨hlegal, rfl, hrest⟩ := hbegins
    rw [List.append_assoc, List.append_assoc]
    refine .cons hb ⟨hlegal, rfl, ?_⟩ ih
    cases rest with
    | nil => exact hstops t
    | cons c rest => exact Text.stops_cons.2 (Text.stops_cons.1 hrest)

theorem Spelled.enclose (h : Spelled fields ts chars) (hmore : Spelled fields us more) :
    Spelled fields (Token.enclose ts ++ us) ('(' :: chars ++ ')' :: more) := by
  have hclose : Spelled fields (⟨.closeGroup, ")"⟩ :: us) (')' :: more) :=
    @Spelled.cons fields ⟨.closeGroup, ")"⟩ us [] _ _ rfl ⟨.closeGroup, rfl, fun _ _ => rfl⟩ hmore
  have hstops (t : Token) : Text.Stops t.absorbs (')' :: more) :=
    Text.stops_cons.2 (Token.absorbs_eq_false (by decide) (by decide))
  rw [Token.enclose, List.append_assoc]
  exact @Spelled.cons fields ⟨.openGroup, "("⟩ _ [] _ _ rfl ⟨.openGroup, rfl, fun _ _ => rfl⟩
    (h.append hstops hclose)

theorem Token.legal_operator (h : BoolOp.ofString? word = some op) :
    Token.Legal fields ⟨.operator, word⟩ := by
  unfold BoolOp.ofString? at h
  split at h
  · rename_i hw
    subst hw
    exact .signs (c := '&') (by simp)
  · split at h
    · rename_i hw
      subst hw
      exact .signs (c := '|') (by simp)
    · exact .keyword (by simp [isReserved, h])

theorem Spelled.operator (hop : BoolOp.ofString? word = some op) (h : Spelled fields ts chars) :
    Spelled fields (⟨.operator, word⟩ :: ts) (' ' :: word.toList ++ ' ' :: chars) := by
  have hspace : [' '].all Text.isBlank = true := by decide
  have hstops : Text.Stops (Token.absorbs ⟨.operator, word⟩) (' ' :: chars) :=
    Text.stops_cons.2 (Token.absorbs_of_isBlank (by decide))
  exact @Spelled.cons fields _ ts [' '] _ _ hspace ⟨Token.legal_operator hop, rfl, hstops⟩
    (@Spelled.blanks_append fields ts chars [' '] hspace h)

theorem toList_joined (word s : String) (texts : List String) :
    (joined word (s :: texts)).toList =
      '(' :: s.toList ++ ')' :: texts.flatMap fun s =>
        ' ' :: word.toList ++ ' ' :: '(' :: s.toList ++ [')'] := by
  induction texts generalizing s with
  | nil => simp [joined]
  | cons next texts ih =>
    have hjoined : joined word (s :: next :: texts) =
        "(" ++ s ++ ")" ++ (" " ++ word ++ " ") ++ joined word (next :: texts) := by
      simp only [joined, List.map_cons, String.intercalate_cons_cons]
    rw [hjoined, String.toList_append, ih]
    simp

-- ---------------------------------------------------------------------------
-- Levels
-- ---------------------------------------------------------------------------

theorem parse_eq_map_root (text : String) (fields : AllowList) :
    parse text fields = (readLevel text fields).map Level.root := by
  rw [parse_eq_ofTokens, Filter.ofTokens_eq_result]
  rfl

theorem items_of_readLevel (h : readLevel text fields = .ok level) :
    ∃ items, Spelled fields (Lexer.ofString fields text).tokens text.toList ∧
      Items maxDepth (Lexer.ofString fields text).tokens items ∧ Item.children items ≠ [] ∧
      Level.ofItems items = level := by
  obtain ⟨b, hfeed, hfinish⟩ := Json.bind_eq_ok.1 h
  obtain ⟨depth, rfl, hne⟩ := Builder.finish_eq_ok_iff.1 hfinish
  obtain ⟨items, hitems, rfl⟩ := Builder.items_of_feed hfeed
  exact ⟨items, (Lexer.tokens_eq_iff hitems.not_error).1 rfl, hitems, hne, rfl⟩

/-- A level can be read wherever there is room for its own groups. -/
theorem Grammar.Items.of_depth_le {room : Nat} (h : Items depth ts items)
    (hroom : ∀ c ∈ Item.children items, c.depth ≤ room) : Items room ts items := by
  induction h generalizing room with
  | nil => exact .nil
  | operator hk hop _ ih => exact .operator hk hop (ih hroom)
  | fieldFirst hf hc hv hcmp _ ih =>
    exact .fieldFirst hf hc hv hcmp (ih (List.forall_mem_cons.1 hroom).2)
  | literalFirst hv hc hf hcmp _ ih =>
    exact .literalFirst hv hc hf hcmp (ih (List.forall_mem_cons.1 hroom).2)
  | group ho hc _ hne _ ihm ih =>
    obtain ⟨hgroup, hrest⟩ := List.forall_mem_cons.1 hroom
    cases room with
    | zero => simp [Filter.depth] at hgroup
    | succ room =>
      have hmembers := Filter.depthList_le_iff.1 (Nat.le_of_succ_le_succ hgroup)
      exact .group ho hc (ihm hmembers) hne (ih hrest)

theorem items_enclose (h : readLevel text fields = .ok level) (hn : level.nesting ≤ depth) :
    Items (depth + 1) (Token.enclose (Lexer.ofString fields text).tokens)
      [.child level.toFilter] := by
  obtain ⟨items, -, hitems, hne, rfl⟩ := items_of_readLevel h
  exact .group rfl rfl (hitems.of_depth_le (Filter.depthList_le_iff.1 hn)) hne .nil

theorem BoolOp.gather_map {α β : Type} (op : BoolOp) (f : α → β) (xs : List α) (p : β → Bool) :
    op.gather (xs.map f) p = op.gather xs fun x => p (f x) := by
  cases op with
  | and => exact List.all_map
  | or => exact List.any_map

theorem Filter.eval_group (holds : Predicate → Bool) (op : BoolOp) (children : List Filter) :
    (Filter.group op children).eval holds = op.gather children (·.eval holds) := by
  cases op with
  | and => exact evalAll_eq_all holds children
  | or => exact evalAny_eq_any holds children

theorem Filter.eval_group_singleton (holds : Predicate → Bool) (op : BoolOp) (f : Filter) :
    (Filter.group op [f]).eval holds = f.eval holds := by
  cases op <;> simp [eval_group, BoolOp.gather]

namespace Level

theorem predicates_root (l : Level) : l.root.predicates = l.toFilter.predicates := by
  unfold root
  split
  · rename_i hc
    simp [toFilter, hc]
  · rfl

theorem eval_root (holds : Predicate → Bool) (l : Level) :
    l.root.eval holds = l.toFilter.eval holds := by
  unfold root
  split
  · rename_i hc
    rw [toFilter, hc, Filter.eval_group_singleton]
  · rfl

theorem predicates_compose (op : BoolOp) (levels : List Level) :
    (compose op levels).predicates = levels.flatMap (·.root.predicates) := by
  simp only [predicates_root]
  unfold compose
  split
  · simp
  · simp [List.flatMap_map]

theorem eval_compose (holds : Predicate → Bool) (op : BoolOp) (levels : List Level) :
    (compose op levels).eval holds = op.gather levels (·.root.eval holds) := by
  simp only [eval_root]
  unfold compose
  split
  · cases op <;> simp [BoolOp.gather]
  · rw [Filter.eval_group, BoolOp.gather_map]

end Level

-- ---------------------------------------------------------------------------
-- Joined texts
-- ---------------------------------------------------------------------------

def joinedTokens (fields : AllowList) (word : String) (texts : List String) : List Token :=
  texts.flatMap fun s => ⟨.operator, word⟩ :: Token.enclose (Lexer.ofString fields s).tokens

theorem spelled_joinedTokens (hop : BoolOp.ofString? word = some op)
    (h : ∀ s ∈ texts, Spelled fields (Lexer.ofString fields s).tokens s.toList) :
    Spelled fields (joinedTokens fields word texts)
      (texts.flatMap fun s => ' ' :: word.toList ++ ' ' :: '(' :: s.toList ++ [')']) := by
  induction texts with
  | nil => exact .nil rfl
  | cons s texts ih =>
    obtain ⟨hs, hts⟩ := List.forall_mem_cons.1 h
    simpa [joinedTokens] using (hs.enclose (ih hts)).operator hop

/-- Texts that are read, and leave room for one more group around them. -/
def Composable (fields : AllowList) (parts : List (String × Level)) : Prop :=
  ∀ p ∈ parts, readLevel p.1 fields = .ok p.2 ∧ p.2.nesting ≤ 63

theorem spelled_joined {s : String} (hop : BoolOp.ofString? word = some op)
    (h : Composable fields ((s, level) :: parts)) :
    Spelled fields (Token.enclose (Lexer.ofString fields s).tokens ++
        joinedTokens fields word (parts.map Prod.fst))
      (joined word (s :: parts.map Prod.fst)).toList := by
  have hspelled : ∀ p ∈ (s, level) :: parts,
      Spelled fields (Lexer.ofString fields p.1).tokens p.1.toList := by
    intro p hp
    obtain ⟨items, hspelled, -⟩ := items_of_readLevel (h p hp).1
    exact hspelled
  obtain ⟨hs, hparts⟩ := List.forall_mem_cons.1 hspelled
  rw [toList_joined]
  exact hs.enclose (spelled_joinedTokens hop (List.forall_mem_map.2 hparts))

theorem whole_joined {s : String} (hop : BoolOp.ofString? word = some op)
    (h : Composable fields ((s, level) :: parts)) :
    Whole maxDepth (Token.enclose (Lexer.ofString fields s).tokens ++
        joinedTokens fields word (parts.map Prod.fst))
      (Level.compose op (level :: parts.map Prod.snd)) := by
  obtain ⟨hs, hparts⟩ := List.forall_mem_cons.1 h
  have hafter : Items maxDepth (joinedTokens fields word (parts.map Prod.fst))
      (parts.flatMap fun p => [.operator op, .child p.2.toFilter]) := by
    rw [joinedTokens, List.flatMap_map]
    refine .separated rfl hop ?_
    intro p hp
    exact items_enclose (hparts p hp).1 (hparts p hp).2
  have hlevel : Level.ofItems ([.child level.toFilter] ++
      parts.flatMap fun p => [.operator op, .child p.2.toFilter]) =
      ⟨if parts.isEmpty then .and else op, (level :: parts.map Prod.snd).map Level.toFilter⟩ := by
    simp [Level.ofItems, Item.lastOperator_separated, Item.children_separated]
  have hwhole := Level.root_ofItems ((items_enclose hs.1 hs.2).append hafter) (by simp)
  rw [hlevel] at hwhole
  -- A single part has no operator beside it and takes the place of the whole.
  cases parts with
  | nil => exact hwhole
  | cons p parts => exact hwhole

theorem parse_joined_parts (hop : BoolOp.ofString? word = some op) (hne : parts ≠ [])
    (h : Composable fields parts) :
    parse (joined word (parts.map Prod.fst)) fields =
      .ok (Level.compose op (parts.map Prod.snd)) := by
  obtain ⟨⟨s, level⟩, parts, rfl⟩ := List.exists_cons_of_ne_nil hne
  exact parse_eq_ok_iff.2 ⟨_, spelled_joined hop h, whole_joined hop h⟩

theorem exists_parts (hread : ∀ s ∈ texts, ∃ f, parse s fields = .ok f) :
    ∃ parts : List (String × Level), parts.map Prod.fst = texts ∧
      ∀ p ∈ parts, readLevel p.1 fields = .ok p.2 := by
  induction texts with
  | nil => exact ⟨[], rfl, by simp⟩
  | cons s texts ih =>
    obtain ⟨⟨f, hf⟩, htexts⟩ := List.forall_mem_cons.1 hread
    obtain ⟨parts, rfl, hparts⟩ := ih htexts
    rw [parse_eq_map_root] at hf
    cases hl : readLevel s fields with
    | error e =>
      rw [hl] at hf
      cases hf
    | ok level => exact ⟨(s, level) :: parts, rfl, List.forall_mem_cons.2 ⟨hl, hparts⟩⟩

/-- Accepted texts in parentheses, with one operator between them, make an
accepted text whose children are the levels of the parts. Nothing a part holds
changes the operator, the arguments or the meaning of the others. -/
theorem parse_joined (fields : AllowList) (word : String) (op : BoolOp)
    (hop : BoolOp.ofString? word = some op) (texts : List String) (hne : texts ≠ [])
    (hread : ∀ s ∈ texts, ∃ f, parse s fields = .ok f)
    (hnest : ∀ s ∈ texts, ∀ level, readLevel s fields = .ok level → level.nesting ≤ 63) :
    ∃ (levels : List Level) (filters : List Filter) (fragments : List Fragment) (F : Fragment),
      texts.map (readLevel · fields) = levels.map .ok ∧
      texts.map (parse · fields) = filters.map .ok ∧
      texts.map (compile · fields) = fragments.map .ok ∧
      parse (joined word texts) fields = .ok (Level.compose op levels) ∧
      compile (joined word texts) fields = .ok F ∧
      F.args = fragments.flatMap (·.args) ∧
      ∀ record : Value, (Level.compose op levels).matches record =
        op.gather filters (·.matches record) := by
  obtain ⟨parts, rfl, hlevels⟩ := exists_parts hread
  have hfilters : ∀ p ∈ parts, parse p.1 fields = .ok p.2.root := by
    intro p hp
    rw [parse_eq_map_root, hlevels p hp]
    rfl
  have hfragments : ∀ p ∈ parts, compile p.1 fields = .ok p.2.root.toFragment :=
    fun p hp => compile_eq_ok_iff.2 ⟨_, hfilters p hp, rfl⟩
  have hcomposable : Composable fields parts :=
    fun p hp => ⟨hlevels p hp, hnest p.1 (List.mem_map_of_mem hp) p.2 (hlevels p hp)⟩
  have hparse := parse_joined_parts hop (by simpa using hne) hcomposable
  refine ⟨parts.map Prod.snd, parts.map (·.2.root), parts.map (·.2.root.toFragment), _, ?_, ?_, ?_,
    hparse, compile_eq_ok_iff.2 ⟨_, hparse, rfl⟩, ?_, ?_⟩
  · simpa using hlevels
  · simpa using hfilters
  · simpa using hfragments
  · simp [Filter.toFragment, Level.predicates_compose, List.flatMap_map, List.map_flatMap]
  · intro record
    rw [Filter.matches, Level.eval_compose, BoolOp.gather_map, BoolOp.gather_map]
    rfl

/-- Parts with an operator of their own at the edge, and parts that are one
group: neither changes what stands outside. -/
theorem parse_joined_edges :
    let fields := AllowList.ofList ["a", "b"]
    let a : Filter := .predicate ⟨"a", .eq, "1"⟩
    let b : Filter := .predicate ⟨"b", .lt, "2"⟩
    parse "(a=\"1\" b<\"2\"||) And ((oR a=\"1\"))" fields =
      .ok (.group .and [.group .or [a, b], .group .and [.group .or [a]]]) := by
  intro fields a b
  have hfirst : readLevel "a=\"1\" b<\"2\"||" fields = .ok ⟨.or, [a, b]⟩ := by cbv
  have hsecond : readLevel "(oR a=\"1\")" fields = .ok ⟨.and, [.group .or [a]]⟩ := by cbv
  have hread : ∀ s ∈ ["a=\"1\" b<\"2\"||", "(oR a=\"1\")"], ∃ f, parse s fields = .ok f := by
    simp only [parse_eq_map_root, List.forall_mem_cons, hfirst, hsecond]
    exact ⟨⟨_, rfl⟩, ⟨_, rfl⟩, by simp⟩
  have hnest : ∀ s ∈ ["a=\"1\" b<\"2\"||", "(oR a=\"1\")"], ∀ level,
      readLevel s fields = .ok level → level.nesting ≤ 63 := by
    simp only [List.forall_mem_cons, hfirst, hsecond, Except.ok.injEq, forall_eq']
    exact ⟨by decide, by decide, by simp⟩
  obtain ⟨levels, -, -, -, hlevels, -, -, hparse, -⟩ :=
    parse_joined fields "And" .and (by decide) _ (by simp) hread hnest
  simp only [List.map_cons, List.map_nil, hfirst, hsecond] at hlevels
  obtain ⟨l, rest, rfl, hl, hrest⟩ := List.map_eq_cons_iff.1 hlevels.symm
  obtain ⟨m, rest, rfl, hm, hnil⟩ := List.map_eq_cons_iff.1 hrest
  cases List.map_eq_nil_iff.1 hnil
  cases hl
  cases hm
  exact hparse

end FilterQuery
