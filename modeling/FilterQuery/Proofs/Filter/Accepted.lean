import FilterQuery.Proofs.Filter.Grammar
import FilterQuery.Proofs.Filter.Tree
import FilterQuery.Proofs.Token.Spelling

/-!
# What can be read from a text

`parse_eq_ok_iff`: a text is read as a filter exactly when it spells tokens
from which the grammar derives that filter. The rest says what such a filter
looks like: where its fields and values come from, that no group is empty, and
how deep it can be.
-/

namespace FilterQuery

open Grammar (Item Items Whole)

def Token.texts (kind : Token.Kind) (ts : List Token) : List String :=
  (ts.filter (·.kind = kind)).map (·.text)

structure Predicate.Legal (fields : AllowList) (p : Predicate) : Prop where
  field : Token.IsField fields p.field
  value : '"' ∉ p.value.toList

variable {fields : AllowList} {text : String} {depth : Nat} {ts us : List Token} {t : Token}
  {items : List Item} {f : Filter} {kind : Token.Kind}

namespace Token

@[simp] theorem texts_nil : texts kind [] = [] := rfl

theorem texts_cons_of_eq (h : t.kind = kind) : texts kind (t :: ts) = t.text :: texts kind ts := by
  simp [texts, h]

theorem texts_cons_of_ne (h : t.kind ≠ kind) : texts kind (t :: ts) = texts kind ts := by
  simp [texts, h]

theorem texts_append : texts kind (ts ++ us) = texts kind ts ++ texts kind us := by
  simp [texts]

theorem mem_of_mem_texts {x : String} (h : x ∈ texts kind ts) : ⟨kind, x⟩ ∈ ts := by
  obtain ⟨t, ht, rfl⟩ := List.mem_map.1 h
  obtain ⟨hm, hk⟩ := List.mem_filter.1 ht
  rw [← of_decide_eq_true hk]
  exact hm

end Token

-- ---------------------------------------------------------------------------
-- Derivations
-- ---------------------------------------------------------------------------

namespace Grammar

theorem Items.not_error (h : Items depth ts items) : ∀ t ∈ ts, t.isError = false := by
  have hne {t : Token} {k : Token.Kind} (hk : t.kind = k) (he : k ≠ .error) : t.isError = false := by
    simp [Token.isError, hk, he]
  induction h with
  | nil => simp
  | operator hk _ _ ih => exact List.forall_mem_cons.2 ⟨hne hk (by decide), ih⟩
  | fieldFirst hf hc hv _ _ ih =>
    simp only [List.forall_mem_cons]
    exact ⟨hne hf (by decide), hne hc (by decide), hne hv (by decide), ih⟩
  | literalFirst hv hc hf _ _ ih =>
    simp only [List.forall_mem_cons]
    exact ⟨hne hv (by decide), hne hc (by decide), hne hf (by decide), ih⟩
  | group ho hc _ _ _ ihm ih =>
    simp only [List.cons_append, List.forall_mem_cons, List.forall_mem_append]
    exact ⟨hne ho (by decide), ihm, hne hc (by decide), ih⟩

theorem Items.texts_eq (h : Items depth ts items) :
    Token.texts .field ts = ((Item.children items).flatMap Filter.predicates).map (·.field) ∧
      Token.texts .literal ts = ((Item.children items).flatMap Filter.predicates).map (·.value) := by
  have hskip {t : Token} {ts : List Token} {k kind : Token.Kind} (hk : t.kind = k) (he : k ≠ kind) :
      Token.texts kind (t :: ts) = Token.texts kind ts := Token.texts_cons_of_ne (hk ▸ he)
  induction h with
  | nil => simp
  | operator hk _ _ ih =>
    rw [hskip hk (by decide), hskip hk (by decide)]
    exact ih
  | fieldFirst hf hc hv _ _ ih =>
    rw [Token.texts_cons_of_eq hf, hskip hc (by decide), hskip hv (by decide), hskip hf (by decide),
      hskip hc (by decide), Token.texts_cons_of_eq hv, ih.1, ih.2]
    exact ⟨rfl, rfl⟩
  | literalFirst hv hc hf _ _ ih =>
    rw [hskip hv (by decide), hskip hc (by decide), Token.texts_cons_of_eq hf,
      Token.texts_cons_of_eq hv, hskip hc (by decide), hskip hf (by decide), ih.1, ih.2]
    exact ⟨rfl, rfl⟩
  | group ho hc _ _ _ ihm ih =>
    rw [List.cons_append, hskip ho (by decide), hskip ho (by decide), Token.texts_append,
      Token.texts_append, hskip hc (by decide), hskip hc (by decide), ih.1, ih.2, ihm.1, ihm.2]
    simp

theorem Items.full (h : Items depth ts items) : ∀ c ∈ Item.children items, c.Full := by
  induction h with
  | nil => simp
  | operator _ _ _ ih => exact ih
  | fieldFirst _ _ _ _ _ ih => exact List.forall_mem_cons.2 ⟨.predicate _, ih⟩
  | literalFirst _ _ _ _ _ ih => exact List.forall_mem_cons.2 ⟨.predicate _, ih⟩
  | group _ _ _ hn _ ihm ih => exact List.forall_mem_cons.2 ⟨.group hn ihm, ih⟩

theorem Items.depth_le (h : Items depth ts items) : ∀ c ∈ Item.children items, c.depth ≤ depth := by
  induction h with
  | nil => simp
  | operator _ _ _ ih => exact ih
  | fieldFirst _ _ _ _ _ ih => exact List.forall_mem_cons.2 ⟨Nat.zero_le _, ih⟩
  | literalFirst _ _ _ _ _ ih => exact List.forall_mem_cons.2 ⟨Nat.zero_le _, ih⟩
  | group _ _ _ _ _ ihm ih =>
    exact List.forall_mem_cons.2 ⟨Nat.succ_le_succ (Filter.depthList_le_iff.2 ihm), ih⟩

theorem Whole.texts_eq (h : Whole depth ts f) :
    Token.texts .field ts = f.predicates.map (·.field) ∧
      Token.texts .literal ts = f.predicates.map (·.value) := by
  cases h with
  | level hi => simpa using hi.texts_eq
  | group hi hc => simpa [hc] using hi.texts_eq

theorem Whole.full (h : Whole depth ts f) : f.Full := by
  cases h with
  | level hi hn => exact .group hn hi.full
  | group hi hc => exact hi.full _ (by simp [hc])

/-- A filter may be one group deeper than the groups nest: its own level is
not written as a group. -/
theorem Whole.depth_le (h : Whole depth ts f) : f.depth ≤ depth + 1 := by
  cases h with
  | level hi => exact Nat.succ_le_succ (Filter.depthList_le_iff.2 hi.depth_le)
  | group hi hc => exact Nat.le_succ_of_le (hi.depth_le _ (by simp [hc]))

theorem Whole.exists_group (h : Whole depth ts f) : ∃ op children, f = .group op children := by
  cases h with
  | level => exact ⟨_, _, rfl⟩
  | group => exact ⟨_, _, rfl⟩

end Grammar

-- ---------------------------------------------------------------------------
-- Texts
-- ---------------------------------------------------------------------------

theorem parse_eq_ok_iff : parse text fields = .ok f ↔
    ∃ ts, Spelled fields ts text.toList ∧ Whole maxDepth ts f := by
  rw [parse_eq_ofTokens]
  constructor
  · intro h
    have hw := Grammar.whole_of_ofTokens h
    obtain ⟨items, hi, -⟩ := hw.exists_items
    exact ⟨_, (Lexer.tokens_eq_iff hi.not_error).1 rfl, hw⟩
  · rintro ⟨ts, hs, hw⟩
    have ht : (Lexer.ofString fields text).tokens = ts := hs.tokens_eq
    rw [ht]
    exact hw.ofTokens_eq

theorem compile_eq_ok_iff {F : Fragment} : compile text fields = .ok F ↔
    ∃ f, parse text fields = .ok f ∧ f.toFragment = F := by
  rw [compile_eq]
  cases parse text fields <;> simp [Except.map]

theorem predicates_legal_of_parse (h : parse text fields = .ok f) :
    ∀ p ∈ f.predicates, p.Legal fields := by
  obtain ⟨ts, hs, hw⟩ := parse_eq_ok_iff.1 h
  obtain ⟨hfields, hvalues⟩ := hw.texts_eq
  intro p hp
  have hf : ⟨.field, p.field⟩ ∈ ts :=
    Token.mem_of_mem_texts (hfields ▸ List.mem_map_of_mem hp)
  have hv : ⟨.literal, p.value⟩ ∈ ts :=
    Token.mem_of_mem_texts (hvalues ▸ List.mem_map_of_mem hp)
  cases hs.legal _ hf with
  | field hname =>
    cases hs.legal _ hv with
    | literal hq => exact ⟨hname, hq⟩

end FilterQuery
