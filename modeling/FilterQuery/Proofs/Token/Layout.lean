import Mathlib.Data.List.Chain
import FilterQuery.Proofs.Token.Spelling

/-!
# Blanks around tokens

A `Layout` is a list of tokens with the blanks before, between and after them.
Two tokens that would run together when written side by side have at least one
blank between them, and this is the only place where a blank is needed.

`tokens_eq_iff_exists_layout`: a text is scanned into the given tokens, none
of them an error, exactly when all of them are legal and the text is a layout
of them.
-/

namespace FilterQuery

/-- Written side by side, the first token would take in the beginning of the
second. -/
inductive Token.RunsInto (t u : Token) : Prop
  | field {c : Char} : t.kind = .field → u.spelling.head? = some c → isWordChar c = true →
      RunsInto t u
  | keyword {c : Char} : t.kind = .operator → isReserved t.text = true →
      u.spelling.head? = some c → isWordChar c = true → RunsInto t u
  | comparator : t.kind = .comparator → t.text.length = 1 → u.spelling.head? = some '=' →
      RunsInto t u

/-- The blanks before the first token, then each token with the blanks after
it. -/
structure Layout where
  first : List Char
  items : List (Token × List Char)
  first_blank : first.all Text.isBlank = true
  items_blank : ∀ p ∈ items, p.2.all Text.isBlank = true
  apart : items.IsChain fun p q => p.1.RunsInto q.1 → p.2 ≠ []

def Layout.tokens (l : Layout) : List Token :=
  l.items.map Prod.fst

def Layout.text (l : Layout) : List Char :=
  l.first ++ l.items.flatMap fun p => p.1.spelling ++ p.2

variable {fields : AllowList} {t u : Token} {c : Char} {ts : List Token} {text rest : List Char}

-- ---------------------------------------------------------------------------
-- Tokens side by side
-- ---------------------------------------------------------------------------

namespace Token

theorem runsInto_iff : t.RunsInto u ↔ ∃ c ∈ u.spelling.head?, t.absorbs c = true := by
  constructor
  · rintro (⟨hk, hc, hw⟩ | ⟨hk, hr, hc, hw⟩ | ⟨hk, hl, hc⟩)
    · exact ⟨_, hc, by simp [absorbs, hk, hw]⟩
    · exact ⟨_, hc, by simp [absorbs, hk, hr, hw]⟩
    · exact ⟨_, hc, by simp [absorbs, hk, hl]⟩
  · rintro ⟨c, hc, ha⟩
    unfold absorbs at ha
    split at ha
    · rename_i hk
      exact .field hk hc ha
    · rename_i hk
      obtain ⟨hr, hw⟩ := Bool.and_eq_true_iff.1 ha
      exact .keyword hk hr hc hw
    · rename_i hk
      obtain ⟨hl, he⟩ := Bool.and_eq_true_iff.1 ha
      cases of_decide_eq_true he
      exact .comparator hk (of_decide_eq_true hl) hc
    · cases ha

/-- A token ends before blanks and, where there are none, before a token that
it does not run into. -/
theorem stops_absorbs_iff {blanks : List Char} (hb : blanks.all Text.isBlank = true)
    (hu : u.spelling ≠ []) :
    Text.Stops t.absorbs (blanks ++ (u.spelling ++ rest)) ↔ (t.RunsInto u → blanks ≠ []) := by
  cases blanks with
  | nil =>
    obtain ⟨c, tail, hs⟩ := List.exists_cons_of_ne_nil hu
    simp [runsInto_iff, hs]
  | cons c blanks =>
    obtain ⟨hc, -⟩ := Bool.and_eq_true_iff.1 hb
    simp [absorbs_of_isBlank hc]

end Token

-- ---------------------------------------------------------------------------
-- Layouts and spelled texts
-- ---------------------------------------------------------------------------

theorem Spelled.exists_layout (h : Spelled fields ts text) :
    ∃ l : Layout, l.tokens = ts ∧ l.text = text := by
  induction h with
  | @nil blanks hb => exact ⟨⟨blanks, [], hb, by simp, .nil⟩, rfl, by simp [Layout.text]⟩
  | @cons t ts blanks body rest hb hbegins hrest ih =>
    obtain ⟨⟨first, items, hfirst, hitems, hapart⟩, rfl, rfl⟩ := ih
    have hchain : ((t, first) :: items).IsChain fun p q => p.1.RunsInto q.1 → p.2 ≠ [] := by
      cases items with
      | nil => exact .singleton _
      | cons q items =>
        refine .cons_cons ?_ hapart
        have hlegal : q.1.Legal fields := hrest.legal q.1 (by simp [Layout.tokens])
        have hstops := hbegins.stops
        simp only [Layout.text, List.flatMap_cons, List.append_assoc] at hstops
        exact (Token.stops_absorbs_iff hfirst hlegal.spelling_ne_nil).1 hstops
    refine ⟨⟨blanks, (t, first) :: items, hb, List.forall_mem_cons.2 ⟨hfirst, hitems⟩, hchain⟩,
      rfl, ?_⟩
    rw [hbegins.text_eq]
    simp [Layout.text]

theorem spelled_of_items {first : List Char} {items : List (Token × List Char)}
    (hfirst : first.all Text.isBlank = true) (hitems : ∀ p ∈ items, p.2.all Text.isBlank = true)
    (hapart : items.IsChain fun p q => p.1.RunsInto q.1 → p.2 ≠ [])
    (hlegal : ∀ t ∈ items.map Prod.fst, t.Legal fields) :
    Spelled fields (items.map Prod.fst) (first ++ items.flatMap fun p => p.1.spelling ++ p.2) := by
  induction items generalizing first with
  | nil => simpa using .nil hfirst
  | cons p items ih =>
    obtain ⟨t, blanks⟩ := p
    obtain ⟨hblanks, hitems⟩ := List.forall_mem_cons.1 hitems
    obtain ⟨ht, hts⟩ := List.forall_mem_cons.1 hlegal
    have hstops : Text.Stops t.absorbs (blanks ++ items.flatMap fun p => p.1.spelling ++ p.2) := by
      cases items with
      | nil =>
        -- Only the blanks at the end follow the last token.
        intro c hc
        rw [List.flatMap_nil, List.append_nil] at hc
        exact Token.absorbs_of_isBlank (List.all_eq_true.1 hblanks c (List.mem_of_mem_head? hc))
      | cons q items =>
        have hq : q.1.Legal fields := hts q.1 List.mem_cons_self
        rw [List.flatMap_cons, List.append_assoc]
        exact (Token.stops_absorbs_iff hblanks hq.spelling_ne_nil).2 hapart.rel
    rw [List.map_cons, List.flatMap_cons, List.append_assoc]
    exact .cons hfirst ⟨ht, rfl, hstops⟩ (ih hblanks hitems hapart.of_cons hts)

theorem Layout.spelled (l : Layout) (h : ∀ t ∈ l.tokens, t.Legal fields) :
    Spelled fields l.tokens l.text :=
  spelled_of_items l.first_blank l.items_blank l.apart h

/-- Scanning a text without error is reading off the tokens of a layout: no
character is dropped or read twice, and blanks matter only between tokens that
would run together. -/
theorem tokens_eq_iff_exists_layout (fields : AllowList) (text : String) (ts : List Token) :
    ((Lexer.ofString fields text).tokens = ts ∧ ∀ t ∈ ts, t.isError = false) ↔
      (∀ t ∈ ts, t.Legal fields) ∧ ∃ l : Layout, l.tokens = ts ∧ l.text = text.toList := by
  constructor
  · rintro ⟨htokens, herror⟩
    have hspelled := (Lexer.tokens_eq_iff herror).1 htokens
    exact ⟨hspelled.legal, hspelled.exists_layout⟩
  · rintro ⟨hlegal, l, rfl, htext⟩
    have herror : ∀ t ∈ l.tokens, t.isError = false := fun t ht => (hlegal t ht).isError
    exact ⟨(Lexer.tokens_eq_iff herror).2 (htext ▸ l.spelled hlegal), herror⟩

end FilterQuery
