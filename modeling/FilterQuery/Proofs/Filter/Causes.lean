import Mathlib
import FilterQuery.Proofs.Filter.Accepted
import FilterQuery.Proofs.Filter.Stop

/-!
# Which errors a text can have

Tokens made by hand may pair any kind with any text, and reading them may fail
on an operator or a comparator that is none. The tokens of a text are legal, and
of the legal ones only the comparators `!` and `==` mean nothing
(`Token.Legal.ofString?_eq_none`). `parse_error_vocabulary` draws the conclusion
for the errors of a text.

A comparator is refused one token after it was read, so what is said about a
refused token has to be known of the tokens of the pending predicate as well
(`Builder.exists_refusal`).
-/

namespace FilterQuery

variable {fields : AllowList} {text : String} {t : Token} {ts us : List Token} {word : String}
  {e : ParseError}

-- ---------------------------------------------------------------------------
-- Legal tokens
-- ---------------------------------------------------------------------------

theorem Lexer.legal_of_mem_tokens {text : List Char}
    (ht : t ∈ (Lexer.mk fields text false).tokens) (he : t.isError = false) : t.Legal fields := by
  induction hn : text.length using Nat.strongRecOn generalizing text with
  | ind n ih =>
    cases hs : Token.scan fields text with
    | none =>
      rw [Lexer.tokens_of_scan_none hs] at ht
      cases ht
    | some r =>
      obtain ⟨u, rest⟩ := r
      rw [Lexer.tokens_of_scan_some hs] at ht
      have hlt : rest.length < n := hn ▸ Token.length_scan hs
      cases hu : u.isError with
      | true =>
        rw [hu, Lexer.tokens_of_halted, List.mem_singleton] at ht
        rw [ht, hu] at he
        cases he
      | false =>
        rw [hu] at ht
        rcases List.mem_cons.1 ht with rfl | ht
        · obtain ⟨blanks, body, -, -, hbegins⟩ := Token.begins_of_scan hs hu
          exact hbegins.legal
        · exact ih rest.length hlt ht rfl

theorem BoolOp.ofString?_of_toLower {op : BoolOp}
    (h : word.toList.map Char.toLower = op.symbol.toList.map Char.toLower) :
    BoolOp.ofString? word = some op := by
  have hne : ∀ signs : String, signs.toList.map Char.toLower ≠ op.symbol.toList.map Char.toLower →
      word ≠ signs := by
    rintro signs hsigns rfl
    exact hsigns h
  rw [ofString?, if_neg (hne "&&" (by cases op <;> decide)),
    if_neg (hne "||" (by cases op <;> decide)), ofWord?, h]
  cases op <;> rfl

theorem Token.Legal.operator_cases (h : t.Legal fields) (hk : t.kind = .operator) :
    (BoolOp.ofString? t.text = some .and ∧
      (t.text = "&&" ∨ t.text.toList.map Char.toLower = "and".toList)) ∨
    (BoolOp.ofString? t.text = some .or ∧
      (t.text = "||" ∨ t.text.toList.map Char.toLower = "or".toList)) := by
  cases h with
  | signs hc =>
    simp only [List.mem_cons, List.not_mem_nil, or_false] at hc
    rcases hc with rfl | rfl
    · exact .inl ⟨rfl, .inl rfl⟩
    · exact .inr ⟨rfl, .inl rfl⟩
  | keyword hr =>
    rcases isReserved_iff.1 hr with hand | hor
    · exact .inl ⟨BoolOp.ofString?_of_toLower hand, .inr hand⟩
    · exact .inr ⟨BoolOp.ofString?_of_toLower hor, .inr hor⟩
  | openGroup => cases hk
  | closeGroup => cases hk
  | comparator => cases hk
  | comparatorEq => cases hk
  | literal => cases hk
  | field => cases hk

theorem Token.Legal.comparator_mem (h : t.Legal fields) (hk : t.kind = .comparator) :
    t.text ∈ ["<", ">", "=", "!", "<=", ">=", "==", "!="] := by
  cases h with
  | comparator hc =>
    simp only [List.mem_cons, List.not_mem_nil, or_false] at hc
    rcases hc with rfl | rfl | rfl | rfl <;> decide
  | comparatorEq hc =>
    simp only [List.mem_cons, List.not_mem_nil, or_false] at hc
    rcases hc with rfl | rfl | rfl | rfl <;> decide
  | openGroup => cases hk
  | closeGroup => cases hk
  | signs => cases hk
  | keyword => cases hk
  | literal => cases hk
  | field => cases hk

theorem Token.Legal.ofString?_eq_none (h : t.Legal fields) (hk : t.kind = .comparator)
    (hnone : Comparator.ofString? t.text = none) : t.text = "!" ∨ t.text = "==" := by
  have hall : ∀ s ∈ ["<", ">", "=", "!", "<=", ">=", "==", "!="],
      Comparator.ofString? s = none → s = "!" ∨ s = "==" := by decide
  exact hall t.text (h.comparator_mem hk) hnone

-- ---------------------------------------------------------------------------
-- Refused tokens
-- ---------------------------------------------------------------------------

namespace Builder

/-- An error that is not one of the end is about a token of the list, and the
tokens that waited for it are of the list too. -/
theorem exists_refusal (h : Filter.ofTokens ts = .error e) (he : e.atEnd = false) :
    ∃ b, ∃ t ∈ ts, Refusal maxDepth b t e ∧ ∀ u ∈ b.pending.tokens, u ∈ ts := by
  rw [Filter.ofTokens_eq_result] at h
  cases outcome maxDepth {} ts with
  | taken hf =>
    rw [atEnd_of_result hf h] at he
    cases he
  | @refused us vs t b e' hf hr =>
    cases h.symm.trans (result_of_refused hf hr)
    obtain ⟨before, htaken, -⟩ := (taken_nil.feed hf).opened
    rw [List.nil_append] at htaken
    have hpending : ∀ u ∈ b.pending.tokens, u ∈ us :=
      fun u hu => htaken ▸ List.mem_append_right before hu
    exact ⟨b, t, by simp, refusal_of_step_eq hr,
      fun u hu => List.mem_append_left _ (hpending u hu)⟩

end Builder

theorem comparator_of_ofTokens_eq_error {first second third : Token}
    (h : Predicate.ofTokens first second third = .error (.unknownComparator word)) :
    second.kind = .comparator ∧ Comparator.ofString? second.text = none ∧ second.text = word := by
  unfold Predicate.ofTokens Predicate.ofTokens.compare at h
  repeat' split at h
  all_goals cases h
  all_goals exact ⟨by assumption, by assumption, rfl⟩

-- ---------------------------------------------------------------------------
-- Texts
-- ---------------------------------------------------------------------------

/-- Whatever is scanned as an operator is read as one, and so is every
comparator but `!` and `==`. So no operator of a text is unknown, no other
comparator is, and only a comparator can stand where none is expected; and no
field is a reserved word. -/
theorem parse_error_vocabulary (text : String) (fields : AllowList) :
    (∀ word, parse text fields ≠ .error (.unknownOperator word)) ∧
    (∀ sign, parse text fields = .error (.unknownComparator sign) → sign = "!" ∨ sign = "==") ∧
    (∀ t, parse text fields = .error (.unexpectedToken t) →
      t ∈ (Lexer.ofString fields text).tokens ∧ t.kind = .comparator) ∧
    (∀ f, parse text fields = .ok f → ∀ p ∈ f.predicates, p.field ∉ fields.reserved) ∧
    (∀ t ∈ (Lexer.ofString fields text).tokens, t.kind = .operator →
      (BoolOp.ofString? t.text = some .and ∧
        (t.text = "&&" ∨ t.text.toList.map Char.toLower = "and".toList)) ∨
      (BoolOp.ofString? t.text = some .or ∧
        (t.text = "||" ∨ t.text.toList.map Char.toLower = "or".toList))) ∧
    ∀ t ∈ (Lexer.ofString fields text).tokens, t.kind = .comparator →
      t.text ≠ "!" → t.text ≠ "==" →
      ∃ c, Comparator.ofString? t.text = some c ∧ c.symbol = t.text := by
  have hlegal : ∀ t ∈ (Lexer.ofString fields text).tokens, ∀ k, t.kind = k → k ≠ .error →
      t.Legal fields :=
    fun t ht k hk hne => Lexer.legal_of_mem_tokens ht (decide_eq_false (hk ▸ hne))
  simp only [parse_eq_ofTokens]
  refine ⟨fun word h => ?_, fun sign h => ?_, fun t h => ?_, fun f h p hp hmem => ?_,
    fun t ht hk => ?_, fun t ht hk hbang hequals => ?_⟩
  · obtain ⟨b, t, ht, hrefusal, -⟩ := Builder.exists_refusal h rfl
    cases hrefusal with
    | unknownOperator hk hnone =>
      rcases (hlegal t ht _ hk (by decide)).operator_cases hk with ⟨hsome, -⟩ | ⟨hsome, -⟩
      · cases hnone.symm.trans hsome
      · cases hnone.symm.trans hsome
  · obtain ⟨b, t, ht, hrefusal, hpending⟩ := Builder.exists_refusal h rfl
    cases hrefusal with
    | @unknownComparator level outer depth first second _ _ herror =>
      obtain ⟨hk, hnone, -⟩ := comparator_of_ofTokens_eq_error herror
      have hsecond := hpending second (List.mem_cons_of_mem _ (List.mem_singleton_self _))
      exact (hlegal second hsecond _ hk (by decide)).ofString?_eq_none hk hnone
  · obtain ⟨b, u, hu, hrefusal, -⟩ := Builder.exists_refusal h rfl
    cases hrefusal with
    | unexpectedToken hk => exact ⟨hu, hk⟩
  · have hname := (predicates_legal_of_parse ((parse_eq_ofTokens text fields).trans h) p hp).field
    have hreserved : isReserved p.field = true := (List.mem_filter.1 hmem).2
    rw [hname.not_reserved] at hreserved
    cases hreserved
  · exact (hlegal t ht _ hk (by decide)).operator_cases hk
  · cases hc : Comparator.ofString? t.text with
    | some c => exact ⟨c, rfl, Comparator.symbol_of_ofString? hc⟩
    | none =>
      rcases (hlegal t ht _ hk (by decide)).ofString?_eq_none hk hc with h | h
      · exact absurd h hbang
      · exact absurd h hequals

/-- A comparator that means nothing is noticed behind a word that is allowed but
reserved, and one that stands alone is named; the words around them are read in
any case. -/
theorem parse_error_vocabulary_signs :
    let fields := AllowList.ofList ["a", "oR"]
    (parse "oR && (a == \"1\")" fields = .error (.unknownComparator "==") ∧
      ("==" = "!" ∨ "==" = "==")) ∧
    (parse "|| <= a" fields = .error (.unexpectedToken ⟨.comparator, "<="⟩) ∧
      ⟨.comparator, "<="⟩ ∈ (Lexer.ofString fields "|| <= a").tokens) ∧
    (parse "a=\"1\"oR(\"2\"<a)" fields =
        .ok (.group .or [.predicate ⟨"a", .eq, "1"⟩, .group .and [.predicate ⟨"a", .lt, "2"⟩]]) ∧
      "a" ∉ fields.reserved) := by
  intro fields
  have hunknown : parse "oR && (a == \"1\")" fields = .error (.unknownComparator "==") := by cbv
  have hunexpected : parse "|| <= a" fields = .error (.unexpectedToken ⟨.comparator, "<="⟩) := by
    cbv
  have hread : parse "a=\"1\"oR(\"2\"<a)" fields =
      .ok (.group .or [.predicate ⟨"a", .eq, "1"⟩, .group .and [.predicate ⟨"a", .lt, "2"⟩]]) := by
    cbv
  refine ⟨⟨hunknown, (parse_error_vocabulary _ fields).2.1 _ hunknown⟩,
    ⟨hunexpected, ((parse_error_vocabulary _ fields).2.2.1 _ hunexpected).1⟩, hread, ?_⟩
  exact (parse_error_vocabulary _ fields).2.2.2.1 _ hread ⟨"a", .eq, "1"⟩ List.mem_cons_self

end FilterQuery
