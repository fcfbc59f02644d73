import FilterQuery.Proofs.Filter.Stop

/-!
# Errors are final

As long as no token has been refused, only the end of the tokens can make a
reading fail, and more tokens may mend that (`Unsettled`). The first token that
is refused settles the error, whatever stands behind it, and an error token is
refused everywhere. So a lexical error is reported exactly when nothing before
it was refused (`errors_settled_at_token`).
-/

namespace FilterQuery.Filter

/-- Reading the tokens gives a filter or an error of the end. -/
def Unsettled (ts : List Token) : Prop :=
  ∀ e, ofTokens ts = .error e → e.atEnd = true

variable {ts us vs : List Token} {t : Token} {e : ParseError} {f : Filter}

theorem unsettled_iff : Unsettled ts ↔ ∃ b, Builder.feed maxDepth {} ts = .ok b := by
  constructor
  · intro h
    cases Builder.outcome maxDepth {} ts with
    | taken hf => exact ⟨_, hf⟩
    | refused hf he =>
      have hend := h _ ((ofTokens_eq_result _).trans (Builder.result_of_refused hf he))
      rw [Builder.atEnd_of_step he] at hend
      cases hend
  · rintro ⟨b, hf⟩ e he
    rw [ofTokens_eq_result] at he
    exact Builder.atEnd_of_result hf he

theorem Unsettled.of_append (h : Unsettled (ts ++ us)) : Unsettled ts := by
  obtain ⟨b, hb⟩ := unsettled_iff.1 h
  exact unsettled_iff.2 (Builder.feed_eq_ok_of_append hb)

theorem unsettled_of_ok (h : ofTokens ts = .ok f) : Unsettled ts := by
  intro e he
  cases h.symm.trans he

theorem Unsettled.ofTokens_error (h : Unsettled ts) (m : String) (us : List Token) :
    ofTokens (ts ++ ⟨.error, m⟩ :: us) = .error (.lexical m) := by
  obtain ⟨b, hb⟩ := unsettled_iff.1 h
  rw [ofTokens_eq_result]
  exact Builder.result_of_refused hb (Builder.Refusal.lexical rfl).step_eq

theorem exists_refused (h : ofTokens ts = .error e) (he : e.atEnd = false) :
    ∃ us t vs, ts = us ++ t :: vs ∧ Unsettled us ∧
      (∀ ws, ofTokens (us ++ t :: ws) = .error e) ∧ ∀ m, e = .lexical m → t = ⟨.error, m⟩ := by
  cases Builder.outcome maxDepth {} ts with
  | taken hf =>
    have hend := unsettled_iff.2 ⟨_, hf⟩ e h
    rw [he] at hend
    cases hend
  | @refused us vs t b e' hf hr =>
    have hsame (ws : List Token) : ofTokens (us ++ t :: ws) = .error e' :=
      (ofTokens_eq_result _).trans (Builder.result_of_refused hf hr)
    cases h.symm.trans (hsame vs)
    refine ⟨us, t, vs, rfl, unsettled_iff.2 ⟨b, hf⟩, hsame, ?_⟩
    rintro m rfl
    cases Builder.refusal_of_step_eq hr with
    | lexical hk => exact hk ▸ rfl

theorem ofTokens_eq_lexical_iff {m : String} : ofTokens ts = .error (.lexical m) ↔
    ∃ us vs, ts = us ++ ⟨.error, m⟩ :: vs ∧ Unsettled us := by
  constructor
  · intro h
    obtain ⟨us, t, vs, rfl, hus, -, ht⟩ := exists_refused h rfl
    exact ⟨us, vs, ht m rfl ▸ rfl, hus⟩
  · rintro ⟨us, vs, rfl, hus⟩
    exact hus.ofTokens_error m vs

theorem exists_error_of_mem (ht : t ∈ ts) (hk : t.isError = true) :
    ∃ e, ofTokens ts = .error e := by
  obtain ⟨us, vs, rfl⟩ := List.append_of_mem ht
  obtain ⟨kind, text⟩ := t
  obtain rfl : kind = .error := of_decide_eq_true hk
  cases h : ofTokens (us ++ ⟨.error, text⟩ :: vs) with
  | error e => exact ⟨e, rfl⟩
  | ok f =>
    have herror := (unsettled_of_ok h).of_append.ofTokens_error text vs
    cases h.symm.trans herror

/-- An error that is not one of the end of the tokens is settled by some first
token, and neither is it there before that token nor do later tokens change it.
An error token behind tokens that settle nothing is what is reported; those are
all the lexical errors there are, and no filter is read past an error token. -/
theorem errors_settled_at_token (ts : List Token) :
    (∀ e, ofTokens ts = .error e → e.atEnd = false →
      ∃ k, 1 ≤ k ∧ k ≤ ts.length ∧ (∀ us, ofTokens (ts.take k ++ us) = .error e) ∧
        ∀ j < k, Unsettled (ts.take j)) ∧
    (Unsettled ts → ∀ m us, ofTokens (ts ++ [⟨.error, m⟩] ++ us) = .error (.lexical m)) ∧
    (∀ m, ofTokens ts = .error (.lexical m) ↔
      ∃ us vs, ts = us ++ [⟨.error, m⟩] ++ vs ∧ Unsettled us) ∧
    ((∃ t ∈ ts, t.isError = true) → ∃ e, ofTokens ts = .error e) := by
  refine ⟨fun e h he => ?_, fun h m us => ?_, fun m => ?_, ?_⟩
  · obtain ⟨us, t, vs, rfl, hus, hsame, -⟩ := exists_refused h he
    refine ⟨us.length + 1, by omega, by simp, fun ws => ?_, fun j hj => ?_⟩
    · rw [List.take_length_add_append, List.append_assoc]
      exact hsame ws
    · rw [List.take_append_of_le_length (Nat.le_of_lt_succ hj)]
      rw [← List.take_append_drop j us] at hus
      exact hus.of_append
  · rw [List.append_assoc]
    exact h.ofTokens_error m us
  · simp only [List.append_assoc]
    exact ofTokens_eq_lexical_iff
  · rintro ⟨t, ht, hk⟩
    exact exists_error_of_mem ht hk

/-- An empty group is settled by its closing parenthesis, which is the second
token; and an error inside a predicate in a group that is still open is
reported, whatever comes after it. -/
theorem errors_settled_at_token_inside :
    (∃ k, 1 ≤ k ∧ k ≤ 3 ∧
      (∀ us, ofTokens ([⟨.openGroup, "("⟩, ⟨.closeGroup, ")"⟩, ⟨.field, "a"⟩].take k ++ us) =
        .error .emptyGroup) ∧
      ∀ j < k, Unsettled ([⟨.openGroup, "("⟩, ⟨.closeGroup, ")"⟩, ⟨.field, "a"⟩].take j)) ∧
    ofTokens ([⟨.openGroup, "("⟩, ⟨.field, "a"⟩] ++ [⟨.error, "boom"⟩] ++ [⟨.closeGroup, ")"⟩]) =
      .error (.lexical "boom") := by
  constructor
  · have hempty : ofTokens [⟨.openGroup, "("⟩, ⟨.closeGroup, ")"⟩, ⟨.field, "a"⟩] =
        .error .emptyGroup := (ofTokens_eq_result _).trans rfl
    exact (errors_settled_at_token _).1 _ hempty rfl
  · have hopen : Unsettled [⟨.openGroup, "("⟩, ⟨.field, "a"⟩] := unsettled_iff.2 ⟨_, rfl⟩
    exact (errors_settled_at_token _).2.1 hopen _ _

end FilterQuery.Filter
