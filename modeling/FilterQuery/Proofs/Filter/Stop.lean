import FilterQuery.Proofs.Filter.Feed

/-!
# Where a reading stops

A token is refused as soon as it is read, and what the end of the tokens makes
of a builder is decided only there. So a reading either takes all tokens, and
then gives a filter or an error of the end (`ParseError.atEnd`), or it stops
right behind the first token that is refused, with another error
(`Builder.outcome`).

`Filter.taken` says how many tokens a reading takes without looking into it,
only by what reading shorter lists gives; `Builder.unread_eq_drop` says that
this is where the source stands afterwards.
-/

namespace FilterQuery

def ParseError.atEnd : ParseError → Bool
  | .unexpectedEnd | .unclosedGroup | .emptyFilter => true
  | _ => false

def Filter.failure? (ts : List Token) : Option ParseError :=
  match Filter.ofTokens ts with
  | .ok _ => none
  | .error e => some e

/-- How many tokens are taken when a list of them is read as a filter: all, if
it takes the end of the tokens to decide, and otherwise the fewest on which
reading fails in the same way. -/
def Filter.taken (ts : List Token) : Nat :=
  match failure? ts with
  | none => ts.length
  | some e =>
    if e.atEnd then ts.length
    else ((List.range (ts.length + 1)).find? fun n => failure? (ts.take n) = some e).getD ts.length

def Builder.unread (limit : Nat) (b : Builder) : List Token → List Token
  | [] => []
  | t :: ts =>
    match b.step limit t with
    | .error _ => ts
    | .ok b' => b'.unread limit ts

namespace Builder

variable {limit : Nat} {b b' : Builder} {t : Token} {ts us vs : List Token} {e : ParseError}

-- ---------------------------------------------------------------------------
-- Errors of a token and errors of the end
-- ---------------------------------------------------------------------------

theorem atEnd_of_step (h : b.step limit t = .error e) : e.atEnd = false := by
  cases refusal_of_step_eq h <;> rfl

theorem atEnd_of_finish (h : b.finish = .error e) : e.atEnd = true := by
  cases unfinished_of_finish_eq h <;> rfl

-- ---------------------------------------------------------------------------
-- Taking all tokens, or stopping at one
-- ---------------------------------------------------------------------------

inductive Outcome (limit : Nat) (b : Builder) : List Token → Prop
  | taken {ts : List Token} {b' : Builder} : b.feed limit ts = .ok b' → Outcome limit b ts
  | refused {us vs : List Token} {t : Token} {b' : Builder} {e : ParseError} :
      b.feed limit us = .ok b' → b'.step limit t = .error e → Outcome limit b (us ++ t :: vs)

theorem outcome (limit : Nat) (b : Builder) (ts : List Token) : Outcome limit b ts := by
  induction ts generalizing b with
  | nil => exact .taken rfl
  | cons t ts ih =>
    cases hs : b.step limit t with
    | error e => exact @Outcome.refused limit b [] ts t b e rfl hs
    | ok c =>
      cases ih c with
      | taken hf => exact .taken ((feed_cons_of_step hs).trans hf)
      | @refused us vs u d e hf he =>
        exact @Outcome.refused limit b (t :: us) vs u d e ((feed_cons_of_step hs).trans hf) he

theorem feed_eq_ok_of_append (h : b.feed limit (ts ++ us) = .ok b') :
    ∃ c, b.feed limit ts = .ok c := by
  rw [feed_append] at h
  obtain ⟨c, hc, -⟩ := Json.bind_eq_ok.1 h
  exact ⟨c, hc⟩

theorem result_of_refused (hf : b.feed limit us = .ok b') (he : b'.step limit t = .error e) :
    b.result limit (us ++ t :: vs) = .error e := by
  refine result_of_feed_error ?_
  rw [feed_append_of_ok hf]
  exact feed_cons_of_error he

theorem result_of_feed_ok (hf : b.feed limit ts = .ok b') :
    b.result limit ts = b'.finish.map Level.root := by
  rw [result, hf]
  rfl

theorem atEnd_of_result (hf : b.feed limit ts = .ok b') (he : b.result limit ts = .error e) :
    e.atEnd = true := by
  rw [result_of_feed_ok hf] at he
  cases hr : b'.finish with
  | ok level =>
    rw [hr] at he
    cases he
  | error e' =>
    rw [hr] at he
    cases he
    exact atEnd_of_finish hr

-- ---------------------------------------------------------------------------
-- What is left unread
-- ---------------------------------------------------------------------------

theorem unread_cons_of_error (h : b.step limit t = .error e) : b.unread limit (t :: ts) = ts := by
  simp [unread, h]

theorem unread_cons_of_step (h : b.step limit t = .ok b') :
    b.unread limit (t :: ts) = b'.unread limit ts := by
  simp [unread, h]

theorem unread_append_of_ok (h : b.feed limit ts = .ok b') :
    b.unread limit (ts ++ us) = b'.unread limit us := by
  induction ts generalizing b with
  | nil =>
    cases h
    rfl
  | cons t ts ih =>
    cases hs : b.step limit t with
    | error e =>
      rw [feed_cons_of_error hs] at h
      cases h
    | ok c =>
      rw [feed_cons_of_step hs] at h
      rw [List.cons_append, unread_cons_of_step hs, ih h]

theorem unread_of_feed_ok (h : b.feed limit ts = .ok b') : b.unread limit ts = [] := by
  rw [← List.append_nil ts, unread_append_of_ok h]
  rfl

theorem source_conclude {σ : Type} [TokenSource σ] (b : Builder) (s : σ) :
    (b.conclude s).parser.source = s := by
  unfold conclude
  split <;> rfl

theorem drain_source_run {σ : Type} [TokenSource σ] (limit : Nat) (b : Builder) (s : σ) :
    (TokenSource.drain (b.run limit s).parser.source).value.1 =
      b.unread limit (TokenSource.drain s).value.1 := by
  induction b, s using @run_induct σ _ limit with
  | dry b s hs =>
    rw [run_of_none hs, source_conclude, TokenSource.drain_of_none hs]
    rfl
  | refused b s t s' e hs hb =>
    rw [run_of_error hs hb, TokenSource.drain_of_some hs, unread_cons_of_error hb]
  | taken b s t s' b' hs hb ih =>
    rw [run_of_ok hs hb, TokenSource.drain_of_some hs, unread_cons_of_step hb, ih]

end Builder

namespace Filter

variable {ts us vs : List Token} {t : Token} {b : Builder} {e : ParseError}

theorem failure?_eq_some_iff : failure? ts = some e ↔ ofTokens ts = .error e := by
  unfold failure?
  cases ofTokens ts <;> simp

theorem atEnd_of_failure? (hf : Builder.feed maxDepth {} ts = .ok b) (he : failure? ts = some e) :
    e.atEnd = true := by
  rw [failure?_eq_some_iff, ofTokens_eq_result] at he
  exact Builder.atEnd_of_result hf he

theorem taken_of_feed_ok (hf : Builder.feed maxDepth {} ts = .ok b) : taken ts = ts.length := by
  unfold taken
  split
  · rfl
  · rename_i e he
    rw [if_pos (atEnd_of_failure? hf he)]

theorem taken_of_refused (hf : Builder.feed maxDepth {} us = .ok b)
    (he : b.step maxDepth t = .error e) : taken (us ++ t :: vs) = us.length + 1 := by
  have hfail (ws : List Token) : failure? (us ++ t :: ws) = some e := by
    rw [failure?_eq_some_iff, ofTokens_eq_result, Builder.result_of_refused hf he]
  -- With the refused token the error is there; without it only the end could fail.
  have hfirst : (List.range ((us ++ t :: vs).length + 1)).find?
      (fun n => failure? ((us ++ t :: vs).take n) = some e) = some (us.length + 1) := by
    refine List.find?_range_eq_some.2 ⟨?_, ?_, ?_⟩
    · have htake : (us ++ t :: vs).take (us.length + 1) = us ++ [t] := by
        rw [List.take_length_add_append]
        rfl
      rw [htake]
      exact decide_eq_true (hfail [])
    · simp
    · intro n hn
      have htake : (us ++ t :: vs).take n = us.take n :=
        List.take_append_of_le_length (Nat.le_of_lt_succ hn)
      have hprefix : Builder.feed maxDepth {} (us.take n ++ us.drop n) = .ok b := by
        rw [List.take_append_drop]
        exact hf
      obtain ⟨c, hc⟩ := Builder.feed_eq_ok_of_append hprefix
      simp only [htake, Bool.not_eq_true', decide_eq_false_iff_not]
      intro hn
      have hend := atEnd_of_failure? hc hn
      rw [Builder.atEnd_of_step he] at hend
      cases hend
  simp only [taken, hfail vs, Builder.atEnd_of_step he, hfirst]
  rfl

theorem unread_eq_drop (ts : List Token) :
    Builder.unread maxDepth {} ts = ts.drop (taken ts) := by
  cases Builder.outcome maxDepth {} ts with
  | taken hf =>
    rw [taken_of_feed_ok hf, List.drop_length]
    exact Builder.unread_of_feed_ok hf
  | @refused us vs t b e hf he =>
    rw [taken_of_refused hf he, Builder.unread_append_of_ok hf, Builder.unread_cons_of_error he,
      List.drop_length_add_append]
    rfl

theorem taken_le_length (ts : List Token) : taken ts ≤ ts.length := by
  cases Builder.outcome maxDepth {} ts with
  | taken hf => exact Nat.le_of_eq (taken_of_feed_ok hf)
  | refused hf he =>
    rw [taken_of_refused hf he]
    simp

end Filter

end FilterQuery
