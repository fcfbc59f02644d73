import FilterQuery.Proofs.Filter.Stop
import FilterQuery.Session

/-!
# Sessions as a cursor over the tokens

Taking tokens and filters in turns from one lexer is moving a cursor over the
list of all its tokens (`run_eq_cursor`). A step that reads a filter is answered
from the tokens behind the cursor alone, and `Filter.taken` says how far it
moves, so no token is skipped, read twice or read ahead.

The events that are reported on the way are left out.
-/

namespace FilterQuery.Session

/-- A cursor at `i` in a list of tokens: the answer to a step, and where the
cursor stands after it. -/
def cursorStep (ts : List Token) (i : Nat) : Step → Answer × Nat
  | .next => (.token ts[i]?, min (i + 1) ts.length)
  | .parse => (.filter (Filter.ofTokens (ts.drop i)), i + Filter.taken (ts.drop i))

def cursorRun (ts : List Token) (i : Nat) : List Step → List Answer
  | [] => []
  | first :: steps => (cursorStep ts i first).1 :: cursorRun ts (cursorStep ts i first).2 steps

variable {σ : Type} [TokenSource σ] {s : σ} {ts : List Token} {i : Nat}

/-- The source still has the tokens behind a cursor at `i`. -/
structure At (ts : List Token) (i : Nat) (s : σ) : Prop where
  drain_eq : (TokenSource.drain s).value.1 = ts.drop i
  le_length : i ≤ ts.length

theorem At.next (h : At ts i s) :
    (step s .next).value.1 = (cursorStep ts i .next).1 ∧
      At ts (cursorStep ts i .next).2 (step s .next).value.2 := by
  obtain ⟨hdrain, hle⟩ := h
  simp only [step, cursorStep, TokenSource.pull, Traced.value_bind, Traced.value_pure]
  cases hs : TokenSource.next? s with
  | none =>
    rw [TokenSource.drain_of_none hs] at hdrain
    have hend : ts.length ≤ i := List.drop_eq_nil_iff.1 hdrain.symm
    have hi : i = ts.length := Nat.le_antisymm hle hend
    subst hi
    refine ⟨?_, ?_, Nat.min_le_right _ _⟩
    · simp
    · rw [TokenSource.drain_of_none hs]
      simp
  | some r =>
    obtain ⟨t, s'⟩ := r
    rw [TokenSource.drain_of_some hs] at hdrain
    have hi : i < ts.length := by
      refine Nat.lt_of_not_le fun hend => ?_
      rw [List.drop_eq_nil_of_le hend] at hdrain
      cases hdrain
    rw [List.drop_eq_getElem_cons hi] at hdrain
    obtain ⟨rfl, htail⟩ := List.cons.inj hdrain
    refine ⟨?_, ?_, Nat.min_le_right _ _⟩
    · simp [hi]
    · rw [Nat.min_eq_left hi]
      exact htail

theorem At.parse (h : At ts i s) :
    (step s .parse).value.1 = (cursorStep ts i .parse).1 ∧
      At ts (cursorStep ts i .parse).2 (step s .parse).value.2 := by
  obtain ⟨hdrain, hle⟩ := h
  simp only [step, cursorStep, Parser.read]
  refine ⟨?_, ?_, ?_⟩
  · rw [Builder.result_run, hdrain, Filter.ofTokens_eq_result]
  · rw [Builder.drain_source_run, hdrain, Filter.unread_eq_drop, List.drop_drop]
  · have htaken := Filter.taken_le_length (ts.drop i)
    rw [List.length_drop] at htaken
    omega

theorem At.step (h : At ts i s) (first : Step) :
    (Session.step s first).value.1 = (cursorStep ts i first).1 ∧
      At ts (cursorStep ts i first).2 (Session.step s first).value.2 := by
  cases first with
  | next => exact h.next
  | parse => exact h.parse

theorem At.run (h : At ts i s) (steps : List Step) :
    (Session.run s steps).value = cursorRun ts i steps := by
  induction steps generalizing s i with
  | nil => rfl
  | cons first steps ih =>
    obtain ⟨hanswer, hat⟩ := h.step first
    simp only [Session.run, cursorRun, Traced.value_bind, Traced.value_pure, hanswer, ih hat]

theorem at_zero (s : σ) : At (TokenSource.drain s).value.1 0 s :=
  ⟨rfl, Nat.zero_le _⟩

/-- Taking tokens and filters in turns from a lexer gives what a cursor over
the list of all its tokens gives, in whatever order they are asked for. Reading
the whole text is reading the list of its tokens. -/
theorem run_eq_cursor (text : String) (fields : AllowList) (steps : List Step) :
    (Session.run (Lexer.ofString fields text) steps).value =
        cursorRun (Lexer.ofString fields text).tokens 0 steps ∧
      parse text fields = Filter.ofTokens (Lexer.ofString fields text).tokens :=
  ⟨(at_zero _).run steps, parse_eq_ofTokens text fields⟩

end FilterQuery.Session
