import FilterQuery.Proofs.Numbering

/-!
# Runs of question marks

Question marks are paired from the left, so what becomes of a run of them hangs
on its length alone: each pair is a question mark, and one that is left over is
a placeholder. `number_eq_parts` says this of a whole text, cut into its maximal
runs of question marks and the stretches between them.

`parts_induct` is induction along these parts.
-/

namespace FilterQuery.Placeholder

def isMark (c : Char) : Bool :=
  c = '?'

/-- The maximal runs of question marks in a text and the stretches between
them, from left to right. -/
def parts (text : List Char) : List (List Char) :=
  text.splitBy fun c d => isMark c == isMark d

def isRun (part : List Char) : Bool :=
  part.head?.any isMark

def runs (text : List Char) : List Nat :=
  ((parts text).filter isRun).map List.length

def isOddRun (part : List Char) : Bool :=
  isRun part && part.length % 2 = 1

/-- A run of `m` question marks, with `before` runs of odd length to its left. -/
def numberRun (style : Style) (before m : Nat) : List Char :=
  List.replicate (m / 2) '?' ++ if m % 2 = 1 then (style.marker (before + 1)).toList else []

def numberPart (style : Style) (before : Nat) (part : List Char) : List Char :=
  if isRun part then numberRun style before part.length else part

variable {style : Style} {used m : Nat} {text rest stretch : List Char} {c : Char}

-- ---------------------------------------------------------------------------
-- Parts of a text
-- ---------------------------------------------------------------------------

theorem isMark_eq_false_iff : isMark c = false ↔ c ≠ '?' := by
  simp [isMark]

theorem stops_isMark_iff : Text.Stops isMark text ↔ text.head? ≠ some '?' := by
  cases text with
  | nil => simp
  | cons c text => simp [isMark]

theorem isRun_replicate (hm : m ≠ 0) : isRun (List.replicate m '?') = true := by
  simp [isRun, List.head?_replicate, hm, isMark]

theorem isRun_of_not_mem (h : '?' ∉ stretch) : isRun stretch = false := by
  cases stretch with
  | nil => rfl
  | cons c stretch =>
    have hc : c ≠ '?' := fun he => h (he ▸ List.mem_cons_self)
    simp [isRun, isMark, hc]

theorem parts_append {part : List Char} {b : Bool} (hne : part ≠ [])
    (hpart : ∀ c ∈ part, isMark c = b) (hrest : ∀ c ∈ rest.head?, isMark c = !b) :
    parts (part ++ rest) = part :: parts rest := by
  have hchain : part.IsChain fun c d => (isMark c == isMark d) = true := by
    refine List.Pairwise.isChain ?_
    refine List.pairwise_of_forall_mem_list fun c hc d hd => ?_
    simp [hpart c hc, hpart d hd]
  have hlast : ∀ c ∈ part.getLast?, ∀ d ∈ rest.head?, (isMark c == isMark d) = false := by
    intro c hc d hd
    rw [hpart c (List.mem_of_mem_getLast? hc), hrest d hd]
    simp
  rw [parts, List.splitBy_append hlast, List.splitBy_of_isChain hne hchain]
  rfl

theorem parts_run (hm : m ≠ 0) (hrest : Text.Stops isMark rest) :
    parts (List.replicate m '?' ++ rest) = List.replicate m '?' :: parts rest := by
  refine parts_append (b := true) ?_ ?_ hrest
  · simpa using hm
  · intro c hc
    rw [List.eq_of_mem_replicate hc]
    rfl

theorem parts_stretch (hne : stretch ≠ []) (hstretch : '?' ∉ stretch)
    (hrest : Text.Stops (fun c => !isMark c) rest) :
    parts (stretch ++ rest) = stretch :: parts rest := by
  refine parts_append (b := false) hne ?_ ?_
  · intro c hc
    exact isMark_eq_false_iff.2 fun he => hstretch (he ▸ hc)
  · intro c hc
    simpa using hrest c hc

@[elab_as_elim]
theorem parts_induct {motive : List Char → Prop} (nil : motive [])
    (stretch : ∀ stretch rest, stretch ≠ [] → '?' ∉ stretch →
      Text.Stops (fun c => !isMark c) rest → motive rest → motive (stretch ++ rest))
    (run : ∀ m rest, m ≠ 0 → Text.Stops isMark rest → motive rest →
      motive (List.replicate m '?' ++ rest))
    (text : List Char) : motive text := by
  induction hn : text.length using Nat.strongRecOn generalizing text with
  | ind n ih =>
    cases text with
    | nil => exact nil
    | cons c text =>
      -- The first part goes as far as the characters are of the kind of the first one.
      obtain ⟨part, rest, htext, hpart, hrest⟩ :=
        Text.exists_run (fun d => isMark d == isMark c) (c :: text)
      have hne : part ≠ [] := by
        rintro rfl
        rw [List.nil_append] at htext
        subst htext
        simp at hrest
      have hlt : rest.length < n := by
        have hlength := congrArg List.length htext
        have hpos := List.length_pos_iff.2 hne
        rw [List.length_append] at hlength
        omega
      have hih : motive rest := ih rest.length hlt rest rfl
      rw [htext]
      cases hc : isMark c with
      | true =>
        simp only [hc, beq_true] at hpart hrest
        have hmarks : part = List.replicate part.length '?' :=
          List.eq_replicate_of_mem fun d hd => of_decide_eq_true (List.all_eq_true.1 hpart d hd)
        rw [hmarks]
        exact run part.length rest (by simpa using hne) hrest hih
      | false =>
        simp only [hc, beq_false] at hpart hrest
        exact stretch part rest hne (Text.not_mem_of_all hpart rfl) hrest hih

theorem runs_run (hm : m ≠ 0) (hrest : Text.Stops isMark rest) :
    runs (List.replicate m '?' ++ rest) = m :: runs rest := by
  simp [runs, parts_run hm hrest, isRun_replicate hm]

theorem runs_stretch (hstretch : '?' ∉ stretch) : runs (stretch ++ rest) = runs rest := by
  have hlong (s t : List Char) (hs : '?' ∉ s) (ht : Text.Stops (fun c => !isMark c) t) :
      runs (s ++ t) = runs t := by
    by_cases hne : s = []
    · rw [hne, List.nil_append]
    · simp [runs, parts_stretch hne hs ht, isRun_of_not_mem hs]
  -- The stretch may go on into the rest, up to its first question mark.
  obtain ⟨more, after, rfl, hmore, hafter⟩ := Text.exists_run (fun c => !isMark c) rest
  have hmore : '?' ∉ more := Text.not_mem_of_all hmore rfl
  rw [← List.append_assoc, hlong _ _ (by simp [hstretch, hmore]) hafter, hlong _ _ hmore hafter]

-- ---------------------------------------------------------------------------
-- Numbering a part
-- ---------------------------------------------------------------------------

theorem pieces_replicate (m : Nat) :
    pieces (List.replicate m '?') =
      List.replicate (m / 2) .question ++ List.replicate (m % 2) .placeholder := by
  induction m using Nat.twoStepInduction with
  | zero => rfl
  | one => rfl
  | more m ih _ =>
    have hdiv : (m + 2) / 2 = m / 2 + 1 := by omega
    have hmod : (m + 2) % 2 = m % 2 := by omega
    rw [hdiv, hmod, List.replicate_succ, List.replicate_succ, pieces, ih]
    rfl

theorem count_replicate_question (n : Nat) :
    (List.replicate n Piece.question).count .placeholder = 0 := by
  induction n with
  | zero => rfl
  | succ n ih => rw [List.replicate_succ, count_question_cons, ih]

theorem count_run (m : Nat) : (pieces (List.replicate m '?')).count .placeholder = m % 2 := by
  rw [pieces_replicate, List.count_append, count_replicate_question]
  rcases Nat.mod_two_eq_zero_or_one m with hm | hm <;> simp [hm]

theorem writeNumbered_questions (n : Nat) :
    writeNumbered style used (List.replicate n .question) = List.replicate n '?' := by
  induction n with
  | zero => rfl
  | succ n ih => rw [List.replicate_succ, writeNumbered, ih, List.replicate_succ]

theorem writeNumbered_run (hrest : Text.Stops isMark rest) :
    writeNumbered style used (pieces (List.replicate m '?' ++ rest)) =
      numberRun style used m ++ writeNumbered style (used + m % 2) (pieces rest) := by
  rw [pieces_append (stops_isMark_iff.1 hrest), writeNumbered_append, count_run]
  congr 1
  rw [pieces_replicate, writeNumbered_append, writeNumbered_questions, count_replicate_question,
    numberRun]
  rcases Nat.mod_two_eq_zero_or_one m with hm | hm
  · simp [hm, writeNumbered]
  · simp [hm, writeNumbered, Style.marker, ← Nat.toList_repr]

theorem writeNumbered_stretch (h : '?' ∉ stretch) :
    writeNumbered style used (pieces (stretch ++ rest)) =
      stretch ++ writeNumbered style used (pieces rest) := by
  rw [pieces_stretch h, writeNumbered_map_plain]

-- ---------------------------------------------------------------------------
-- Numbering a text
-- ---------------------------------------------------------------------------

theorem isOddRun_replicate (hm : m ≠ 0) :
    isOddRun (List.replicate m '?') = decide (m % 2 = 1) := by
  rw [isOddRun, isRun_replicate hm, List.length_replicate, Bool.true_and]

theorem isOddRun_of_not_mem (h : '?' ∉ stretch) : isOddRun stretch = false := by
  rw [isOddRun, isRun_of_not_mem h, Bool.false_and]

theorem count_pieces_eq_countP (text : List Char) :
    (pieces text).count .placeholder = (parts text).countP isOddRun := by
  induction text using parts_induct with
  | nil => rfl
  | stretch stretch rest hne hstretch hrest ih =>
    rw [pieces_stretch hstretch, List.count_append, count_map_plain, parts_stretch hne hstretch hrest,
      List.countP_cons, isOddRun_of_not_mem hstretch, ih]
    simp
  | run m rest hm hrest ih =>
    rw [pieces_append (stops_isMark_iff.1 hrest), List.count_append, count_run, parts_run hm hrest,
      List.countP_cons, isOddRun_replicate hm, ih]
    rcases Nat.mod_two_eq_zero_or_one m with hm | hm <;> simp [hm, Nat.add_comm]

theorem writeNumbered_pieces (used : Nat) (text : List Char) :
    writeNumbered style used (pieces text) =
      ((parts text).mapIdx fun i part =>
        numberPart style (used + ((parts text).take i).countP isOddRun) part).flatten := by
  induction text using parts_induct generalizing used with
  | nil => rfl
  | stretch stretch rest hne hstretch hrest ih =>
    rw [writeNumbered_stretch hstretch, ih, parts_stretch hne hstretch hrest, List.mapIdx_cons]
    simp [numberPart, isRun_of_not_mem hstretch, isOddRun_of_not_mem hstretch]
  | run m rest hm hrest ih =>
    rw [writeNumbered_run hrest, ih, parts_run hm hrest, List.mapIdx_cons]
    rcases Nat.mod_two_eq_zero_or_one m with hodd | hodd
    · simp [numberPart, isRun_replicate hm, isOddRun_replicate hm, hodd]
    · simp [numberPart, isRun_replicate hm, isOddRun_replicate hm, hodd, Nat.add_assoc, Nat.add_comm]

/-- Numbering and counting go by the runs of question marks. Between them the
text stays as it is; a run of `m` marks becomes half as many, rounded down, and
one of odd length ends in a placeholder, whose number is one more than the
number of runs of odd length to its left. -/
theorem number_eq_parts (style : Style) (sql : String) :
    let ps := parts sql.toList
    (number style sql).toList =
        (ps.mapIdx fun i part => numberPart style ((ps.take i).countP isOddRun) part).flatten ∧
      count sql = ps.countP isOddRun := by
  intro ps
  refine ⟨?_, count_pieces_eq_countP sql.toList⟩
  rw [number, String.toList_ofList, writeNumbered_pieces]
  simp [ps]

example : number .colon "??é???b?" = "?é?:1b:2" := by cbv

end FilterQuery.Placeholder
