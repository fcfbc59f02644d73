import FilterQuery.Placeholder

/-!
# Texts cut into pieces

A run of question marks ends with any other character, so a text can be cut
piece by piece wherever no question mark follows (`pieces_append`). Counting and
numbering both go along the pieces, and on words with a space before each they
go word by word (`pieces_spaced`, `writeNumbered_spaced`).
-/

namespace FilterQuery.Placeholder

/-- The text with every pair of question marks made a single one, from left to
right. -/
def undouble : List Char → List Char
  | [] => []
  | '?' :: '?' :: rest => '?' :: undouble rest
  | c :: rest => c :: undouble rest

def undoubled (word : String) : String :=
  String.ofList (undouble word.toList)

variable {style : Style} {used : Nat} {words : List String} {w : String} {run text : List Char}
  {c : Char} {ps : List Piece}

-- ---------------------------------------------------------------------------
-- Pieces
-- ---------------------------------------------------------------------------

@[simp] theorem count_plain_cons :
    (Piece.plain c :: ps).count .placeholder = ps.count .placeholder :=
  List.count_cons

@[simp] theorem count_question_cons :
    (Piece.question :: ps).count .placeholder = ps.count .placeholder :=
  List.count_cons

@[simp] theorem count_placeholder_cons :
    (Piece.placeholder :: ps).count .placeholder = ps.count .placeholder + 1 :=
  List.count_cons

theorem pieces_cons_of_ne (h : c ≠ '?') : pieces (c :: text) = .plain c :: pieces text :=
  pieces.eq_4 c text (fun _ hc _ => h hc) h

theorem pieces_question (h : text.head? ≠ some '?') :
    pieces ('?' :: text) = .placeholder :: pieces text := by
  refine pieces.eq_3 text ?_
  rintro rest rfl
  exact h rfl

theorem pieces_append (h : text.head? ≠ some '?') :
    pieces (run ++ text) = pieces run ++ pieces text := by
  fun_induction pieces run with
  | case1 => rfl
  | case2 rest ih => simp [pieces, ih]
  | case3 rest hrest ih =>
    -- A single question mark stays single, since the text does not begin with another.
    have hhead : (rest ++ text).head? ≠ some '?' := by
      cases rest with
      | nil => exact h
      | cons d rest =>
        intro hd
        cases hd
        exact hrest rest rfl
    rw [List.cons_append, pieces_question hhead, ih]
    rfl
  | case4 c rest _ hc ih =>
    rw [List.cons_append, pieces_cons_of_ne hc, ih]
    rfl

theorem pieces_stretch {stretch : List Char} (h : '?' ∉ stretch) :
    pieces (stretch ++ text) = stretch.map .plain ++ pieces text := by
  induction stretch with
  | nil => rfl
  | cons c stretch ih =>
    obtain ⟨hc, hstretch⟩ := not_or.1 (mt List.mem_cons.2 h)
    rw [List.cons_append, pieces_cons_of_ne (Ne.symm hc), ih hstretch]
    rfl

theorem pieces_of_not_mem (h : '?' ∉ text) : pieces text = text.map .plain := by
  simpa [pieces] using @pieces_stretch [] text h

theorem pieces_spaced (words : List String) :
    pieces (words.flatMap fun w => ' ' :: w.toList) =
      words.flatMap fun w => .plain ' ' :: pieces w.toList := by
  induction words with
  | nil => rfl
  | cons w words ih =>
    have hhead : (words.flatMap fun w => ' ' :: w.toList).head? ≠ some '?' := by
      cases words <;> simp
    rw [List.flatMap_cons, List.cons_append, pieces_cons_of_ne (by decide), pieces_append hhead, ih]
    rfl

theorem count_map_plain (text : List Char) : (text.map Piece.plain).count .placeholder = 0 := by
  induction text with
  | nil => rfl
  | cons c text ih => simp [ih]

theorem count_of_not_mem (h : '?' ∉ w.toList) : count w = 0 := by
  rw [count, pieces_of_not_mem h, count_map_plain]

-- ---------------------------------------------------------------------------
-- Numbering
-- ---------------------------------------------------------------------------

theorem writeNumbered_append (ps qs : List Piece) :
    writeNumbered style used (ps ++ qs) =
      writeNumbered style used ps ++ writeNumbered style (used + ps.count .placeholder) qs := by
  induction ps generalizing used with
  | nil => rfl
  | cons p ps ih =>
    cases p with
    | plain c => simp [writeNumbered, ih]
    | question => simp [writeNumbered, ih]
    | placeholder => simp [writeNumbered, ih, Nat.add_comm, Nat.add_left_comm]

theorem writeNumbered_map_plain (ps : List Piece) :
    writeNumbered style used (text.map .plain ++ ps) = text ++ writeNumbered style used ps := by
  induction text with
  | nil => rfl
  | cons c text ih =>
    rw [List.map_cons, List.cons_append, writeNumbered, ih]
    rfl

def numberEach (style : Style) (used : Nat) : List String → List String
  | [] => []
  | w :: ws =>
    String.ofList (writeNumbered style used (pieces w.toList)) ::
      numberEach style (used + count w) ws

theorem writeNumbered_spaced (words : List String) :
    writeNumbered style used (pieces (words.flatMap fun w => ' ' :: w.toList)) =
      (numberEach style used words).flatMap fun w => ' ' :: w.toList := by
  rw [pieces_spaced]
  induction words generalizing used with
  | nil => rfl
  | cons w words ih =>
    rw [List.flatMap_cons, List.cons_append, writeNumbered, writeNumbered_append, ih]
    simp [numberEach, count]

theorem writeNumbered_of_count_eq_zero (h : (pieces text).count .placeholder = 0) :
    writeNumbered style used (pieces text) = undouble text := by
  fun_induction pieces text with
  | case1 => rfl
  | case2 rest ih => simpa [writeNumbered, undouble] using ih h
  | case3 rest => simp at h
  | case4 c rest hpair hc ih =>
    rw [count_plain_cons] at h
    rw [writeNumbered, undouble.eq_3 c rest hpair, ih h]

theorem undouble_of_not_mem (h : '?' ∉ text) : undouble text = text := by
  fun_induction undouble text with
  | case1 => rfl
  | case2 rest => simp at h
  | case3 c rest _ ih => rw [ih (mt (List.mem_cons_of_mem c) h)]

theorem numberEach_cons_of_count_eq_zero {ws : List String} (h : count w = 0) :
    numberEach style used (w :: ws) = undoubled w :: numberEach style used ws := by
  rw [numberEach, h, writeNumbered_of_count_eq_zero h]
  rfl

end FilterQuery.Placeholder
