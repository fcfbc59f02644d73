import FilterQuery.Backend
import FilterQuery.Proofs.Token.Spelling

/-!
# Names in quotes

How a statement is read: a name stands between quote characters, and a quote
character in the name is doubled. `Sql.pieces` cuts a text into names and the
characters outside of them, and fails only if a quote is left open.

`Sql.pieces_spell`: pieces that are written one after the other are read back,
as long as no two names stand side by side. Whatever a name holds, it is read
as one name.
-/

namespace FilterQuery.Sql

inductive Piece where
  | plain (c : Char)
  | name (text : String)
  deriving DecidableEq, Repr

/-- The name whose opening quote stands before the text: it goes up to the first
quote that is not doubled. -/
def readName (q : Char) : List Char → Option (List Char × List Char)
  | [] => none
  | [c] => if c = q then some ([], []) else none
  | c :: d :: rest =>
    if c = q then
      if d = q then (readName q rest).map fun (name, rest) => (q :: name, rest)
      else some ([], d :: rest)
    else (readName q (d :: rest)).map fun (name, rest) => (c :: name, rest)

theorem length_readName {q : Char} {text name rest : List Char}
    (h : readName q text = some (name, rest)) : rest.length < text.length := by
  fun_induction readName q text generalizing name rest with
  | case1 => cases h
  | case2 =>
    cases h
    exact Nat.zero_lt_one
  | case3 => cases h
  | case4 tail ih =>
    -- A doubled quote.
    obtain ⟨⟨n, r⟩, hr, he⟩ := Option.map_eq_some_iff.1 h
    cases he
    exact Nat.lt_trans (ih hr) (Nat.lt_add_of_pos_right Nat.zero_lt_two)
  | case5 =>
    cases h
    exact Nat.lt_succ_self _
  | case6 c d tail hc ih =>
    obtain ⟨⟨n, r⟩, hr, he⟩ := Option.map_eq_some_iff.1 h
    cases he
    exact Nat.lt_succ_of_lt (ih hr)

/-- The pieces of a text, if no quote is left open. -/
def pieces (b : Backend) : List Char → Option (List Piece)
  | [] => some []
  | c :: text =>
    if c = b.quoteChar then
      match _h : readName b.quoteChar text with
      | none => none
      | some (name, rest) => (pieces b rest).map (.name (String.ofList name) :: ·)
    else (pieces b text).map (.plain c :: ·)
termination_by text => text.length
decreasing_by
  · exact Nat.lt_succ_of_lt (length_readName ‹_›)
  · exact Nat.lt_succ_self _

def Piece.spelling (b : Backend) : Piece → List Char
  | .plain c => [c]
  | .name text => (b.identifier text).toList

def spell (b : Backend) (ps : List Piece) : List Char :=
  ps.flatMap (·.spelling b)

def plain (text : String) : List Piece :=
  text.toList.map .plain

theorem plain_append (s t : String) : plain (s ++ t) = plain s ++ plain t := by
  simp [plain]

theorem plain_space : plain " " = [.plain ' '] := rfl

theorem plain_spaced (text : String) (ps : List Piece) : plain (" " ++ text ++ " ") ++ ps =
    .plain ' ' :: (plain text ++ .plain ' ' :: ps) := by
  simp [plain_append, plain_space]

variable {b : Backend} {q c : Char} {text name rest : List Char} {ps rs : List Piece}

-- ---------------------------------------------------------------------------
-- Reading one piece
-- ---------------------------------------------------------------------------

theorem readName_cons_of_ne (h : c ≠ q) :
    readName q (c :: text) = (readName q text).map fun (name, rest) => (c :: name, rest) := by
  cases text with
  | nil => simp [readName, h]
  | cons d text => simp [readName, h]

/-- Doubling keeps a name together, if what follows its closing quote is not
another quote. -/
theorem readName_doubled (name : List Char) (h : Text.Stops (· = q) rest) :
    readName q (name.flatMap (fun c => if c = q then [c, c] else [c]) ++ q :: rest) =
      some (name, rest) := by
  induction name with
  | nil =>
    cases rest with
    | nil => simp [readName]
    | cons d rest =>
      have hd : d ≠ q := by simpa using h
      simp [readName, hd]
  | cons c name ih =>
    by_cases hc : c = q
    · subst hc
      simp [readName, ih]
    · rw [List.flatMap_cons, if_neg hc, List.singleton_append, List.cons_append,
        readName_cons_of_ne hc, ih]
      rfl

theorem pieces_plain (h : c ≠ b.quoteChar) :
    pieces b (c :: text) = (pieces b text).map (.plain c :: ·) := by
  rw [pieces, if_neg h]

theorem pieces_identifier (name : String) (h : Text.Stops (· = b.quoteChar) rest) :
    pieces b ((b.identifier name).toList ++ rest) = (pieces b rest).map (.name name :: ·) := by
  have hread := readName_doubled name.toList h
  simp only [Backend.identifier, String.toList_ofList, List.cons_append, List.append_assoc,
    List.nil_append]
  rw [pieces, if_pos rfl]
  split
  · rename_i hnone
    rw [hread] at hnone
    cases hnone
  · rename_i n r hsome
    rw [hread] at hsome
    cases hsome
    rw [String.ofList_toList]

-- ---------------------------------------------------------------------------
-- Reading many pieces
-- ---------------------------------------------------------------------------

/-- The pieces are read back, whatever follows that does not begin with a
quote. -/
def Legible (b : Backend) (ps : List Piece) : Prop :=
  ∀ rest, Text.Stops (· = b.quoteChar) rest →
    pieces b (spell b ps ++ rest) = (pieces b rest).map (ps ++ ·)

theorem Legible.pieces_spell (h : Legible b ps) : pieces b (spell b ps) = some ps := by
  have hread := h [] Text.stops_nil
  simpa [pieces] using hread

theorem legible_nil : Legible b [] := by
  intro rest _
  simp [spell]

theorem Legible.cons_plain (hc : c ≠ b.quoteChar) (h : Legible b ps) :
    Legible b (.plain c :: ps) := by
  intro rest hrest
  have hspell : spell b (.plain c :: ps) ++ rest = c :: (spell b ps ++ rest) := rfl
  rw [hspell, pieces_plain hc, h rest hrest, Option.map_map]
  rfl

theorem legible_name (name : String) : Legible b [.name name] := by
  intro rest hrest
  have hspell : spell b [.name name] ++ rest = (b.identifier name).toList ++ rest := by
    simp [spell, Piece.spelling]
  rw [hspell, pieces_identifier name hrest]
  rfl

theorem Legible.append_plain (h : Legible b ps) (hc : c ≠ b.quoteChar) (hr : Legible b rs) :
    Legible b (ps ++ .plain c :: rs) := by
  intro rest hrest
  have hspell : spell b (ps ++ .plain c :: rs) ++ rest =
      spell b ps ++ (spell b (.plain c :: rs) ++ rest) := by
    simp [spell]
  have hstops : Text.Stops (· = b.quoteChar) (spell b (.plain c :: rs) ++ rest) :=
    Text.stops_cons.2 (decide_eq_false hc)
  rw [hspell, h _ hstops, (hr.cons_plain hc) rest hrest, Option.map_map]
  simp [Function.comp_def]

theorem Legible.plain_append {text : String} (ht : b.quoteChar ∉ text.toList)
    (hr : Legible b rs) : Legible b (plain text ++ rs) := by
  unfold plain
  generalize text.toList = cs at ht
  induction cs with
  | nil => exact hr
  | cons c cs ih =>
    obtain ⟨hc, hcs⟩ := not_or.1 (mt List.mem_cons.2 ht)
    exact (ih hcs).cons_plain (Ne.symm hc)

theorem legible_plain {text : String} (ht : b.quoteChar ∉ text.toList) :
    Legible b (plain text) := by
  have h := legible_nil.plain_append ht
  rwa [List.append_nil] at h

theorem Legible.append_text {text : String} (h : Legible b ps) (hne : text.toList ≠ [])
    (ht : b.quoteChar ∉ text.toList) (hr : Legible b rs) :
    Legible b (ps ++ (plain text ++ rs)) := by
  obtain ⟨c, cs, hcs⟩ := List.exists_cons_of_ne_nil hne
  obtain ⟨hc, htail⟩ := not_or.1 (mt List.mem_cons.2 (hcs ▸ ht))
  have hplain : plain text = .plain c :: plain (String.ofList cs) := by
    simp [plain, hcs]
  rw [hplain, List.cons_append]
  refine h.append_plain (Ne.symm hc) (hr.plain_append ?_)
  rw [String.toList_ofList]
  exact htail

theorem Legible.enclose (h : Legible b ps) : Legible b (.plain '(' :: ps ++ [.plain ')']) := by
  have hopen : '(' ≠ b.quoteChar := by cases b <;> decide
  have hclose : ')' ≠ b.quoteChar := by cases b <;> decide
  exact (h.append_plain hclose legible_nil).cons_plain hopen

end FilterQuery.Sql
