import FilterQuery.Proofs.Condition.Reading
import FilterQuery.Proofs.Select.Clause

/-!
# Which texts are comparisons

A condition holds its field names as they are, and a name may look like any
other part of it. A reader that is told the names knows every comparison by its
whole text (`written`). If no name holds a blank or a parenthesis, a reader that
is told nothing knows them too (`bare`): each is a word, a comparator and a
placeholder. In a statement names are quoted, and nothing needs to be told
(`quoted`).
-/

namespace FilterQuery

open Sql (Piece plain)

def Predicate.condition (p : Predicate) : List Piece :=
  plain p.field ++ (plain (" " ++ p.comparator.symbol ++ " ") ++ plain "?")

namespace Condition

/-- What follows the given pieces, if the text begins with them. -/
def skip : List Piece → List Piece → Option (List Piece)
  | [], text => some text
  | _ :: _, [] => none
  | p :: ps, q :: text => if p = q then skip ps text else none

def skipComparator (symbol : Comparator → String) (text : List Piece) : Option (List Piece) :=
  Comparator.all.findSome? fun c => skip (plain (" " ++ symbol c ++ " ")) text

def skipColumn : List Piece → Option (List Piece)
  | .name _ :: .plain '.' :: .name _ :: rest => some rest
  | .name _ :: rest => some rest
  | _ => none

variable {ps text rest lead : List Piece} {symbol : Comparator → String} {x : Piece}
  {p : Predicate} {k : Nat}

theorem skip_eq_some_iff : skip ps text = some rest ↔ text = ps ++ rest := by
  fun_induction skip ps text with
  | case1 text => exact Option.some_inj
  | case2 p ps => simp
  | case3 p ps text ih => simpa using ih
  | case4 p ps q text hne => simp [Ne.symm hne]

theorem skip_append : skip ps (ps ++ rest) = some rest :=
  skip_eq_some_iff.2 rfl

/-- A text is not found before its place, if one of its pieces is new there. -/
theorem skip_lead_append (hne : lead ≠ []) (hlead : x ∉ lead) (hx : x ∈ ps) :
    skip ps (lead ++ (ps ++ rest)) = none := by
  refine Option.eq_none_iff_forall_ne_some.2 fun rest' h => ?_
  -- The piece would first stand at two places.
  have hfirst := congrArg (List.idxOf x) (skip_eq_some_iff.1 h)
  rw [List.idxOf_append, if_neg hlead, List.idxOf_append, if_pos hx, List.idxOf_append,
    if_pos hx] at hfirst
  have hpos := List.length_pos_iff.2 hne
  omega

theorem skipComparator_symbol (c : Comparator) (rest : List Piece) :
    skipComparator Comparator.symbol (plain (" " ++ c.symbol ++ " ") ++ rest) = some rest := by
  cases c <;> rfl

theorem skipComparator_operator (c : Comparator) (rest : List Piece) :
    skipComparator Comparator.operator (plain (" " ++ c.operator ++ " ") ++ rest) = some rest := by
  cases c <;> rfl

theorem skipColumn_pieces (c : Column) (name : String) (rest : List Piece) :
    skipColumn (c.pieces ++ (plain (" " ++ name ++ " ") ++ rest)) =
      some (plain (" " ++ name ++ " ") ++ rest) := by
  rw [Sql.plain_spaced]
  cases c <;> rfl

-- ---------------------------------------------------------------------------
-- Readers
-- ---------------------------------------------------------------------------

theorem length_skip (h : skip ps text = some rest) : text.length = ps.length + rest.length := by
  rw [skip_eq_some_iff.1 h, List.length_append]

theorem length_skipComparator (h : skipComparator symbol text = some rest) :
    rest.length < text.length := by
  obtain ⟨c, -, hc⟩ := List.exists_of_findSome?_eq_some h
  have hlen := length_skip hc
  have hpos : 0 < (plain (" " ++ symbol c ++ " ")).length := by simp [plain]
  omega

theorem length_skipColumn (h : skipColumn text = some rest) : rest.length < text.length := by
  unfold skipColumn at h
  split at h
  · cases h
    simp only [List.length_cons]
    omega
  · cases h
    exact Nat.lt_succ_self _
  · cases h

def written (ps : List Predicate) : Reader where
  comparison k text := (ps[k]?).bind fun p => skip p.condition text
  length_lt h := by
    obtain ⟨p, -, hp⟩ := Option.bind_eq_some_iff.1 h
    have hlen := length_skip hp
    have hpos : 0 < p.condition.length :=
      List.length_pos_iff.2 (by simp [Predicate.condition, plain])
    omega

def isBare : Piece → Bool
  | .plain c => c ≠ ' ' && c ≠ '(' && c ≠ ')'
  | .name _ => false

def bare : Reader where
  comparison _ text :=
    if text.takeWhile isBare = [] then none
    else (skipComparator Comparator.symbol (text.dropWhile isBare)).bind (skip (plain "?"))
  length_lt {k text rest} h := by
    split at h
    · cases h
    · obtain ⟨mid, hmid, hrest⟩ := Option.bind_eq_some_iff.1 h
      have hle := (List.dropWhile_sublist isBare (l := text)).length_le
      have hlt := length_skipComparator hmid
      have hlen := length_skip hrest
      omega

def quoted (b : Backend) : Reader where
  comparison k text :=
    ((skipColumn text).bind (skipComparator Comparator.operator)).bind
      (skip (plain (b.placeholder (k + 1))))
  length_lt {k text rest} h := by
    obtain ⟨mid, hmid, hrest⟩ := Option.bind_eq_some_iff.1 h
    obtain ⟨column, hcolumn, hcomparator⟩ := Option.bind_eq_some_iff.1 hmid
    have hlt := length_skipColumn hcolumn
    have hlt' := length_skipComparator hcomparator
    have hlen := length_skip hrest
    omega

-- ---------------------------------------------------------------------------
-- What they know
-- ---------------------------------------------------------------------------

/-- The reader finds the text of a predicate as comparison `k`, and not before
its place: blanks and opening parentheses may stand before it. -/
structure Knows (r : Reader) (k : Nat) (p : Predicate) : Prop where
  finds (rest : List Piece) : r.comparison k (p.condition ++ rest) = some rest
  waits {lead : List Piece} (rest : List Piece) : lead ≠ [] →
    (∀ x ∈ lead, x = .plain ' ' ∨ x = .plain '(') →
    r.comparison k (lead ++ (p.condition ++ rest)) = none

theorem knows_written {ps : List Predicate} (h : ps[k]? = some p) : Knows (written ps) k p where
  finds rest := by
    simp only [written, h, Option.bind_some]
    exact skip_append
  waits {lead} rest hne hlead := by
    have hmark : Piece.plain '?' ∉ lead := by
      intro hm
      simpa using hlead _ hm
    simp only [written, h, Option.bind_some]
    exact skip_lead_append hne hmark (by simp [Predicate.condition, plain])

structure IsBare (name : String) : Prop where
  ne_nil : name.toList ≠ []
  bare : ∀ c ∈ name.toList, isBare (.plain c) = true

theorem knows_bare (h : IsBare p.field) : Knows bare k p where
  finds rest := by
    have hne : plain p.field ≠ [] := by simpa [plain] using h.ne_nil
    have hbare : ∀ x ∈ plain p.field, isBare x = true := List.forall_mem_map.2 h.bare
    have hcut : p.condition ++ rest = plain p.field ++
        (plain (" " ++ p.comparator.symbol ++ " ") ++ (plain "?" ++ rest)) := by
      simp [Predicate.condition]
    have hstop (name : String) (text : List Piece) :
        (plain (" " ++ name ++ " ") ++ text).dropWhile isBare =
          plain (" " ++ name ++ " ") ++ text := by
      rw [Sql.plain_spaced]
      rfl
    simp only [bare]
    rw [hcut, List.takeWhile_append_of_pos hbare, List.dropWhile_append_of_pos hbare,
      if_neg (by simp [hne]), hstop, skipComparator_symbol, Option.bind_some, skip_append]
  waits {lead} rest hne hlead := by
    obtain ⟨x, lead, rfl⟩ := List.exists_cons_of_ne_nil hne
    have hstop : isBare x = false := by
      rcases hlead x List.mem_cons_self with rfl | rfl <;> rfl
    simp [bare, hstop]

theorem comparison_quoted (b : Backend) (k : Nat) (p : Predicate) (rest : List Piece) :
    (quoted b).comparison k (p.pieces b (k + 1) ++ rest) = some rest := by
  have hcut : p.pieces b (k + 1) ++ rest = (Column.ofField p.field).pieces ++
      (plain (" " ++ p.comparator.operator ++ " ") ++ (plain (b.placeholder (k + 1)) ++ rest)) := by
    simp [Predicate.pieces, Sql.plain_append]
  simp only [quoted]
  rw [hcut, skipColumn_pieces, Option.bind_some, skipComparator_operator, Option.bind_some,
    skip_append]

end Condition

end FilterQuery
