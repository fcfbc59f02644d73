import FilterQuery.Fragment
import FilterQuery.Proofs.Filter.Tree
import FilterQuery.Proofs.Select.Quoting
import FilterQuery.Select.Statement

/-!
# Statements as pieces

What selecting by a filter writes, as names and text outside of them.
`Filter.sql_select` gives the whole statement, `Filter.values_select` the values
bound to it, and `Filter.pieces_select` says that the statement is read as
exactly these pieces. Joining the children of a group drops parentheses and
groups of one, but no comparison (`Filter.predicates_clause`).
-/

namespace FilterQuery

open Sql (Piece plain spell Legible)

def Column.pieces : Column → List Piece
  | .plain name => [.name name]
  | .qualified table name => [.name table, .plain '.', .name name]

def Predicate.pieces (b : Backend) (n : Nat) (p : Predicate) : List Piece :=
  (Column.ofField p.field).pieces ++
    plain (" " ++ p.comparator.operator ++ " " ++ b.placeholder n)

namespace Clause

def predicates : Clause → List Predicate
  | .constant _ => []
  | .comparison p => [p]
  | .join _ left right => left.predicates ++ right.predicates

def bareLeft (op : BoolOp) (c : Clause) : Bool :=
  c.op? = none || c.op? = some op

def bareRight (c : Clause) : Bool :=
  c.op? = none

def enclose (bare : Bool) (ps : List Piece) : List Piece :=
  if bare then ps else .plain '(' :: ps ++ [.plain ')']

def pieces (b : Backend) (used : Nat) : Clause → List Piece
  | .constant value => plain (if value then "TRUE" else "FALSE")
  | .comparison p => p.pieces b (used + 1)
  | .join op left right =>
    enclose (left.bareLeft op) (left.pieces b used) ++
      (plain (" " ++ op.symbol ++ " ") ++
        enclose right.bareRight (right.pieces b (used + left.predicates.length)))

end Clause

def Clause.statement (b : Backend) (table : String) (c : Clause) : List Piece :=
  plain "SELECT * FROM " ++ .name table :: plain " WHERE " ++ c.pieces b 0

variable {b : Backend} {c left : Clause} {op : BoolOp} {f : Filter} {fs : List Filter}
  {s : Statement} {ps : List Piece} {used : Nat} {bare : Bool}

-- ---------------------------------------------------------------------------
-- Writing a clause
-- ---------------------------------------------------------------------------

theorem Sql.spell_plain (b : Backend) (text : String) : spell b (plain text) = text.toList := by
  simp [spell, plain, Piece.spelling, List.flatMap_map]

theorem Sql.spell_append (b : Backend) (ps rs : List Piece) :
    spell b (ps ++ rs) = spell b ps ++ spell b rs := by
  simp [spell]

theorem Column.spell_pieces (b : Backend) (c : Column) :
    spell b c.pieces = (c.render b).toList := by
  cases c with
  | plain name => simp [pieces, spell, Piece.spelling, render]
  | qualified table name => simp [pieces, spell, Piece.spelling, render]

/-- A statement with pieces written at its end and values bound to them. -/
def Statement.extend (b : Backend) (s : Statement) (ps : List Piece) (values : List String) :
    Statement where
  sql := s.sql ++ String.ofList (spell b ps)
  values := s.values ++ values

namespace Statement

theorem write_eq_extend (b : Backend) (s : Statement) (text : String) :
    s.write text = s.extend b (plain text) [] := by
  simp [write, extend, Sql.spell_plain]

theorem extend_extend {rs : List Piece} {values more : List String} :
    (s.extend b ps values).extend b rs more = s.extend b (ps ++ rs) (values ++ more) := by
  simp [extend, Sql.spell_append, String.append_assoc]

theorem length_values_extend {values : List String} :
    (s.extend b ps values).values.length = s.values.length + values.length := by
  simp [extend]

end Statement

theorem Predicate.write_bind_eq_extend (b : Backend) (s : Statement) (p : Predicate) :
    (s.write ((Column.ofField p.field).render b ++ " " ++ p.comparator.operator ++ " ")).bind b
        p.value =
      s.extend b (p.pieces b (s.values.length + 1)) [p.value] := by
  simp [Statement.write, Statement.bind, Statement.extend, Predicate.pieces, Sql.spell_append,
    Sql.spell_plain, Column.spell_pieces, String.append_assoc]

namespace Clause

def renderOperand (b : Backend) (bare : Bool) (c : Clause) (s : Statement) : Statement :=
  if bare then c.render b s else (c.render b (s.write "(")).write ")"

theorem render_join {right : Clause} : (Clause.join op left right).render b s =
    right.renderOperand b right.bareRight
      ((left.renderOperand b (left.bareLeft op) s).write (" " ++ op.symbol ++ " ")) := by
  simp [render, renderOperand, bareLeft, bareRight]

theorem renderOperand_eq_extend (h : ∀ s, c.render b s =
      s.extend b (c.pieces b s.values.length) (c.predicates.map (·.value))) :
    c.renderOperand b bare s =
      s.extend b (enclose bare (c.pieces b s.values.length)) (c.predicates.map (·.value)) := by
  cases bare with
  | true => exact h s
  | false =>
    simp only [renderOperand, Bool.false_eq_true, if_false, h, Statement.write_eq_extend b,
      Statement.extend_extend, Statement.length_values_extend]
    simp [enclose, plain]

theorem render_eq_extend (b : Backend) (c : Clause) (s : Statement) :
    c.render b s = s.extend b (c.pieces b s.values.length) (c.predicates.map (·.value)) := by
  induction c generalizing s with
  | constant value => exact s.write_eq_extend b _
  | comparison p => exact p.write_bind_eq_extend b s
  | join op left right ihl ihr =>
    rw [render_join, renderOperand_eq_extend ihl, renderOperand_eq_extend ihr,
      Statement.write_eq_extend b, Statement.extend_extend, Statement.extend_extend]
    simp [pieces, predicates, Statement.length_values_extend]

end Clause

-- ---------------------------------------------------------------------------
-- Filters as clauses
-- ---------------------------------------------------------------------------

namespace Filter

theorem clause_group_cons : (Filter.group op (f :: fs)).clause = joinOnto op f.clause fs := by
  rw [clause]

theorem predicates_joinOnto : (joinOnto op left fs).predicates =
    left.predicates ++ fs.flatMap fun f => f.clause.predicates := by
  induction fs generalizing left with
  | nil => simp [joinOnto]
  | cons f fs ih => simp [joinOnto, ih, Clause.predicates]

/-- Dropping groups and parentheses drops no comparison. -/
theorem predicates_clause (f : Filter) : f.clause.predicates = f.predicates := by
  induction f with
  | predicate p => simp [clause, Clause.predicates, predicates]
  | group op children ih =>
    cases children with
    | nil => simp [clause, Clause.predicates]
    | cons c children =>
      obtain ⟨hc, hcs⟩ := List.forall_mem_cons.1 ih
      rw [clause_group_cons, predicates_joinOnto, hc, predicates_group, List.flatMap_cons,
        List.flatMap_def, List.map_congr_left hcs, ← List.flatMap_def]

theorem values_select (b : Backend) (table : String) (f : Filter) :
    (f.select b table).values = f.predicates.map (·.value) := by
  simp [select, Clause.render_eq_extend, Statement.extend, predicates_clause]

theorem sql_select (b : Backend) (table : String) (f : Filter) :
    (f.select b table).sql.toList = spell b (f.clause.statement b table) := by
  have hname (ps : List Piece) : spell b (.name table :: ps) =
      (b.identifier table).toList ++ spell b ps := rfl
  simp [select, Clause.render_eq_extend, Statement.extend, Clause.statement, Sql.spell_append,
    Sql.spell_plain, hname]

end Filter

-- ---------------------------------------------------------------------------
-- Reading a statement
-- ---------------------------------------------------------------------------

theorem Column.legible (b : Backend) (c : Column) : Legible b c.pieces := by
  cases c with
  | plain name => exact Sql.legible_name name
  | qualified table name =>
    have hdot : '.' ≠ b.quoteChar := by cases b <;> decide
    exact (Sql.legible_name table).append_plain hdot (Sql.legible_name name)

theorem Backend.quoteChar_not_mem_placeholder (b : Backend) (n : Nat) :
    b.quoteChar ∉ (b.placeholder n).toList := by
  cases b with
  | postgres =>
    have hdigits : '"' ∉ Nat.toDigits 10 n := by
      intro hm
      have hd := Nat.isDigit_of_mem_toDigits (by decide) (by decide) hm
      revert hd
      decide
    simpa [quoteChar, placeholder, Nat.toList_repr] using hdigits
  | mysql =>
    have hmark : '\x60' ∉ "?".toList := by decide
    exact hmark
  | sqlite =>
    have hmark : '"' ∉ "?".toList := by decide
    exact hmark

theorem Predicate.legible (b : Backend) (n : Nat) (p : Predicate) : Legible b (p.pieces b n) := by
  have hquote : b.quoteChar ∉ (" " ++ p.comparator.operator ++ " ").toList := by
    cases b <;> cases p.comparator <;> decide
  have htext : b.quoteChar ∉ (" " ++ p.comparator.operator ++ " " ++ b.placeholder n).toList := by
    rw [String.toList_append, List.mem_append]
    exact not_or.2 ⟨hquote, b.quoteChar_not_mem_placeholder n⟩
  have h := (Column.legible b (Column.ofField p.field)).append_text (by simp) htext Sql.legible_nil
  rwa [List.append_nil] at h

theorem Clause.legible_enclose (h : Legible b ps) : Legible b (enclose bare ps) := by
  unfold enclose
  split
  · exact h
  · exact h.enclose

theorem Clause.legible (b : Backend) (used : Nat) (c : Clause) : Legible b (c.pieces b used) := by
  induction c generalizing used with
  | constant value => exact Sql.legible_plain (by cases b <;> cases value <;> decide)
  | comparison p => exact p.legible b _
  | join op left right ihl ihr =>
    have hop : b.quoteChar ∉ (" " ++ op.symbol ++ " ").toList := by
      cases b <;> cases op <;> decide
    exact (legible_enclose (ihl used)).append_text (by simp) hop (legible_enclose (ihr _))

theorem Clause.legible_statement (b : Backend) (table : String) (c : Clause) :
    Legible b (c.statement b table) := by
  have hselect : b.quoteChar ∉ "SELECT * FROM ".toList := by cases b <;> decide
  have hwhere : b.quoteChar ∉ " WHERE ".toList := by cases b <;> decide
  have hname := (Sql.legible_name table).append_text (by decide) hwhere (c.legible b 0)
  exact hname.plain_append hselect

/-- A statement is read as the pieces it was written from, whatever the table
and the fields are called. -/
theorem Filter.pieces_select (b : Backend) (table : String) (f : Filter) :
    Sql.pieces b (f.select b table).sql.toList = some (f.clause.statement b table) := by
  rw [sql_select]
  exact (f.clause.legible_statement b table).pieces_spell

end FilterQuery
