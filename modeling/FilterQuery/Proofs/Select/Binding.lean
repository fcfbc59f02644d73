import FilterQuery.Proofs.Select.Clause

/-!
# Placeholders and their values

A statement is read word by word outside of its names. `select_binds_in_order`:
its placeholders are numbered from 1 on, as many as there are predicates, and
each stands behind the column and the comparator of its own predicate, with the
value of that predicate bound to it. The text outside of names depends only on
the outline of the filter: no name can write anything but itself.
-/

namespace FilterQuery

open Sql (Piece plain)

namespace Sql

def isGap : Piece → Bool
  | .plain c => c = ' ' || c = '(' || c = ')'
  | .name _ => false

def words (ps : List Piece) : List (List Piece) :=
  (ps.splitOnP isGap).filter (!·.isEmpty)

def mark : Backend → Piece
  | .postgres => .plain '$'
  | .mysql | .sqlite => .plain '?'

def hasMark (b : Backend) (word : List Piece) : Bool :=
  word.contains (mark b)

structure Comparison where
  left : List Piece
  sign : List Piece
  right : List Piece
  deriving DecidableEq, Repr

def comparisons (b : Backend) : List (List Piece) → List Comparison
  | left :: sign :: right :: rest =>
    (if hasMark b right then [⟨left, sign, right⟩] else []) ++ comparisons b (sign :: right :: rest)
  | _ => []

def Piece.outside : Piece → Option Char
  | .plain c => some c
  | .name _ => none

/-- The text outside of names, with a hole for each name. -/
def outside (b : Backend) (sql : String) : Option (List (Option Char)) :=
  (pieces b sql.toList).map (·.map Piece.outside)

variable {b : Backend} {ps rs word left sign right : List Piece} {g : Piece}
  {ws : List (List Piece)}

theorem words_append_gap (h : isGap g = true) : words (ps ++ g :: rs) = words ps ++ words rs := by
  rw [words, List.splitOnP_append_cons ps rs h, List.filter_append]
  rfl

theorem words_of_no_gap (hne : word ≠ []) (h : ∀ p ∈ word, isGap p = false) :
    words word = [word] := by
  rw [words, List.splitOnP_eq_singleton h]
  simpa using hne

theorem words_nil : words [] = [] := rfl

theorem comparisons_cons_of_mark (h : hasMark b right = true) :
    comparisons b (left :: sign :: right :: ws) =
      ⟨left, sign, right⟩ :: comparisons b (sign :: right :: ws) := by
  simp [comparisons, h]

theorem comparisons_cons_of_no_mark (h : hasMark b right = false) :
    comparisons b (left :: sign :: right :: ws) = comparisons b (sign :: right :: ws) := by
  simp [comparisons, h]

theorem map_right_comparisons (b : Backend) (ws : List (List Piece)) :
    (comparisons b ws).map Comparison.right = (ws.drop 2).filter (hasMark b) := by
  match ws with
  | [] | [_] | [_, _] => rfl
  | left :: sign :: right :: rest =>
    have ih := map_right_comparisons b (sign :: right :: rest)
    cases h : hasMark b right with
    | true => simpa [comparisons_cons_of_mark h, h] using ih
    | false => simpa [comparisons_cons_of_no_mark h, h] using ih

end Sql

variable {b : Backend} {used : Nat} {ps : List Piece} {text : String} {bare : Bool}

-- ---------------------------------------------------------------------------
-- The words of a statement
-- ---------------------------------------------------------------------------

def Predicate.comparison (b : Backend) (n : Nat) (p : Predicate) : Sql.Comparison where
  left := (Column.ofField p.field).pieces
  sign := plain p.comparator.operator
  right := plain (b.placeholder n)

def Clause.words (b : Backend) (used : Nat) : Clause → List (List Piece)
  | .constant value => [plain (if value then "TRUE" else "FALSE")]
  | .comparison p =>
    let c := p.comparison b (used + 1)
    [c.left, c.sign, c.right]
  | .join op left right =>
    left.words b used ++ plain op.symbol :: right.words b (used + left.predicates.length)

theorem Sql.words_plain (hne : text.toList ≠ [])
    (h : ∀ c ∈ text.toList, isGap (.plain c) = false) : words (plain text) = [plain text] := by
  refine words_of_no_gap (by simpa [plain] using hne) ?_
  exact List.forall_mem_map.2 h

theorem Column.words_pieces (c : Column) : Sql.words c.pieces = [c.pieces] := by
  cases c with
  | plain name => exact Sql.words_of_no_gap (by simp [pieces]) (by simp [pieces, Sql.isGap])
  | qualified table name =>
    exact Sql.words_of_no_gap (by simp [pieces]) (by simp [pieces, Sql.isGap])

theorem Comparator.words_operator (c : Comparator) :
    Sql.words (plain c.operator) = [plain c.operator] := by
  cases c <;> exact Sql.words_plain (by decide) (by simp [operator, symbol, Sql.isGap])

theorem BoolOp.words_symbol (op : BoolOp) : Sql.words (plain op.symbol) = [plain op.symbol] := by
  cases op <;> exact Sql.words_plain (by decide) (by simp [symbol, Sql.isGap])

theorem Backend.words_placeholder (b : Backend) (n : Nat) :
    Sql.words (plain (b.placeholder n)) = [plain (b.placeholder n)] := by
  cases b with
  | postgres =>
    refine Sql.words_plain (by simp [placeholder]) ?_
    intro c hc
    simp only [placeholder, String.toList_append, Nat.toList_repr, List.mem_append] at hc
    rcases hc with hc | hc
    · cases List.mem_singleton.1 hc
      rfl
    · have hd := Nat.isDigit_of_mem_toDigits (by decide) (by decide) hc
      simp only [Sql.isGap, Bool.or_eq_false_iff, decide_eq_false_iff_not]
      refine ⟨⟨?_, ?_⟩, ?_⟩ <;> rintro rfl <;> revert hd <;> decide
  | mysql => exact Sql.words_plain (by simp [placeholder]) (by simp [placeholder, Sql.isGap])
  | sqlite => exact Sql.words_plain (by simp [placeholder]) (by simp [placeholder, Sql.isGap])

theorem Predicate.words_pieces (b : Backend) (n : Nat) (p : Predicate) :
    Sql.words (p.pieces b n) =
      [(Column.ofField p.field).pieces, plain p.comparator.operator, plain (b.placeholder n)] := by
  have hspace : Sql.isGap (.plain ' ') = true := rfl
  have hpieces : p.pieces b n = (Column.ofField p.field).pieces ++
      .plain ' ' :: (plain p.comparator.operator ++ .plain ' ' :: plain (b.placeholder n)) := by
    simp [pieces, Sql.plain_append, Sql.plain_space]
  rw [hpieces, Sql.words_append_gap hspace, Sql.words_append_gap hspace, Column.words_pieces,
    Comparator.words_operator, Backend.words_placeholder]
  rfl

theorem Clause.words_enclose (bare : Bool) (ps : List Piece) :
    Sql.words (enclose bare ps) = Sql.words ps := by
  cases bare with
  | true => rfl
  | false =>
    have hopen : Sql.isGap (.plain '(') = true := rfl
    have hclose : Sql.isGap (.plain ')') = true := rfl
    have hpieces : enclose false ps = [] ++ .plain '(' :: (ps ++ .plain ')' :: []) := rfl
    rw [hpieces, Sql.words_append_gap hopen, Sql.words_append_gap hclose]
    simp [Sql.words_nil]

theorem Clause.words_pieces (b : Backend) (used : Nat) (c : Clause) :
    Sql.words (c.pieces b used) = c.words b used := by
  induction c generalizing used with
  | constant value => cases value <;> exact Sql.words_plain (by decide) (by simp [Sql.isGap])
  | comparison p => exact p.words_pieces b _
  | join op left right ihl ihr =>
    have hspace : Sql.isGap (.plain ' ') = true := rfl
    rw [pieces, Sql.plain_spaced, Sql.words_append_gap hspace, Sql.words_append_gap hspace,
      words_enclose, words_enclose, ihl, ihr, BoolOp.words_symbol]
    rfl

theorem Clause.words_statement (b : Backend) (table : String) (c : Clause) :
    Sql.words (c.statement b table) =
      [plain "SELECT", plain "*", plain "FROM", [.name table], plain "WHERE"] ++ c.words b 0 := by
  have hspace : Sql.isGap (.plain ' ') = true := rfl
  have hpieces : c.statement b table = plain "SELECT" ++ .plain ' ' :: (plain "*" ++ .plain ' ' ::
      (plain "FROM" ++ .plain ' ' :: ([.name table] ++ .plain ' ' ::
        (plain "WHERE" ++ .plain ' ' :: c.pieces b 0)))) := rfl
  rw [hpieces]
  simp only [Sql.words_append_gap hspace]
  rw [words_pieces]
  rfl

-- ---------------------------------------------------------------------------
-- Placeholders and what stands before them
-- ---------------------------------------------------------------------------

theorem Column.hasMark_pieces (b : Backend) (c : Column) : Sql.hasMark b c.pieces = false := by
  cases c <;> cases b <;> simp [pieces, Sql.hasMark, Sql.mark]

theorem Comparator.hasMark_operator (b : Backend) (c : Comparator) :
    Sql.hasMark b (plain c.operator) = false := by
  cases b <;> cases c <;> decide

theorem BoolOp.hasMark_symbol (b : Backend) (op : BoolOp) :
    Sql.hasMark b (plain op.symbol) = false := by
  cases b <;> cases op <;> decide

theorem Backend.hasMark_placeholder (b : Backend) (n : Nat) :
    Sql.hasMark b (plain (b.placeholder n)) = true := by
  cases b <;> simp [Sql.hasMark, Sql.mark, plain, placeholder]

/-- The comparisons of a clause are those of its predicates. Which two words
come before the clause does not matter, and two words come after it again. -/
theorem Clause.comparisons_words (b : Backend) (used : Nat) (c : Clause) (u v : List Piece) :
    ∃ x y : List Piece, ∀ rest : List (List Piece),
      Sql.comparisons b (u :: v :: c.words b used ++ rest) =
        (c.predicates.mapIdx fun i p => p.comparison b (used + i + 1)) ++
          Sql.comparisons b (x :: y :: rest) := by
  induction c generalizing used u v with
  | constant value =>
    refine ⟨v, plain (if value then "TRUE" else "FALSE"), fun rest => ?_⟩
    have hword : Sql.hasMark b (plain (if value then "TRUE" else "FALSE")) = false := by
      cases b <;> cases value <;> decide
    exact Sql.comparisons_cons_of_no_mark hword
  | comparison p =>
    refine ⟨plain p.comparator.operator, plain (b.placeholder (used + 1)), fun rest => ?_⟩
    have hwords : u :: v :: (comparison p).words b used ++ rest =
        u :: v :: (Column.ofField p.field).pieces :: plain p.comparator.operator ::
          plain (b.placeholder (used + 1)) :: rest := rfl
    rw [hwords, Sql.comparisons_cons_of_no_mark (Column.hasMark_pieces b _),
      Sql.comparisons_cons_of_no_mark (Comparator.hasMark_operator b _),
      Sql.comparisons_cons_of_mark (b.hasMark_placeholder _)]
    rfl
  | join op left right ihl ihr =>
    obtain ⟨x, y, hleft⟩ := ihl used u v
    obtain ⟨x', y', hright⟩ := ihr (used + left.predicates.length) y (plain op.symbol)
    refine ⟨x', y', fun rest => ?_⟩
    have hwords : u :: v :: (join op left right).words b used ++ rest =
        u :: v :: left.words b used ++
          (plain op.symbol :: right.words b (used + left.predicates.length) ++ rest) := by
      simp [words]
    have hshift : (fun i p => p.comparison b (used + (i + left.predicates.length) + 1)) =
        fun i (p : Predicate) => p.comparison b (used + left.predicates.length + i + 1) := by
      funext i p
      congr 1
      omega
    rw [hwords, hleft, List.cons_append, Sql.comparisons_cons_of_no_mark (op.hasMark_symbol b),
      ← List.cons_append, ← List.cons_append, hright, predicates, List.mapIdx_append, hshift,
      List.append_assoc]

theorem Clause.comparisons_statement (b : Backend) (table : String) (c : Clause) :
    Sql.comparisons b (Sql.words (c.statement b table)) =
      c.predicates.mapIdx fun i p => p.comparison b (i + 1) := by
  obtain ⟨x, y, h⟩ := c.comparisons_words b 0 [.name table] (plain "WHERE")
  have hwords := h []
  rw [List.append_nil] at hwords
  have hstar : Sql.hasMark b (plain "FROM") = false := by cases b <;> decide
  have hname : Sql.hasMark b [.name table] = false := by cases b <;> simp [Sql.hasMark, Sql.mark]
  have hwhere : Sql.hasMark b (plain "WHERE") = false := by cases b <;> decide
  rw [words_statement]
  simp only [List.cons_append, List.nil_append]
  rw [Sql.comparisons_cons_of_no_mark hstar, Sql.comparisons_cons_of_no_mark hname,
    Sql.comparisons_cons_of_no_mark hwhere, hwords]
  simp [Sql.comparisons]

theorem Clause.filter_hasMark_statement (b : Backend) (table : String) (c : Clause) :
    (Sql.words (c.statement b table)).filter (Sql.hasMark b) =
      (List.range c.predicates.length).map fun i => plain (b.placeholder (i + 1)) := by
  have hselect : Sql.hasMark b (plain "SELECT") = false := by cases b <;> decide
  have hstar : Sql.hasMark b (plain "*") = false := by cases b <;> decide
  have hright : (Sql.words (c.statement b table)).filter (Sql.hasMark b) =
      (Sql.comparisons b (Sql.words (c.statement b table))).map Sql.Comparison.right := by
    rw [Sql.map_right_comparisons, words_statement]
    simp [hselect, hstar]
  rw [hright, comparisons_statement]
  refine List.ext_getElem (by simp) fun i hi hi' => ?_
  simp [Predicate.comparison]

theorem Backend.placeholder_eq (b : Backend) (n : Nat) :
    b.placeholder n = if b = .postgres then "$" ++ n.repr else "?" := by
  cases b <;> rfl

-- ---------------------------------------------------------------------------
-- Outlines
-- ---------------------------------------------------------------------------

def Column.isQualified : Column → Bool
  | .plain _ => false
  | .qualified _ _ => true

/-- The comparator, and of the field only whether it names a table. -/
def Predicate.outline (p : Predicate) : Predicate where
  field := if (Column.ofField p.field).isQualified then "table.column" else "column"
  comparator := p.comparator
  value := ""

mutual
def Filter.outline : Filter → Filter
  | .predicate p => .predicate p.outline
  | .group op children => .group op (Filter.outlineList children)
def Filter.outlineList : List Filter → List Filter
  | [] => []
  | f :: fs => f.outline :: Filter.outlineList fs
end

def Clause.outline : Clause → Clause
  | .constant value => .constant value
  | .comparison p => .comparison p.outline
  | .join op left right => .join op left.outline right.outline

theorem Filter.outlineList_eq_map (fs : List Filter) : outlineList fs = fs.map outline := by
  induction fs with
  | nil => rfl
  | cons f fs ih => simp [outlineList, ih]

theorem Filter.joinOnto_outline {op : BoolOp} {left : Clause} {fs : List Filter}
    (h : ∀ f ∈ fs, f.outline.clause = f.clause.outline) :
    joinOnto op left.outline (fs.map outline) = (joinOnto op left fs).outline := by
  induction fs generalizing left with
  | nil => rfl
  | cons f fs ih =>
    obtain ⟨hf, hfs⟩ := List.forall_mem_cons.1 h
    rw [List.map_cons, joinOnto, joinOnto, hf, ← ih hfs]
    rfl

theorem Filter.clause_outline (f : Filter) : f.outline.clause = f.clause.outline := by
  induction f with
  | predicate p => simp [outline, clause, Clause.outline]
  | group op children ih =>
    rw [outline, outlineList_eq_map]
    cases children with
    | nil => simp [clause, Clause.outline]
    | cons c children =>
      obtain ⟨hc, hcs⟩ := List.forall_mem_cons.1 ih
      rw [List.map_cons, clause_group_cons, clause_group_cons, hc, joinOnto_outline hcs]

theorem Column.outside_pieces (c : Column) : c.pieces.map Piece.outside =
    if c.isQualified then [none, some '.', none] else [none] := by
  cases c <;> rfl

theorem Column.isQualified_outline (p : Predicate) :
    (ofField p.outline.field).isQualified = (ofField p.field).isQualified := by
  have hplain : (ofField "column").isQualified = false := rfl
  have hqualified : (ofField "table.column").isQualified = true := rfl
  cases h : (ofField p.field).isQualified with
  | false => simp [Predicate.outline, h, hplain]
  | true => simp [Predicate.outline, h, hqualified]

theorem Predicate.outside_outline (b : Backend) (n : Nat) (p : Predicate) :
    (p.outline.pieces b n).map Piece.outside = (p.pieces b n).map Piece.outside := by
  rw [pieces, pieces, List.map_append, List.map_append, Column.outside_pieces,
    Column.outside_pieces, Column.isQualified_outline]
  rfl

theorem Clause.op?_outline (c : Clause) : c.outline.op? = c.op? := by
  cases c <;> rfl

theorem Clause.length_predicates_outline (c : Clause) :
    c.outline.predicates.length = c.predicates.length := by
  induction c with
  | constant value => rfl
  | comparison p => rfl
  | join op left right ihl ihr => simp [outline, predicates, ihl, ihr]

theorem Clause.outside_enclose {rs : List Piece}
    (h : ps.map Piece.outside = rs.map Piece.outside) :
    (enclose bare ps).map Piece.outside = (enclose bare rs).map Piece.outside := by
  cases bare with
  | true => exact h
  | false => simp [enclose, h]

theorem Clause.outside_outline (b : Backend) (used : Nat) (c : Clause) :
    (c.outline.pieces b used).map Piece.outside = (c.pieces b used).map Piece.outside := by
  induction c generalizing used with
  | constant value => rfl
  | comparison p => exact p.outside_outline b _
  | join op left right ihl ihr =>
    have hleft : left.outline.bareLeft op = left.bareLeft op := by
      rw [bareLeft, op?_outline, bareLeft]
    have hright : right.outline.bareRight = right.bareRight := by
      rw [bareRight, op?_outline, bareRight]
    rw [outline, pieces, pieces, hleft, hright, length_predicates_outline]
    simp only [List.map_append, outside_enclose (ihl used),
      outside_enclose (ihr (used + left.predicates.length))]

theorem Filter.outside_select (b : Backend) (table : String) (f : Filter) :
    Sql.outside b (f.select b table).sql =
      some ((f.outline.clause.statement b "").map Piece.outside) := by
  rw [Sql.outside, pieces_select, clause_outline]
  simp [Clause.statement, Clause.outside_outline, Piece.outside]

/-- Selecting binds the values of the predicates in their order, each to a
placeholder of its own that stands behind the column of its predicate. Outside
of names, the statement is the same for all filters of one outline. -/
theorem select_binds_in_order (b : Backend) :
    (∀ (table : String) (f : Filter),
      (f.select b table).values = f.toFragment.args ∧
      ∃ ps, Sql.pieces b (f.select b table).sql.toList = some ps ∧
        ((Sql.words ps).filter (Sql.hasMark b) =
          (List.range f.predicates.length).map fun i =>
            plain (if b = .postgres then "$" ++ (i + 1).repr else "?")) ∧
        Sql.comparisons b (Sql.words ps) =
          f.predicates.mapIdx fun i p =>
            { left := (Column.ofField p.field).pieces
              sign := plain p.comparator.operator
              right := plain (if b = .postgres then "$" ++ (i + 1).repr else "?") }) ∧
    ∀ (table table' : String) (f g : Filter), f.outline = g.outline →
      Sql.outside b (f.select b table).sql = Sql.outside b (g.select b table').sql := by
  refine ⟨fun table f => ⟨f.values_select b table, _, f.pieces_select b table, ?_, ?_⟩, ?_⟩
  · rw [Clause.filter_hasMark_statement, f.predicates_clause]
    simp only [b.placeholder_eq]
  · rw [Clause.comparisons_statement, f.predicates_clause]
    simp only [Predicate.comparison, b.placeholder_eq]
  · intro table table' f g hfg
    rw [Filter.outside_select, Filter.outside_select, hfg]

/-- Names made of quotes, signs of placeholders and pieces of SQL stay names,
empty groups are written as constants, and a filter with harmless names gives
the same text around them. -/
theorem select_binds_in_order_strange :
    let f : Filter := .group .or [.group .and [],
      .group .and [.predicate ⟨"a\" = $7 OR \"b", .ne, "1"⟩, .predicate ⟨"x.$1", .lt, "2"⟩]]
    let g : Filter := .group .or [.group .and [],
      .group .and [.predicate ⟨"age", .ne, "?"⟩, .predicate ⟨"users.name", .lt, ""⟩]]
    (f.select .postgres "t\"; DROP").sql =
        "SELECT * FROM \"t\"\"; DROP\" WHERE " ++
          "TRUE OR (\"a\"\" = $7 OR \"\"b\" <> $1 AND \"x\".\"$1\" < $2)" ∧
      (f.select .postgres "t\"; DROP").values = ["1", "2"] ∧
      f.outline = g.outline ∧
      Sql.outside .postgres (f.select .postgres "t\"; DROP").sql =
        Sql.outside .postgres (g.select .postgres "t").sql := by
  intro f g
  obtain ⟨hbind, houtside⟩ := select_binds_in_order .postgres
  have houtline : f.outline = g.outline := by decide
  refine ⟨by decide, (hbind _ f).1, houtline, houtside _ _ f g houtline⟩

end FilterQuery
