import FilterQuery.Proofs.Select.Binding

/-!
# Columns name their fields

The text of a column is read as names with dots between them
(`Sql.readColumn`), and the names put together again are the field
(`Column.intercalate_names`). So no two fields share a column
(`Column.render_injective`): a field that holds quotes and dots to look like two
names is still read as one.
-/

namespace FilterQuery

open Sql (Piece)

namespace Sql

def names : List Piece → Option (List String)
  | [.name n] => some [n]
  | .name n :: .plain '.' :: rest => (names rest).map (n :: ·)
  | _ => none

def readColumn (b : Backend) (text : String) : Option (List String) :=
  (pieces b text.toList).bind names

end Sql

structure Column.OneInnerDot (field : String) : Prop where
  count : field.toList.count '.' = 1
  first : field.toList.head? ≠ some '.'
  last : field.toList.getLast? ≠ some '.'

def Column.names : Column → List String
  | .plain name => [name]
  | .qualified table name => [table, name]

variable {b : Backend} {field : String}

namespace Column

theorem names_pieces (c : Column) : Sql.names c.pieces = some c.names := by
  cases c <;> rfl

theorem readColumn_render (b : Backend) (c : Column) :
    Sql.readColumn b (c.render b) = some c.names := by
  rw [Sql.readColumn, ← spell_pieces, (c.legible b).pieces_spell]
  exact names_pieces c

theorem oneInnerDot_iff {table name : List Char} (hfield : field.toList = table ++ '.' :: name)
    (hdot : '.' ∉ table) : OneInnerDot field ↔ table ≠ [] ∧ name ≠ [] ∧ '.' ∉ name := by
  have hcount : table.count '.' = 0 := List.count_eq_zero.2 hdot
  constructor
  · rintro ⟨hone, hfirst, hlast⟩
    rw [hfield] at hone hfirst hlast
    refine ⟨?_, ?_, ?_⟩
    · rintro rfl
      exact hfirst rfl
    · rintro rfl
      exact hlast List.getLast?_concat
    · rw [List.count_append, List.count_cons_self, hcount] at hone
      exact List.count_eq_zero.1 (by omega)
  · rintro ⟨htable, hname, hmem⟩
    refine ⟨?_, ?_, ?_⟩
    · simp [hfield, hcount, List.count_eq_zero.2 hmem]
    · obtain ⟨c, cs, rfl⟩ := List.exists_cons_of_ne_nil htable
      rw [hfield]
      exact fun hhead => hdot (List.mem_cons.2 (.inl (Option.some.inj hhead).symm))
    · rw [hfield, ← List.singleton_append, ← List.append_assoc, List.getLast?_append,
        List.getLast?_eq_some_getLast hname, Option.some_or, ← List.getLast?_eq_some_getLast hname]
      exact fun hlast => hmem (List.mem_of_getLast? hlast)

theorem ofField_cases (field : String) :
    (¬OneInnerDot field ∧ ofField field = .plain field) ∨
      OneInnerDot field ∧ ∃ table name, ofField field = .qualified table name ∧
        field = table ++ "." ++ name := by
  obtain ⟨table, after, hfield, htable, hafter⟩ := Text.exists_run (· ≠ '.') field.toList
  have hdot : '.' ∉ table := Text.not_mem_of_all htable (by simp)
  simp only [ofField, hfield, Text.takeWhile_run htable hafter, Text.dropWhile_run htable hafter]
  cases after with
  | nil =>
    refine .inl ⟨fun h => ?_, rfl⟩
    have hone := h.count
    rw [hfield, List.append_nil, List.count_eq_zero.2 hdot] at hone
    cases hone
  | cons d name =>
    obtain rfl : d = '.' := by simpa using hafter
    rw [oneInnerDot_iff hfield hdot]
    dsimp only
    split
    · rename_i hplain
      simp only [Bool.or_eq_true, List.isEmpty_iff, List.contains_iff_mem] at hplain
      refine .inl ⟨?_, rfl⟩
      rintro ⟨htable, hname, hmem⟩
      rcases hplain with (h | h) | h
      · exact htable h
      · exact hname h
      · exact hmem h
    · rename_i hcut
      simp only [Bool.or_eq_true, List.isEmpty_iff, List.contains_iff_mem, not_or] at hcut
      obtain ⟨⟨htable, hname⟩, hmem⟩ := hcut
      refine .inr ⟨⟨htable, hname, hmem⟩, _, _, rfl, ?_⟩
      rw [← String.toList_inj, hfield]
      simp

theorem intercalate_names (field : String) : ".".intercalate (ofField field).names = field := by
  rcases ofField_cases field with ⟨-, hplain⟩ | ⟨-, table, name, hcut, hfield⟩
  · rw [hplain]
    simp [names]
  · rw [hcut, hfield]
    simp [names]

theorem render_injective {other : String}
    (h : (ofField other).render b = (ofField field).render b) : other = field := by
  have hnames : (ofField other).names = (ofField field).names := by
    have hread := readColumn_render b (ofField other)
    rw [h, readColumn_render] at hread
    exact (Option.some.inj hread).symm
  rw [← intercalate_names other, hnames, intercalate_names]

end Column

/-- Read as names joined by dots, the column of a field is the field itself, or
two names that the field joins with a dot, and the latter exactly when the field
has one dot inside. So different fields have different columns. In a statement,
the names that are read before the sign of each comparison are those of its
column. -/
theorem column_faithful (b : Backend) :
    (∀ field : String,
      (¬Column.OneInnerDot field ∧
        Sql.readColumn b ((Column.ofField field).render b) = some [field]) ∨
      (Column.OneInnerDot field ∧ ∃ table name, field = table ++ "." ++ name ∧
        Sql.readColumn b ((Column.ofField field).render b) = some [table, name])) ∧
    (∀ field other : String,
      (Column.ofField other).render b = (Column.ofField field).render b → other = field) ∧
    ∀ (table : String) (f : Filter), ∃ ps,
      Sql.pieces b (f.select b table).sql.toList = some ps ∧
      (Sql.comparisons b (Sql.words ps)).map (fun c => Sql.names c.left) =
        f.predicates.map fun p => Sql.readColumn b ((Column.ofField p.field).render b) := by
  refine ⟨fun field => ?_, fun field other => Column.render_injective, fun table f => ?_⟩
  · rw [Column.readColumn_render]
    rcases Column.ofField_cases field with ⟨hnot, hplain⟩ | ⟨hdot, table, name, hcut, hfield⟩
    · exact .inl ⟨hnot, by rw [hplain]; rfl⟩
    · exact .inr ⟨hdot, table, name, hfield, by rw [hcut]; rfl⟩
  · refine ⟨_, f.pieces_select b table, ?_⟩
    rw [Clause.comparisons_statement, f.predicates_clause]
    refine List.ext_getElem (by simp) fun i hi hi' => ?_
    simp [Predicate.comparison, Column.names_pieces, Column.readColumn_render]

/-- A field with quotes and dots that imitate three names is one name, and not
the column of the field that it imitates. -/
theorem column_faithful_imitation :
    let imitation := "t\".\"a\".\"b"
    Sql.readColumn .sqlite ((Column.ofField imitation).render .sqlite) = some [imitation] ∧
      (Column.ofField imitation).render .sqlite ≠ (Column.ofField "t.a.b").render .sqlite := by
  intro imitation
  obtain ⟨hread, hinjective, -⟩ := column_faithful .sqlite
  have htwo : ¬Column.OneInnerDot imitation := fun h => absurd h.count (by decide)
  refine ⟨?_, fun h => absurd (hinjective _ _ h) (by decide)⟩
  rcases hread imitation with ⟨-, h⟩ | ⟨h, -⟩
  · exact h
  · exact absurd h htwo

end FilterQuery
