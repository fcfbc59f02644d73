import Mathlib
import FilterQuery.Proofs.Filter.Written

/-!
# No other words in a condition

Cut at its spaces, the condition of an accepted text consists of parentheses,
operators, comparators, placeholders and names that can be read as fields
(`mem_split_sql`). Such a name holds no space and is never a parenthesis, an
operator or a comparator, whatever the allow-list holds. A field can be called
`?`, so a placeholder and a field may look alike.
-/

namespace FilterQuery

open Token (IsField)

def conditionSigns : List String :=
  ["(", ")", "AND", "OR", "=", "!=", "<", "<=", ">", ">="]

variable {fields : AllowList} {text : String} {name w : String} {f : Filter} {F : Fragment}

theorem Token.IsField.not_mem_conditionSigns (h : IsField fields name) :
    name ∉ conditionSigns := by
  have hsigns : ∀ w ∈ conditionSigns, isReserved w = true ∨ isWord w.toList = false := by decide
  intro hm
  rcases hsigns name hm with hr | hw
  · simp [h.not_reserved] at hr
  · simp [h.word] at hw

theorem Token.IsField.space_not_mem (h : IsField fields name) : ' ' ∉ name.toList := by
  intro hm
  have hb := (not_blank_or_sign_of_mem_word h.word hm).1
  exact absurd hb (by decide)

theorem BoolOp.symbol_mem_conditionSigns (op : BoolOp) : op.symbol ∈ conditionSigns := by
  cases op <;> simp [conditionSigns, BoolOp.symbol]

theorem Comparator.symbol_mem_conditionSigns (c : Comparator) : c.symbol ∈ conditionSigns := by
  cases c <;> simp [conditionSigns, Comparator.symbol]

theorem Filter.mem_words (f : Filter) :
    ∀ w ∈ f.words, w ∈ conditionSigns ∨ w = "?" ∨ ∃ p ∈ f.predicates, p.field = w := by
  have htokens : ∀ t ∈ f.tokens,
      t.word ∈ conditionSigns ∨ t.word = "?" ∨ ∃ p ∈ f.predicates, p.field = t.word := by
    refine forall_mem_tokens (.inl (by decide)) (.inl (by decide)) ?_ ?_
    · intro op
      exact .inl op.symbol_mem_conditionSigns
    · intro p hp
      refine ⟨.inr (.inr ⟨p, hp, rfl⟩), .inl ?_, .inr (.inl rfl)⟩
      exact p.comparator.symbol_mem_conditionSigns
  intro w hw
  rw [words_eq_map_tokens] at hw
  obtain ⟨t, ht, rfl⟩ := List.mem_map.1 hw
  exact htokens t ht

/-- The condition of an accepted text holds no words but its own signs, the
placeholder and allowed names that read as fields. -/
theorem mem_split_sql (fields : AllowList) (text : String) (F : Fragment)
    (h : compile text fields = .ok F) :
    (∀ w ∈ (F.sql.split ' ').toList.map (·.copy),
        w ∈ conditionSigns ∨ w = "?" ∨ IsField fields w) ∧
      ∀ w, IsField fields w → w ∉ conditionSigns := by
  refine ⟨?_, fun w hw => hw.not_mem_conditionSigns⟩
  obtain ⟨f, hf, rfl⟩ := compile_eq_ok_iff.1 h
  have hlegal := predicates_legal_of_parse hf
  have hwords : ∀ w ∈ f.words, w ∈ conditionSigns ∨ w = "?" ∨ IsField fields w := by
    intro w hw
    rcases f.mem_words w hw with h | h | ⟨p, hp, rfl⟩
    · exact .inl h
    · exact .inr (.inl h)
    · exact .inr (.inr (hlegal p hp).field)
  have hspace : ∀ w ∈ f.words, ' ' ∉ w.toList := by
    have hsigns : ∀ w ∈ conditionSigns, ' ' ∉ w.toList := by decide
    intro w hw
    rcases hwords w hw with h | rfl | h
    · exact hsigns w h
    · decide
    · exact h.space_not_mem
  have hsplit : (f.toFragment.sql.split ' ').toList.map (·.copy) = f.words := by
    have hs := String.toList_split_intercalate hspace
    rw [if_neg f.words_ne_nil] at hs
    exact hs
  rw [hsplit]
  exact hwords

/-- An allow-list of strange names gives no strange words. -/
theorem mem_split_sql_strange :
    compile "?x = \"1\" Or é.2 < \"2\"" (.ofList ["(", "a b", "OR", "?x", "é.2", "1=1"]) =
        .ok ⟨"( ?x = ? OR é.2 < ? )", ["1", "2"]⟩ ∧
      ∀ w ∈ ("( ?x = ? OR é.2 < ? )".split ' ').toList.map (·.copy),
        w ∈ conditionSigns ∨ w = "?" ∨
          IsField (.ofList ["(", "a b", "OR", "?x", "é.2", "1=1"]) w := by
  have h : compile "?x = \"1\" Or é.2 < \"2\"" (.ofList ["(", "a b", "OR", "?x", "é.2", "1=1"]) =
      .ok ⟨"( ?x = ? OR é.2 < ? )", ["1", "2"]⟩ := by cbv
  exact ⟨h, (mem_split_sql _ _ _ h).1⟩

end FilterQuery
