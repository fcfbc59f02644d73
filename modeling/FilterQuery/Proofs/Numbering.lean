import FilterQuery.Proofs.Injection
import FilterQuery.Proofs.Placeholder.Pieces

/-!
# Every marker stands behind its own predicate

`number_toFragment`: numbering the condition of a filter, whatever its fields
are called, either marks its values with 1, 2 and so on from left to right
(`Filter.numberedWords`), or is refused because fields hold placeholders too.
`compileWith_eq_numbered` says the same of a text and a configuration, where a
question mark can only begin a field.

The reason is that there is a space between any two words of a condition: no run
of question marks goes from a field into what stands beside it.
-/

namespace FilterQuery

def Placeholder.Style.marker (style : Style) (n : Nat) : String :=
  String.ofList [style.sign] ++ n.repr

mutual
/-- The words of the condition with every value marked by its number, which is
one more than the number of predicates before it. -/
def Filter.numberedWords (style : Placeholder.Style) (before : Nat) : Filter → List String
  | .predicate p => [p.field, p.comparator.symbol, style.marker (before + 1)]
  | .group _ [] => ["(", ")"]
  | .group op (f :: fs) =>
    "(" :: f.numberedWords style before ++
      Filter.numberedWordsAfter style (before + f.predicates.length) op fs ++ [")"]
def Filter.numberedWordsAfter (style : Placeholder.Style) (before : Nat) (op : BoolOp) :
    List Filter → List String
  | [] => []
  | f :: fs =>
    op.symbol :: f.numberedWords style before ++
      Filter.numberedWordsAfter style (before + f.predicates.length) op fs
end

mutual
def Filter.mapFields (g : String → String) : Filter → Filter
  | .predicate p => .predicate { p with field := g p.field }
  | .group op children => .group op (Filter.mapFieldsList g children)
def Filter.mapFieldsList (g : String → String) : List Filter → List Filter
  | [] => []
  | f :: fs => f.mapFields g :: Filter.mapFieldsList g fs
end

def Placeholder.leads (word : String) : Bool :=
  word.toList.head? = some '?'

variable {style : Placeholder.Style} {used : Nat} {words ws : List String} {w : String} {f : Filter}
  {fields : AllowList}

-- ---------------------------------------------------------------------------
-- Words
-- ---------------------------------------------------------------------------

namespace Placeholder

theorem count_spaced (words : List String) :
    (pieces (words.flatMap fun w => ' ' :: w.toList)).count .placeholder =
      (words.map count).sum := by
  rw [pieces_spaced]
  induction words with
  | nil => rfl
  | cons w words ih =>
    rw [List.flatMap_cons, List.cons_append, count_plain_cons, List.count_append, ih,
      List.map_cons, List.sum_cons]
    rfl

theorem count_question : count "?" = 1 := by decide

theorem numberEach_cons_question :
    numberEach style used ("?" :: ws) =
      style.marker (used + 1) :: numberEach style (used + 1) ws := by
  have hpieces : pieces "?".toList = [.placeholder] := by decide
  rw [numberEach, count_question, hpieces]
  simp [writeNumbered, Style.marker, ← Nat.toList_repr]

def FrontOnly (word : String) : Prop :=
  '?' ∉ word.toList.tail

theorem not_mem_of_frontOnly (h : FrontOnly w) (hl : leads w = false) : '?' ∉ w.toList := by
  unfold FrontOnly at h
  unfold leads at hl
  cases hw : w.toList with
  | nil => simp
  | cons c tail =>
    simp only [hw, List.head?_cons, decide_eq_false_iff_not, Option.some.injEq] at hl
    simp only [hw, List.tail_cons] at h
    simp [Ne.symm hl, h]

theorem count_of_frontOnly (h : FrontOnly w) : count w = if leads w then 1 else 0 := by
  split
  · rename_i hl
    obtain ⟨tail, hw⟩ := List.head?_eq_some_iff.1 (of_decide_eq_true hl)
    rw [FrontOnly, hw, List.tail_cons] at h
    have hhead : tail.head? ≠ some '?' := fun hd => h (List.mem_of_mem_head? hd)
    rw [count, hw, pieces_question hhead, pieces_of_not_mem h, count_placeholder_cons,
      count_map_plain]
  · rename_i hl
    exact count_of_not_mem (not_mem_of_frontOnly h (by simpa using hl))

theorem question_not_mem_marker (n : Nat) : '?' ∉ (style.marker n).toList := by
  have hdigits : '?' ∉ Nat.toDigits 10 n := by
    intro hm
    have hd := Nat.isDigit_of_mem_toDigits (by decide) (by decide) hm
    revert hd
    decide
  cases style <;> simpa [Style.marker, Style.sign, Nat.toList_repr] using hdigits

theorem undoubled_of_not_mem (h : '?' ∉ w.toList) : undoubled w = w := by
  rw [undoubled, undouble_of_not_mem h, String.ofList_toList]

theorem question_not_mem_numberEach (h : ∀ w ∈ words, w = "?" ∨ '?' ∉ w.toList) :
    ∀ w ∈ numberEach style used words, '?' ∉ w.toList := by
  induction words generalizing used with
  | nil => simp [numberEach]
  | cons w words ih =>
    obtain ⟨hw, hwords⟩ := List.forall_mem_cons.1 h
    rcases hw with rfl | hw
    · rw [numberEach_cons_question]
      exact List.forall_mem_cons.2 ⟨question_not_mem_marker _, ih hwords⟩
    · rw [numberEach_cons_of_count_eq_zero (count_of_not_mem hw), undoubled_of_not_mem hw]
      exact List.forall_mem_cons.2 ⟨hw, ih hwords⟩

end Placeholder

-- ---------------------------------------------------------------------------
-- Words of a filter
-- ---------------------------------------------------------------------------

theorem question_not_mem_conditionSigns : ∀ w ∈ conditionSigns, '?' ∉ w.toList := by decide

namespace Filter

open Placeholder (count leads FrontOnly numberEach undoubled)

theorem count_sign (h : w ∈ conditionSigns) : count w = 0 :=
  Placeholder.count_of_not_mem (question_not_mem_conditionSigns w h)

theorem numberEach_sign (h : w ∈ conditionSigns) :
    numberEach style used (w :: ws) = w :: numberEach style used ws := by
  rw [Placeholder.numberEach_cons_of_count_eq_zero (count_sign h),
    Placeholder.undoubled_of_not_mem (question_not_mem_conditionSigns w h)]

theorem mapFieldsList_eq_map (g : String → String) (fs : List Filter) :
    mapFieldsList g fs = fs.map (mapFields g) := by
  induction fs with
  | nil => rfl
  | cons f fs ih => simp [mapFieldsList, ih]

theorem mapFields_group (g : String → String) (op : BoolOp) (fs : List Filter) :
    (Filter.group op fs).mapFields g = .group op (fs.map (mapFields g)) := by
  rw [mapFields, mapFieldsList_eq_map]

theorem predicates_mapFields (g : String → String) (f : Filter) :
    (f.mapFields g).predicates = f.predicates.map fun p => { p with field := g p.field } := by
  induction f with
  | predicate p => rfl
  | group op children ih =>
    rw [mapFields_group, predicates_group, predicates_group, List.flatMap_map, List.map_flatMap]
    exact List.flatMap_congr ih

theorem mapFields_eq_self {g : String → String} (h : ∀ p ∈ f.predicates, g p.field = p.field) :
    f.mapFields g = f := by
  induction f with
  | predicate p => rw [mapFields, h p (by simp [predicates])]
  | group op children ih =>
    have hchildren : children.map (mapFields g) = children.map id := by
      refine List.map_congr_left fun c hc => ih c hc fun p hp => h p ?_
      rw [predicates_group]
      exact List.mem_flatMap.2 ⟨c, hc, hp⟩
    rw [mapFields_group, hchildren, List.map_id]

theorem sum_count_after {fs : List Filter} (op : BoolOp)
    (h : ∀ f ∈ fs, (f.words.map count).sum =
      f.predicates.length + (f.predicates.map fun p => count p.field).sum) :
    ((wordsAfter op fs).map count).sum =
      (fs.flatMap predicates).length +
        ((fs.flatMap predicates).map fun p => count p.field).sum := by
  induction fs with
  | nil => rfl
  | cons f fs ih =>
    obtain ⟨hf, hfs⟩ := List.forall_mem_cons.1 h
    simp only [wordsAfter, List.cons_append, List.map_cons, List.map_append, List.sum_cons,
      List.sum_append, count_sign op.symbol_mem_conditionSigns, hf, ih hfs, List.flatMap_cons,
      List.length_append]
    omega

theorem sum_count_words (f : Filter) :
    (f.words.map count).sum =
      f.predicates.length + (f.predicates.map fun p => count p.field).sum := by
  have hopen : count "(" = 0 := by decide
  have hclose : count ")" = 0 := by decide
  induction f with
  | predicate p =>
    simp [words, predicates, count_sign p.comparator.symbol_mem_conditionSigns,
      Placeholder.count_question, Nat.add_comm]
  | group op children ih =>
    cases children with
    | nil => simp [words, hopen, hclose]
    | cons c children =>
      obtain ⟨hc, hcs⟩ := List.forall_mem_cons.1 ih
      simp only [words, List.cons_append, List.append_assoc, List.map_cons, List.map_append,
        List.sum_cons, List.sum_append, hc, sum_count_after op hcs, predicates_group,
        List.flatMap_cons, List.length_append, hopen, hclose, List.map_nil, List.sum_nil]
      omega

theorem numberEach_after {fs : List Filter} (op : BoolOp)
    (h : ∀ f ∈ fs, ∀ used ws, numberEach style used (f.words ++ ws) =
      (f.mapFields undoubled).numberedWords style used ++
        numberEach style (used + f.predicates.length) ws) :
    numberEach style used (wordsAfter op fs ++ ws) =
      numberedWordsAfter style used op (fs.map (mapFields undoubled)) ++
        numberEach style (used + (fs.flatMap predicates).length) ws := by
  induction fs generalizing used with
  | nil => rfl
  | cons f fs ih =>
    obtain ⟨hf, hfs⟩ := List.forall_mem_cons.1 h
    rw [wordsAfter, List.append_assoc, List.cons_append,
      numberEach_sign op.symbol_mem_conditionSigns, hf, ih hfs]
    simp [numberedWordsAfter, predicates_mapFields, Nat.add_assoc]

/-- Numbering the words of a condition from left to right gives every value the
number of its predicate, whatever words follow. -/
theorem numberEach_words (h : ∀ p ∈ f.predicates, count p.field = 0) :
    numberEach style used (f.words ++ ws) =
      (f.mapFields undoubled).numberedWords style used ++
        numberEach style (used + f.predicates.length) ws := by
  induction f generalizing used ws with
  | predicate p =>
    have hfield : count p.field = 0 := h p (by simp [predicates])
    simp only [words, List.cons_append, List.nil_append]
    rw [Placeholder.numberEach_cons_of_count_eq_zero hfield,
      numberEach_sign p.comparator.symbol_mem_conditionSigns,
      Placeholder.numberEach_cons_question]
    rfl
  | group op children ih =>
    rw [mapFields_group]
    cases children with
    | nil =>
      simp only [words, List.cons_append, List.nil_append]
      rw [numberEach_sign (by decide), numberEach_sign (by decide)]
      rfl
    | cons c children =>
      have hchild : ∀ f ∈ c :: children, ∀ p ∈ f.predicates, count p.field = 0 := by
        intro f hf p hp
        refine h p ?_
        rw [predicates_group]
        exact List.mem_flatMap.2 ⟨f, hf, hp⟩
      have hnumber : ∀ f ∈ c :: children, ∀ used ws, numberEach style used (f.words ++ ws) =
          (f.mapFields undoubled).numberedWords style used ++
            numberEach style (used + f.predicates.length) ws :=
        fun f hf _ _ => ih f hf (hchild f hf)
      obtain ⟨hc, hcs⟩ := List.forall_mem_cons.1 hnumber
      simp only [words, List.cons_append, List.append_assoc]
      rw [numberEach_sign (by decide), hc, numberEach_after op hcs, List.nil_append,
        numberEach_sign (by decide)]
      simp [numberedWords, predicates_mapFields, Nat.add_assoc]

theorem numberedWords_ne_nil (f : Filter) : f.numberedWords style used ≠ [] := by
  cases f with
  | predicate p => simp [numberedWords]
  | group op fs => cases fs <;> simp [numberedWords]

-- ---------------------------------------------------------------------------
-- Conditions
-- ---------------------------------------------------------------------------

theorem placeholders_eq (f : Filter) :
    f.toFragment.placeholders =
      f.predicates.length + (f.predicates.map fun p => count p.field).sum := by
  have hcount := Placeholder.count_spaced f.words
  rw [← toList_sql, Placeholder.pieces_cons_of_ne (by decide), Placeholder.count_plain_cons,
    sum_count_words] at hcount
  exact hcount

theorem toList_numberedWords (style : Placeholder.Style) (f : Filter) :
    ' ' :: (" ".intercalate (f.numberedWords style 0)).toList =
      (f.numberedWords style 0).flatMap fun w => ' ' :: w.toList := by
  have hne : f.numberedWords style 0 ≠ [] := f.numberedWords_ne_nil
  obtain ⟨w, ws, hw⟩ := List.exists_cons_of_ne_nil hne
  rw [hw, toList_intercalate_space]

theorem numberEach_eq (h : ∀ p ∈ f.predicates, count p.field = 0) :
    numberEach style 0 f.words = (f.mapFields undoubled).numberedWords style 0 := by
  have hwords : numberEach style 0 (f.words ++ []) =
      (f.mapFields undoubled).numberedWords style 0 ++
        numberEach style (0 + f.predicates.length) [] := numberEach_words h
  rw [List.append_nil, numberEach, List.append_nil] at hwords
  exact hwords

theorem number_sql_of_count_eq_zero (h : ∀ p ∈ f.predicates, count p.field = 0) :
    Placeholder.number style f.toFragment.sql =
      " ".intercalate ((f.mapFields undoubled).numberedWords style 0) := by
  have hwrite : Placeholder.writeNumbered style 0
      (Placeholder.pieces (f.words.flatMap fun w => ' ' :: w.toList)) =
      (numberEach style 0 f.words).flatMap fun w => ' ' :: w.toList :=
    Placeholder.writeNumbered_spaced f.words
  rw [← toList_sql, Placeholder.pieces_cons_of_ne (by decide), Placeholder.writeNumbered,
    numberEach_eq h, ← toList_numberedWords] at hwrite
  rw [Placeholder.number, (List.cons.inj hwrite).2, String.ofList_toList]

/-- Numbering the condition of a filter, with any texts as its fields. Every
predicate has one placeholder besides those in its field; where there are none
in any field, the `i`th value is marked with `i` and the fields are undoubled,
and otherwise the condition is refused. -/
theorem number_toFragment (f : Filter) (style : Placeholder.Style) :
    let n := f.predicates.length
    let placeholders := n + (f.predicates.map fun p => count p.field).sum
    count f.toFragment.sql = placeholders ∧
    ((∃ F, f.toFragment.number style = .ok F) ↔ ∀ p ∈ f.predicates, count p.field = 0) ∧
    ((∀ p ∈ f.predicates, count p.field = 0) →
      f.toFragment.number style = .ok
        { sql := " ".intercalate ((f.mapFields undoubled).numberedWords style 0)
          args := f.toFragment.args }) ∧
    ((¬∀ p ∈ f.predicates, count p.field = 0) →
      f.toFragment.number style = .error { placeholders, args := n }) := by
  intro n placeholders
  have hcount : f.toFragment.placeholders = placeholders := f.placeholders_eq
  have hargs : f.toFragment.args.length = n := List.length_map _
  have hsum : placeholders = n ↔ ∀ p ∈ f.predicates, count p.field = 0 := by
    rw [Nat.add_eq_left, List.sum_eq_zero_iff_forall_eq_nat, List.forall_mem_map]
  have hok (h : ∀ p ∈ f.predicates, count p.field = 0) :
      f.toFragment.number style = .ok
        { sql := " ".intercalate ((f.mapFields undoubled).numberedWords style 0)
          args := f.toFragment.args } := by
    rw [Fragment.number, hcount, hargs, if_pos (hsum.2 h), number_sql_of_count_eq_zero h]
  have herror (h : ¬∀ p ∈ f.predicates, count p.field = 0) :
      f.toFragment.number style = .error { placeholders, args := n } := by
    rw [Fragment.number, hcount, hargs, if_neg (mt hsum.1 h)]
  refine ⟨hcount, ⟨fun ⟨F, hF⟩ => ?_, fun h => ⟨_, hok h⟩⟩, hok, herror⟩
  by_contra h
  cases hF.symm.trans (herror h)

/-- Doubled question marks in a field, an empty name, an empty group and a value
that is a question mark; and a field of three question marks, the last of which
is a placeholder of its own. -/
theorem number_toFragment_strange :
    (Filter.group .or [.predicate ⟨"a??", .eq, "x"⟩, .group .and [],
        .predicate ⟨"", .lt, "?"⟩]).toFragment.number .dollar =
      .ok ⟨"( a? = $1 OR ( ) OR  < $2 )", ["x", "?"]⟩ ∧
    (Filter.predicate ⟨"???", .eq, "x"⟩).toFragment.number .colon =
      .error { placeholders := 2, args := 1 } := by
  constructor
  · have hnumber := (number_toFragment (.group .or [.predicate ⟨"a??", .eq, "x"⟩, .group .and [],
      .predicate ⟨"", .lt, "?"⟩]) .dollar).2.2.1 (by decide +kernel)
    rw [hnumber]
    cbv
  · have hcount : count "???" = 1 := by decide +kernel
    have hnumber := (number_toFragment (.predicate ⟨"???", .eq, "x"⟩) .colon).2.2.2
      (by simp [predicates, hcount])
    simpa [predicates, hcount] using hnumber

-- ---------------------------------------------------------------------------
-- Fields with a question mark at most in front
-- ---------------------------------------------------------------------------

theorem sum_count_of_frontOnly {ps : List Predicate} (h : ∀ p ∈ ps, FrontOnly p.field) :
    (ps.map fun p => count p.field).sum = ps.countP fun p => leads p.field := by
  induction ps with
  | nil => rfl
  | cons p ps ih =>
    obtain ⟨hp, hps⟩ := List.forall_mem_cons.1 h
    rw [List.map_cons, List.sum_cons, Placeholder.count_of_frontOnly hp, ih hps, List.countP_cons,
      Nat.add_comm]

theorem placeholders_toFragment (h : ∀ p ∈ f.predicates, FrontOnly p.field) :
    f.toFragment.placeholders =
      f.predicates.length + f.predicates.countP fun p => leads p.field := by
  rw [placeholders_eq, sum_count_of_frontOnly h]

theorem question_words (h : ∀ p ∈ f.predicates, '?' ∉ p.field.toList) :
    ∀ w ∈ f.words, w = "?" ∨ '?' ∉ w.toList := by
  intro w hw
  rcases f.mem_words w hw with hs | rfl | ⟨p, hp, rfl⟩
  · exact .inr (question_not_mem_conditionSigns w hs)
  · exact .inl rfl
  · exact .inr (h p hp)

theorem mapFields_undoubled (h : ∀ p ∈ f.predicates, '?' ∉ p.field.toList) :
    f.mapFields undoubled = f :=
  mapFields_eq_self fun p hp => Placeholder.undoubled_of_not_mem (h p hp)

theorem number_sql (h : ∀ p ∈ f.predicates, '?' ∉ p.field.toList) :
    Placeholder.number style f.toFragment.sql = " ".intercalate (f.numberedWords style 0) := by
  rw [number_sql_of_count_eq_zero fun p hp => Placeholder.count_of_not_mem (h p hp),
    mapFields_undoubled h]

theorem question_not_mem_numbered (h : ∀ p ∈ f.predicates, '?' ∉ p.field.toList) :
    '?' ∉ (" ".intercalate (f.numberedWords style 0)).toList := by
  intro hm
  have hm := List.mem_cons_of_mem ' ' hm
  rw [toList_numberedWords, ← mapFields_undoubled h,
    ← numberEach_eq fun p hp => Placeholder.count_of_not_mem (h p hp)] at hm
  obtain ⟨w, hw, hq⟩ := List.mem_flatMap.1 hm
  rcases List.mem_cons.1 hq with hspace | hq
  · exact absurd hspace (by decide)
  · exact Placeholder.question_not_mem_numberEach (question_words h) w hw hq

theorem Full.predicates_ne_nil (h : f.Full) : f.predicates ≠ [] := by
  induction f with
  | predicate p => simp [predicates]
  | group op children ih =>
    cases h with
    | group hne hfull =>
      obtain ⟨c, cs, rfl⟩ := List.exists_cons_of_ne_nil hne
      have hc : c.predicates ≠ [] := ih c List.mem_cons_self (hfull c List.mem_cons_self)
      simp [hc]

end Filter

theorem Token.IsField.frontOnly (h : Token.IsField fields w) : Placeholder.FrontOnly w := by
  have hword := h.word
  unfold Placeholder.FrontOnly
  cases hw : w.toList with
  | nil => simp
  | cons c tail =>
    rw [hw, Token.isWord_cons] at hword
    exact Text.not_mem_of_all hword.2.2 (by decide)

theorem compileWith_eq_number (text : String) (config : Config) :
    compileWith text config =
      match compile text config.fields with
      | .error e => .error (.parse e)
      | .ok F => (F.number config.style).mapError .mismatch := by
  simp only [compileWith, compileWithTraced, compile, Traced.value_bind]
  cases (compileTraced text config.fields).value with
  | error e => rfl
  | ok F => cases h : F.number config.style <;> simp [h, Except.mapError]

/-- A text that cannot be compiled gives the same error under a configuration.
Any other has `n` predicates, `k` of them with a field that begins with a
question mark: either `k` is 0 and the `i`th value is marked with `i`, with no
question mark left, or the text is refused for `n + k` placeholders. -/
theorem compileWith_eq_numbered (text : String) (config : Config) :
    (∀ e, compile text config.fields = .error e → compileWith text config = .error (.parse e)) ∧
    ∀ F, compile text config.fields = .ok F → ∃ f, parse text config.fields = .ok f ∧
      let n := f.predicates.length
      let k := f.predicates.countP fun p => Placeholder.leads p.field
      1 ≤ n ∧
      (0 < k → compileWith text config = .error (.mismatch { placeholders := n + k, args := n })) ∧
      (k = 0 →
        compileWith text config = .ok
          { sql := " ".intercalate (f.numberedWords config.style 0)
            args := f.predicates.map (·.value) } ∧
        '?' ∉ (" ".intercalate (f.numberedWords config.style 0)).toList) := by
  refine ⟨fun e he => ?_, fun F hF => ?_⟩
  · rw [compileWith_eq_number, he]
  obtain ⟨f, hf, rfl⟩ := compile_eq_ok_iff.1 hF
  obtain ⟨ts, -, hwhole⟩ := parse_eq_ok_iff.1 hf
  have hfront : ∀ p ∈ f.predicates, Placeholder.FrontOnly p.field :=
    fun p hp => (predicates_legal_of_parse hf p hp).field.frontOnly
  have hcount := Filter.placeholders_toFragment hfront
  have hargs : f.toFragment.args.length = f.predicates.length := List.length_map _
  refine ⟨f, hf, List.length_pos_iff.2 hwhole.full.predicates_ne_nil, fun hk => ?_, fun hk => ?_⟩
  · rw [compileWith_eq_number, hF]
    simp only [Fragment.number, hcount, hargs]
    rw [if_neg (by omega)]
    rfl
  · have hquestion : ∀ p ∈ f.predicates, '?' ∉ p.field.toList := by
      intro p hp
      have hleads := List.countP_eq_zero.1 hk p hp
      exact Placeholder.not_mem_of_frontOnly (hfront p hp) (by simpa using hleads)
    refine ⟨?_, Filter.question_not_mem_numbered hquestion⟩
    rw [compileWith_eq_number, hF]
    simp only [Fragment.number, hcount, hargs, Filter.number_sql hquestion]
    rw [if_pos (by omega)]
    rfl

/-- Three values with their numbers, one of them a question mark itself; and a
field that would have taken the number of the next value. -/
theorem compileWith_eq_numbered_nested :
    compileWith "a=\"x\" || (b<\"?\" a!=\"y\")" { fields := .ofList ["a", "b"], style := .colon } =
        .ok ⟨"( a = :1 OR ( b < :2 AND a != :3 ) )", ["x", "?", "y"]⟩ ∧
      compileWith "?a=\"x\" b<\"y\"" { fields := .ofList ["?a", "b"] } =
        .error (.mismatch { placeholders := 3, args := 2 }) := by
  constructor
  · have hcompile : compile "a=\"x\" || (b<\"?\" a!=\"y\")" (.ofList ["a", "b"]) =
        .ok ⟨"( a = ? OR ( b < ? AND a != ? ) )", ["x", "?", "y"]⟩ := by cbv
    have hparse : parse "a=\"x\" || (b<\"?\" a!=\"y\")" (.ofList ["a", "b"]) =
        .ok (.group .or [.predicate ⟨"a", .eq, "x"⟩,
          .group .and [.predicate ⟨"b", .lt, "?"⟩, .predicate ⟨"a", .ne, "y"⟩]]) := by cbv
    obtain ⟨f, hf, -, -, hnumbered⟩ := (compileWith_eq_numbered _
      { fields := .ofList ["a", "b"], style := .colon }).2 _ hcompile
    cases hparse.symm.trans hf
    exact (hnumbered (by decide)).1
  · have hcompile : compile "?a=\"x\" b<\"y\"" (.ofList ["?a", "b"]) =
        .ok ⟨"( ?a = ? AND b < ? )", ["x", "y"]⟩ := by cbv
    have hparse : parse "?a=\"x\" b<\"y\"" (.ofList ["?a", "b"]) =
        .ok (.group .and [.predicate ⟨"?a", .eq, "x"⟩, .predicate ⟨"b", .lt, "y"⟩]) := by cbv
    obtain ⟨f, hf, -, hrefused, -⟩ := (compileWith_eq_numbered _
      { fields := .ofList ["?a", "b"] }).2 _ hcompile
    cases hparse.symm.trans hf
    exact hrefused (by decide)

end FilterQuery
