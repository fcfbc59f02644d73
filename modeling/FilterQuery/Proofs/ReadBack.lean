import Mathlib
import FilterQuery.Proofs.Filter.Written

/-!
# Reading a condition back

A condition with its arguments written into it is itself a filter text.
`parse_inline_toFragment` says what reading that text gives: the filter the
condition was made from, up to the operator of groups with one child, unless
the filter nests more than 64 groups.

A field called `?` would take the argument of the next value, so such fields
are left out.
-/

namespace FilterQuery

/-- The text with every `?` replaced by the next argument in quotes. What is put
in is not searched again. -/
def Placeholder.fill : List Char → List String → List Char
  | [], _ => []
  | '?' :: text, arg :: args => '"' :: arg.toList ++ '"' :: fill text args
  | c :: text, args => c :: fill text args

def Fragment.inline (F : Fragment) : String :=
  String.ofList (Placeholder.fill F.sql.toList F.args)

structure Filter.Readable (fields : AllowList) (f : Filter) : Prop where
  isGroup : ∃ op children, f = .group op children
  full : f.Full
  legal : ∀ p ∈ f.predicates, p.Legal fields
  noQuestion : ∀ p ∈ f.predicates, '?' ∉ p.field.toList

variable {fields : AllowList} {f : Filter} {t : Token} {ts : List Token} {text run : List Char}
  {args : List String}

-- ---------------------------------------------------------------------------
-- Filling in arguments
-- ---------------------------------------------------------------------------

namespace Placeholder

theorem fill_cons_of_ne {c : Char} (h : c ≠ '?') : fill (c :: text) args = c :: fill text args := by
  rw [fill]
  simp [h]

theorem fill_append (h : '?' ∉ run) : fill (run ++ text) args = run ++ fill text args := by
  induction run with
  | nil => rfl
  | cons c run ih =>
    obtain ⟨hc, hrun⟩ := not_or.1 (mt List.mem_cons.2 h)
    rw [List.cons_append, fill_cons_of_ne (Ne.symm hc), ih hrun, List.cons_append]

theorem fill_words (h : ∀ t ∈ ts, t.kind ≠ .literal → '?' ∉ t.text.toList) :
    fill (ts.flatMap fun t => ' ' :: t.word.toList) (Token.texts .literal ts) =
      ts.flatMap fun t => ' ' :: t.spelling := by
  induction ts with
  | nil => rfl
  | cons t ts ih =>
    obtain ⟨ht, hts⟩ := List.forall_mem_cons.1 h
    rw [List.flatMap_cons, List.flatMap_cons, List.cons_append, fill_cons_of_ne (by decide),
      ← ih hts]
    by_cases hk : t.kind = .literal
    · rw [Token.texts_cons_of_eq hk]
      simp [Token.word, Token.spelling, hk, fill]
    · have hspell : t.spelling = t.text.toList := by
        unfold Token.spelling
        split
        · contradiction
        · rfl
      rw [Token.texts_cons_of_ne hk, Token.word, if_neg hk, fill_append (ht hk), hspell,
        List.cons_append]

end Placeholder

-- ---------------------------------------------------------------------------
-- The tokens of a condition
-- ---------------------------------------------------------------------------

namespace Filter

theorem legal_tokens (h : ∀ p ∈ f.predicates, p.Legal fields) :
    ∀ t ∈ f.tokens, t.Legal fields := by
  refine forall_mem_tokens .openGroup .closeGroup (fun op => op.legal_symbol) ?_
  intro p hp
  exact ⟨.field (h p hp).field, p.comparator.legal_symbol, .literal (h p hp).value⟩

theorem question_not_mem_tokens (h : ∀ p ∈ f.predicates, '?' ∉ p.field.toList) :
    ∀ t ∈ f.tokens, t.kind ≠ .literal → '?' ∉ t.text.toList := by
  refine forall_mem_tokens (fun _ => by decide) (fun _ => by decide) (fun op _ => ?_) ?_
  · cases op <;> decide
  · intro p hp
    refine ⟨fun _ => h p hp, fun _ => ?_, fun hk => absurd rfl hk⟩
    cases p.comparator <;> decide

theorem texts_tokens (hf : f.Full) :
    Token.texts .literal f.tokens = f.predicates.map (·.value) := by
  have h := (items_tokens hf (Nat.le_refl _)).texts_eq.2
  rw [← predicates_normal f]
  simpa using h

theorem toList_inline (hf : f.Full) (hq : ∀ p ∈ f.predicates, '?' ∉ p.field.toList)
    (ht : f.tokens = t :: ts) :
    f.toFragment.inline.toList = t.spelling ++ ts.flatMap fun t => ' ' :: t.spelling := by
  have hsql : ' ' :: f.toFragment.sql.toList = f.tokens.flatMap fun t => ' ' :: t.word.toList := by
    rw [toList_sql, words_eq_map_tokens, List.flatMap_map]
  have hfill := Placeholder.fill_words (question_not_mem_tokens hq)
  rw [texts_tokens hf, ← hsql, Placeholder.fill_cons_of_ne (by decide), ht, List.flatMap_cons]
    at hfill
  rw [Fragment.inline, String.toList_ofList]
  exact (List.cons.inj hfill).2

end Filter

-- ---------------------------------------------------------------------------
-- Reading back
-- ---------------------------------------------------------------------------

namespace Filter

theorem tokens_ne_nil (f : Filter) : f.tokens ≠ [] := by
  intro h
  have hw := words_eq_map_tokens f
  rw [h] at hw
  exact f.words_ne_nil hw

theorem Readable.parse_inline (h : f.Readable fields) :
    parse f.toFragment.inline fields = Filter.ofTokens f.tokens := by
  obtain ⟨t, ts, ht⟩ := List.exists_cons_of_ne_nil f.tokens_ne_nil
  obtain ⟨hlegal, hts⟩ := List.forall_mem_cons.1 (ht ▸ legal_tokens h.legal)
  have hspelled : Spelled fields f.tokens f.toFragment.inline.toList := by
    rw [toList_inline h.full h.noQuestion ht, ht]
    exact @Spelled.cons fields t ts [] _ _ rfl (Token.begins_spaced hlegal ts) (spelled_spaced hts)
  rw [parse_eq_ofTokens]
  exact congrArg Filter.ofTokens hspelled.tokens_eq

theorem Readable.parse_inline_eq (h : f.Readable fields) :
    parse f.toFragment.inline fields =
      if f.depth ≤ 64 then .ok f.normal else .error .nestingTooDeep := by
  rw [h.parse_inline]
  split
  · rename_i hd
    exact ofTokens_tokens h.full h.isGroup hd
  · rename_i hd
    exact ofTokens_tokens_of_lt_depth h.full (Nat.not_le.1 hd)

theorem Readable.compile_inline_eq (h : f.Readable fields) :
    FilterQuery.compile f.toFragment.inline fields =
      if f.depth ≤ 64 then .ok f.toFragment else .error .nestingTooDeep := by
  rw [compile_eq, h.parse_inline_eq]
  split
  · exact congrArg Except.ok (toFragment_normal f)
  · rfl

theorem readable_of_parse {text : String} (h : parse text fields = .ok f)
    (hq : ∀ p ∈ f.predicates, '?' ∉ p.field.toList) : f.Readable fields ∧ f.depth ≤ 65 := by
  obtain ⟨ts, -, hw⟩ := parse_eq_ok_iff.1 h
  exact ⟨⟨hw.exists_group, hw.full, predicates_legal_of_parse h, hq⟩, hw.depth_le⟩

end Filter

/-- Reading a condition with its arguments in place gives the filter back, up to
operators that are not written, and so the same condition; only a filter of more
than 64 nested groups is refused, and of those that were read from a text these
are the filters of 65. -/
theorem parse_inline_toFragment (fields : AllowList) :
    (∀ f : Filter, f.Readable fields →
      (f.depth ≤ 64 → parse f.toFragment.inline fields = .ok f.normal ∧
        compile f.toFragment.inline fields = .ok f.toFragment) ∧
      (64 < f.depth → parse f.toFragment.inline fields = .error .nestingTooDeep)) ∧
    ∀ (text : String) (f : Filter), parse text fields = .ok f →
      (∀ p ∈ f.predicates, '?' ∉ p.field.toList) →
      compile f.toFragment.inline fields =
        if f.depth = 65 then .error .nestingTooDeep else .ok f.toFragment := by
  refine ⟨fun f hf => ⟨fun hd => ?_, fun hd => ?_⟩, fun text f h hq => ?_⟩
  · rw [hf.parse_inline_eq, hf.compile_inline_eq, if_pos hd, if_pos hd]
    exact ⟨rfl, rfl⟩
  · rw [hf.parse_inline_eq, if_neg (Nat.not_le.2 hd)]
  · obtain ⟨hf, hd⟩ := Filter.readable_of_parse h hq
    rw [hf.compile_inline_eq]
    by_cases h65 : f.depth = 65
    · rw [if_pos h65, if_neg (by omega)]
    · rw [if_neg h65, if_pos (by omega)]

set_option maxRecDepth 4000 in
theorem parse_groups_beside_predicate :
    let p : Filter := .predicate ⟨"a", .eq, "?"⟩
    parse (String.ofList (List.replicate 64 '(' ++ "a=\"?\"".toList ++ List.replicate 64 ')' ++
        "a=\"?\"".toList)) (.ofList ["a"]) =
      .ok (.group .and [Nat.repeat (fun g => .group .and [g]) 64 p, p]) := by
  cbv

/-- Both halves at work: a group with one child and values that look like parts
of a condition; and 64 groups beside a predicate, which are accepted but make a
filter of 65 groups. -/
theorem parse_inline_toFragment_nested :
    let fields := AllowList.ofList ["a"]
    let p : Predicate := ⟨"a", .ge, "?) OR ("⟩
    let q : Filter := .predicate ⟨"a", .eq, "?"⟩
    let f : Filter := .group .or [.group .or [.predicate p], q]
    (f.Readable fields ∧ f.depth ≤ 64 ∧
      f.toFragment = ⟨"( ( a >= ? ) OR a = ? )", ["?) OR (", "?"]⟩ ∧
      f.toFragment.inline = "( ( a >= \"?) OR (\" ) OR a = \"?\" )" ∧
      f.normal = .group .or [.group .and [.predicate p], q] ∧
      parse f.toFragment.inline fields = .ok f.normal ∧
      compile f.toFragment.inline fields = .ok f.toFragment) ∧
    let deep : Filter := .group .and [Nat.repeat (fun g => .group .and [g]) 64 q, q]
    deep.depth = 65 ∧ compile deep.toFragment.inline fields = .error .nestingTooDeep := by
  intro fields p q f
  obtain ⟨hback, hdeep⟩ := parse_inline_toFragment fields
  have hname : Token.IsField fields "a" := ⟨by cbv, by cbv, by cbv⟩
  have hf : f.Readable fields := by
    refine ⟨⟨_, _, rfl⟩, ?_, ?_, by decide⟩
    · refine .group (by simp) (List.forall_mem_cons.2 ⟨?_, ?_⟩)
      · exact .group (by simp) (by simpa using .predicate p)
      · simpa using .predicate _
    · have hpredicates : f.predicates = [p, ⟨"a", .eq, "?"⟩] := rfl
      rw [hpredicates]
      exact List.forall_mem_cons.2 ⟨⟨hname, by decide⟩, by simpa using ⟨hname, by decide⟩⟩
  have hd : f.depth ≤ 64 := by decide
  refine ⟨⟨hf, hd, by cbv, by cbv, by cbv, (hback f hf).1 hd⟩, ?_⟩
  intro deep
  have hd65 : deep.depth = 65 := by cbv
  refine ⟨hd65, ?_⟩
  exact (hdeep _ deep parse_groups_beside_predicate (by decide)).trans (if_pos hd65)

end FilterQuery
