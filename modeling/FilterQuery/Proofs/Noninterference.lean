import Mathlib
import FilterQuery.Proofs.Filter.Accepted

/-!
# Values do not interfere

Two texts that differ only between their quotes are accepted alike and give
the same condition, each with its own values as arguments, in order
(`compile_replace_literals`).

The argument has two halves. In a text that is scanned without error the
quotes open and close literals in turn, so replacing what stands between them
replaces the texts of the literals and nothing else (`Spelled.relabel`). And
the grammar does not look at the text of a literal (`Grammar.Whole.relabel`).
-/

namespace FilterQuery

open Grammar (Item Items Whole)

def Token.shape (t : Token) : Token :=
  if t.kind = .literal then { t with text := "" } else t

def Grammar.Item.shape : Item → Item
  | .operator op => .operator op
  | .child f => .child f.shape

def quotedTail : List (String × String) → List Char
  | [] => []
  | (literal, next) :: parts =>
    '"' :: literal.toList ++ '"' :: next.toList ++ quotedTail parts

/-- The text that begins with `first` and goes on with a literal between quotes
and the text after it, for each of the `parts`. -/
def interleave (first : String) (parts : List (String × String)) : String :=
  String.ofList (first.toList ++ quotedTail parts)

def QuoteFree (parts : List (String × String)) : Prop :=
  ∀ p ∈ parts, '"' ∉ p.1.toList ∧ '"' ∉ p.2.toList

variable {fields : AllowList} {depth : Nat} {ts us : List Token} {t u : Token} {items : List Item}
  {f : Filter} {body rest outside blanks : List Char} {parts others : List (String × String)}

-- ---------------------------------------------------------------------------
-- Quotes
-- ---------------------------------------------------------------------------

theorem Text.append_quote_inj {a b x y : List Char} (ha : '"' ∉ a) (hb : '"' ∉ b)
    (h : a ++ '"' :: x = b ++ '"' :: y) : a = b ∧ x = y := by
  have hs {z : List Char} : Text.Stops (· ≠ '"') ('"' :: z) := by simp
  have hab : a = b := by
    rw [← Text.takeWhile_run (Text.all_ne_of_not_mem ha) hs, h,
      Text.takeWhile_run (Text.all_ne_of_not_mem hb) hs]
  subst hab
  exact ⟨rfl, (List.cons.inj (List.append_cancel_left h)).2⟩

theorem quote_not_mem_blanks (h : blanks.all Text.isBlank = true) : '"' ∉ blanks :=
  Text.not_mem_of_all h (by decide)

theorem quotedTail_cases (parts : List (String × String)) :
    quotedTail parts = [] ∨ ∃ tail, quotedTail parts = '"' :: tail := by
  cases parts with
  | nil => exact .inl rfl
  | cons p parts => exact .inr ⟨_, rfl⟩

/-- Where a token stands in a text with quoted literals: either it is the next
literal, or it stands before that. -/
theorem Token.Begins.cases_quoted (h : t.Begins fields body rest)
    (hb : blanks.all Text.isBlank = true) (ho : '"' ∉ outside) (hq : QuoteFree parts)
    (he : blanks ++ body = outside ++ quotedTail parts) :
    (∃ literal next tail, t = ⟨.literal, literal⟩ ∧ parts = (literal, next) :: tail ∧
        outside = blanks ∧ rest = next.toList ++ quotedTail tail) ∨
      (t.kind ≠ .literal ∧ ∃ after, outside = blanks ++ t.spelling ++ after ∧
        rest = after ++ quotedTail parts) := by
  obtain ⟨hl, rfl, -⟩ := h
  have hblanks := quote_not_mem_blanks hb
  by_cases hk : t.kind = .literal
  · left
    obtain ⟨kind, value⟩ := t
    cases hk
    cases hl with
    | literal hv =>
      simp only [Token.spelling, List.cons_append, List.append_assoc] at he
      cases parts with
      | nil =>
        simp only [quotedTail, List.append_nil] at he
        exact absurd (he ▸ by simp) ho
      | cons p parts =>
        obtain ⟨literal, next⟩ := p
        obtain ⟨hp, hp'⟩ := hq _ List.mem_cons_self
        simp only [quotedTail, List.cons_append, List.append_assoc] at he
        obtain ⟨hout, hinside⟩ := Text.append_quote_inj hblanks ho he
        obtain ⟨hvalue, hrest⟩ := Text.append_quote_inj hv hp hinside
        cases String.toList_inj.1 hvalue
        exact ⟨_, _, _, rfl, rfl, hout.symm, hrest⟩
  · right
    refine ⟨hk, ?_⟩
    have hs : '"' ∉ blanks ++ t.spelling := by
      simp only [List.mem_append, not_or]
      exact ⟨hblanks, fun hm => (hl.mem_spelling hk hm).2 rfl⟩
    rw [← List.append_assoc] at he
    rcases List.append_eq_append_iff.1 he with ⟨after, hout, hrest⟩ | ⟨beyond, hout, htail⟩
    · exact ⟨after, hout, hrest⟩
    · -- The token cannot reach beyond the next quote.
      cases beyond with
      | nil => exact ⟨[], by simpa using hout.symm, by simpa using htail.symm⟩
      | cons c beyond =>
        rcases quotedTail_cases parts with hn | ⟨tail, hn⟩
        · simp [hn] at htail
        · rw [hn] at htail
          obtain ⟨rfl, -⟩ := List.cons.inj htail
          exact absurd (hout ▸ by simp) hs

theorem head?_append_quotedTail (h : others.map Prod.snd = parts.map Prod.snd) :
    (outside ++ quotedTail others).head? = (outside ++ quotedTail parts).head? := by
  cases outside with
  | cons c outside => rfl
  | nil => cases parts <;> cases others <;> simp_all [quotedTail]

theorem Spelled.literals_eq {text : List Char} (h : Spelled fields ts text) (ho : '"' ∉ outside)
    (hq : QuoteFree parts) (he : text = outside ++ quotedTail parts) :
    Token.texts .literal ts = parts.map Prod.fst := by
  induction h generalizing outside parts with
  | nil hb =>
    rcases quotedTail_cases parts with hn | ⟨tail, hn⟩
    · cases parts with
      | nil => rfl
      | cons p parts => simp [quotedTail] at hn
    · exact absurd (by simp [he, hn]) (quote_not_mem_blanks hb)
  | cons hb hbegins _ ih =>
    rcases hbegins.cases_quoted hb ho hq he with
      ⟨literal, next, tail, rfl, rfl, -, hrest⟩ | ⟨hk, after, rfl, hrest⟩
    · obtain ⟨hp, htail⟩ := List.forall_mem_cons.1 hq
      have ht : (⟨.literal, literal⟩ : Token).kind = .literal := rfl
      rw [Token.texts_cons_of_eq ht, ih hp.2 htail hrest]
      rfl
    · rw [Token.texts_cons_of_ne hk]
      exact ih (fun hm => ho (List.mem_append_right _ hm)) hq hrest

theorem Spelled.relabel {text : List Char} (h : Spelled fields ts text) (ho : '"' ∉ outside)
    (hq : QuoteFree parts) (he : text = outside ++ quotedTail parts) (hr : QuoteFree others)
    (hsame : others.map Prod.snd = parts.map Prod.snd) :
    ∃ us, Spelled fields us (outside ++ quotedTail others) ∧
      us.map Token.shape = ts.map Token.shape := by
  induction h generalizing outside parts others with
  | nil hb =>
    rcases quotedTail_cases parts with hn | ⟨tail, hn⟩
    · cases parts with
      | cons p parts => simp [quotedTail] at hn
      | nil =>
        cases List.map_eq_nil_iff.1 hsame
        exact ⟨[], he ▸ .nil hb, rfl⟩
    · exact absurd (by simp [he, hn]) (quote_not_mem_blanks hb)
  | @cons t _ _ _ _ hb hbegins _ ih =>
    rcases hbegins.cases_quoted hb ho hq he with
      ⟨literal, next, tail, rfl, rfl, rfl, hrest⟩ | ⟨hk, after, rfl, hrest⟩
    · obtain ⟨⟨value, next'⟩, others, rfl, hnext, hothers⟩ := List.map_eq_cons_iff.1 hsame
      cases hnext
      obtain ⟨hp, htail⟩ := List.forall_mem_cons.1 hq
      obtain ⟨hv, hvs⟩ := List.forall_mem_cons.1 hr
      obtain ⟨us, hs, hshape⟩ := ih hp.2 htail hrest hvs hothers
      refine ⟨⟨.literal, value⟩ :: us, ?_, ?_⟩
      · refine .cons hb ⟨.literal hv.1, ?_, fun c _ => rfl⟩ hs
        simp [Token.spelling, quotedTail]
      · simp [Token.shape, hshape]
    · have ho' : '"' ∉ after := fun hm => ho (List.mem_append_right _ hm)
      obtain ⟨us, hs, hshape⟩ := ih ho' hq hrest hr hsame
      -- The token stays. What follows it begins with the same character, a quote
      -- at the earliest, so it still ends where it did.
      refine ⟨t :: us, ?_, by simp [hshape]⟩
      rw [List.append_assoc, List.append_assoc]
      refine .cons hb ⟨hbegins.legal, rfl, ?_⟩ hs
      intro c hc
      rw [head?_append_quotedTail hsame, ← hrest] at hc
      exact hbegins.stops c hc

-- ---------------------------------------------------------------------------
-- The grammar
-- ---------------------------------------------------------------------------

theorem Token.kind_eq_of_shape_eq (h : u.shape = t.shape) : u.kind = t.kind := by
  have hk (v : Token) : v.shape.kind = v.kind := by
    unfold Token.shape
    split <;> rfl
  rw [← hk u, h, hk]

theorem Token.eq_of_shape_eq (h : u.shape = t.shape) (hk : t.kind ≠ .literal) : u = t := by
  have hu : u.kind ≠ .literal := Token.kind_eq_of_shape_eq h ▸ hk
  simpa [Token.shape, hk, hu] using h

theorem Grammar.Item.children_shape {others : List Item}
    (h : others.map Item.shape = items.map Item.shape) :
    (Item.children others).map Filter.shape = (Item.children items).map Filter.shape := by
  have hmap (items : List Item) :
      Item.children (items.map Item.shape) = (Item.children items).map Filter.shape := by
    induction items with
    | nil => rfl
    | cons item items ih => cases item <;> simp [Item.shape, ih]
  rw [← hmap, h, hmap]

theorem Grammar.Item.lastOperator_shape {others : List Item}
    (h : others.map Item.shape = items.map Item.shape) :
    Item.lastOperator others = Item.lastOperator items := by
  have hop : Item.operator? ∘ Item.shape = Item.operator? := by
    funext item
    cases item <;> rfl
  have hmap (items : List Item) :
      Item.lastOperator (items.map Item.shape) = Item.lastOperator items := by
    simp only [Item.lastOperator, List.filterMap_map, hop]
  rw [← hmap, h, hmap]

theorem Grammar.Items.relabel (h : Items depth ts items)
    (hus : us.map Token.shape = ts.map Token.shape) :
    ∃ others, Items depth us others ∧ others.map Item.shape = items.map Item.shape := by
  induction h generalizing us with
  | nil =>
    cases List.map_eq_nil_iff.1 hus
    exact ⟨[], .nil, rfl⟩
  | operator hk hop _ ih =>
    obtain ⟨t, rest, rfl, ht, hrest⟩ := List.map_eq_cons_iff.1 hus
    cases Token.eq_of_shape_eq ht (by simp [hk])
    obtain ⟨others, hi, hs⟩ := ih hrest
    exact ⟨_, .operator hk hop hi, by simp [hs]⟩
  | fieldFirst hf hc hv hcmp _ ih =>
    simp only [List.map_cons, List.map_eq_cons_iff] at hus
    obtain ⟨f, _, rfl, hfs, c, _, rfl, hcs, v, rest, rfl, hvs, hrest⟩ := hus
    cases Token.eq_of_shape_eq hfs (by simp [hf])
    cases Token.eq_of_shape_eq hcs (by simp [hc])
    obtain ⟨others, hi, hs⟩ := ih hrest
    refine ⟨_, .fieldFirst hf hc ((Token.kind_eq_of_shape_eq hvs).trans hv) hcmp hi, ?_⟩
    simp [hs, Item.shape, Filter.shape]
  | literalFirst hv hc hf hcmp _ ih =>
    simp only [List.map_cons, List.map_eq_cons_iff] at hus
    obtain ⟨v, _, rfl, hvs, c, _, rfl, hcs, f, rest, rfl, hfs, hrest⟩ := hus
    cases Token.eq_of_shape_eq hfs (by simp [hf])
    cases Token.eq_of_shape_eq hcs (by simp [hc])
    obtain ⟨others, hi, hs⟩ := ih hrest
    refine ⟨_, .literalFirst ((Token.kind_eq_of_shape_eq hvs).trans hv) hc hf hcmp hi, ?_⟩
    simp [hs, Item.shape, Filter.shape]
  | @group _ o c inner ts members items ho hc _ hn _ ihm ih =>
    simp only [List.cons_append, List.map_cons, List.map_append, List.map_eq_cons_iff,
      List.map_eq_append_iff] at hus
    obtain ⟨o', _, rfl, hos, inner', _, rfl, hinner, c', rest, rfl, hcs, hrest⟩ := hus
    cases Token.eq_of_shape_eq hos (by simp [ho])
    cases Token.eq_of_shape_eq hcs (by simp [hc])
    obtain ⟨members', hm, hms⟩ := ihm hinner
    obtain ⟨others, hi, hs⟩ := ih hrest
    have hchildren := Item.children_shape hms
    refine ⟨_, .group ho hc hm (fun he => hn ?_) hi, ?_⟩
    · simpa [he] using hchildren.symm
    · simp [hs, Item.shape, Item.lastOperator_shape hms, hchildren]

theorem Filter.exists_group_of_shape_eq {op : BoolOp} {children : List Filter}
    (h : f.shape = .group op children) :
    ∃ members, f = .group op members ∧ members.map Filter.shape = children := by
  cases f with
  | predicate p => simp [Filter.shape] at h
  | group op' members =>
    rw [Filter.shape_group] at h
    cases h
    exact ⟨members, rfl, rfl⟩

theorem Grammar.Whole.relabel (h : Whole depth ts f)
    (hus : us.map Token.shape = ts.map Token.shape) :
    ∃ g, Whole depth us g ∧ g.shape = f.shape := by
  cases h with
  | @level items hi hn hc =>
    obtain ⟨others, ho, hs⟩ := hi.relabel hus
    have hchildren := Item.children_shape hs
    refine ⟨_, .level ho (fun he => hn ?_) (fun op members he => ?_), ?_⟩
    · simpa [he] using hchildren.symm
    · -- A group among the children is a group in the other reading too.
      rw [he, List.map_cons, List.map_nil, eq_comm, List.map_eq_singleton_iff] at hchildren
      obtain ⟨c, hitems, hshape⟩ := hchildren
      rw [Filter.shape_group] at hshape
      obtain ⟨members', rfl, -⟩ := Filter.exists_group_of_shape_eq hshape
      exact hc _ _ hitems
    · rw [Filter.shape_group, Filter.shape_group, hchildren, Item.lastOperator_shape hs]
  | @group items op members hi hc =>
    obtain ⟨others, ho, hs⟩ := hi.relabel hus
    have hone := Item.children_shape hs
    rw [hc, List.map_cons, List.map_nil, List.map_eq_singleton_iff] at hone
    obtain ⟨c, hothers, hshape⟩ := hone
    rw [Filter.shape_group] at hshape
    obtain ⟨members', rfl, hmembers⟩ := Filter.exists_group_of_shape_eq hshape
    exact ⟨_, .group ho hothers, by rw [Filter.shape_group, Filter.shape_group, hmembers]⟩

-- ---------------------------------------------------------------------------
-- Whole texts
-- ---------------------------------------------------------------------------

theorem toList_interleave (first : String) (parts : List (String × String)) :
    (interleave first parts).toList = first.toList ++ quotedTail parts :=
  String.toList_ofList

theorem args_of_compile_interleave {first : String} {F : Fragment} (ho : '"' ∉ first.toList)
    (hq : QuoteFree parts) (h : compile (interleave first parts) fields = .ok F) :
    F.args = parts.map Prod.fst := by
  obtain ⟨f, hf, rfl⟩ := compile_eq_ok_iff.1 h
  obtain ⟨ts, hs, hw⟩ := parse_eq_ok_iff.1 hf
  rw [toList_interleave] at hs
  exact hw.texts_eq.2.symm.trans (hs.literals_eq ho hq rfl)

/-- Replacing the values of an accepted text gives an accepted text with the
same condition. The arguments are the values, in order. -/
theorem compile_replace_literals (fields : AllowList) (first : String)
    (parts : List (String × String)) (ho : '"' ∉ first.toList) (hq : QuoteFree parts)
    (F : Fragment) (h : compile (interleave first parts) fields = .ok F) :
    F.args = parts.map Prod.fst ∧
      ∀ values : List String, values.length = parts.length → (∀ w ∈ values, '"' ∉ w.toList) →
        compile (interleave first (values.zip (parts.map Prod.snd))) fields =
          .ok { sql := F.sql, args := values } := by
  refine ⟨args_of_compile_interleave ho hq h, ?_⟩
  intro values hlen hvalues
  obtain ⟨f, hf, rfl⟩ := compile_eq_ok_iff.1 h
  obtain ⟨ts, hs, hw⟩ := parse_eq_ok_iff.1 hf
  rw [toList_interleave] at hs
  have hzip : values.length = (parts.map Prod.snd).length := by simpa using hlen
  have hr : QuoteFree (values.zip (parts.map Prod.snd)) := by
    rintro ⟨w, next⟩ hm
    obtain ⟨hw, hn⟩ := List.of_mem_zip hm
    obtain ⟨p, hp, rfl⟩ := List.mem_map.1 hn
    exact ⟨hvalues w hw, (hq p hp).2⟩
  have hsame : (values.zip (parts.map Prod.snd)).map Prod.snd = parts.map Prod.snd :=
    List.map_snd_zip (Nat.le_of_eq hzip.symm)
  obtain ⟨us, hus, hshape⟩ := hs.relabel ho hq rfl hr hsame
  obtain ⟨g, hg, hgf⟩ := hw.relabel hshape
  have hread : compile (interleave first (values.zip (parts.map Prod.snd))) fields =
      .ok g.toFragment := by
    refine compile_eq_ok_iff.2 ⟨g, parse_eq_ok_iff.2 ⟨us, ?_, hg⟩, rfl⟩
    rw [toList_interleave]
    exact hus
  have hargs := args_of_compile_interleave ho hr hread
  rw [List.map_fst_zip (Nat.le_of_eq hzip)] at hargs
  rw [hread, ← hargs, Filter.toFragment, Filter.toFragment, Filter.words_eq_of_shape_eq hgf]

/-- Signs and parentheses in a value change nothing outside it. -/
theorem compile_replace_literals_signs :
    compile (interleave "A = " [("1", " || "), ("2", " < B")]) (.ofList ["A", "B"]) =
        .ok ⟨"( A = ? OR B < ? )", ["1", "2"]⟩ ∧
      compile (interleave "A = " [(") OR 1=1 --", " || "), ("&", " < B")]) (.ofList ["A", "B"]) =
        .ok ⟨"( A = ? OR B < ? )", [") OR 1=1 --", "&"]⟩ := by
  have h : compile (interleave "A = " [("1", " || "), ("2", " < B")]) (.ofList ["A", "B"]) =
      .ok ⟨"( A = ? OR B < ? )", ["1", "2"]⟩ := by cbv
  have hq : QuoteFree [("1", " || "), ("2", " < B")] := by simp [QuoteFree]
  have hr := compile_replace_literals _ _ _ (by decide) hq _ h
  exact ⟨h, hr.2 [") OR 1=1 --", "&"] rfl (by decide)⟩

end FilterQuery
