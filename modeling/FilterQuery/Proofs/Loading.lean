import Mathlib
import FilterQuery.Config
import FilterQuery.Proofs.Json.Reading
import FilterQuery.Proofs.Json.Writing

/-!
# Loading what was written

A configuration has many texts: the members of the object come in any order,
among others that mean nothing here, the names in any order and repeated, the
strings escaped or not, with space anywhere between. `ofJson_undoes_encoding`
says that each of them loads as the one configuration with these fields and
this style, and so does the compact text that `toJson` writes.
-/

namespace FilterQuery.Config

open Json (Comma continuesNumber quote quoteAll chars_escape quoted_quote strings_quoteAll)
open Json.Grammar (Blank Hex4 Quoted Body Number Exponent Lead Separated Strings Member Object
  blank_nil)

variable {key k : String} {ms : List (String × List Char)} {d final : Draft} {first : Bool}
  {text rest space v lead body : List Char} {c : Config} {S : Finset String}
  {style : Placeholder.Style}

-- ---------------------------------------------------------------------------
-- Encodings
-- ---------------------------------------------------------------------------

def values (key : String) (members : List (String × List Char)) : List (List Char) :=
  (members.filter (·.1 = key)).map (·.2)

/-- The members of an object say which fields are allowed and, unless it is the
default, which style is used, each once. -/
structure Describes (S : Finset String) (style : Placeholder.Style)
    (members : List (String × List Char)) : Prop where
  fields : ∃ v names, values "allowed_fields" members = [v] ∧ Strings names v ∧ names.toFinset = S
  style : (∃ v, values "placeholder_style" members = [v] ∧ Quoted style.name v) ∨
    values "placeholder_style" members = [] ∧ style = .dollar

/-- A text of the configuration with the given fields and style. It may have
members under other keys with any values, but no key of its own, known or not,
may hold half of a surrogate pair: such a text is refused. -/
def Encodes (S : Finset String) (style : Placeholder.Style) (text : String) : Prop :=
  ∃ members, Object members text.toList ∧ Describes S style members

structure Has (c : Config) (S : Finset String) (style : Placeholder.Style) : Prop where
  fields : ∀ name, c.fields.contains name = true ↔ name ∈ S
  style : c.style = style

theorem has_ofList {names : List String} (h : names.toFinset = S) :
    Has { fields := AllowList.ofList names, style } S style := by
  refine ⟨fun name => ?_, rfl⟩
  rw [AllowList.contains_ofList, List.contains_iff_mem, ← h, List.mem_toFinset]

theorem Has.unique {c' : Config} (h : c.Has S style) (h' : c'.Has S style) : c = c' := by
  have hfields : c.fields = c'.fields :=
    AllowList.ext_contains fun name =>
      Bool.eq_iff_iff.2 ((h.fields name).trans (h'.fields name).symm)
  cases c
  cases c'
  simp only at hfields
  rw [hfields]
  congr
  exact h.style.trans h'.style.symm

-- ---------------------------------------------------------------------------
-- The loop over the members
-- ---------------------------------------------------------------------------

@[simp] theorem values_cons_self : values key ((key, v) :: ms) = v :: values key ms := by
  simp [values]

theorem values_cons_of_ne (h : k ≠ key) : values key ((k, v) :: ms) = values key ms := by
  simp [values, h]

/-- How far a key has been read, with the members still to come: either none of
them has it any more, or one has, and it will be read then. -/
inductive Due (key : String) (Writes : α → List Char → Prop) (ms : List (String × List Char)) :
    Option α → Option α → Prop
  | settled {a? : Option α} : values key ms = [] → Due key Writes ms a? a?
  | ahead {a : α} {v : List Char} : values key ms = [v] → Writes a v →
      Due key Writes ms none (some a)

namespace Due

variable {Writes : α → List Char → Prop} {read last : Option α}

theorem eq_of_nil (h : Due key Writes [] read last) : read = last := by
  cases h with
  | settled => rfl
  | ahead hv => simp [values] at hv

theorem hit (h : Due key Writes ((key, v) :: ms) read last) :
    read = none ∧ ∃ a, Writes a v ∧ Due key Writes ms (some a) last := by
  cases h with
  | settled hv => simp at hv
  | ahead hv hw =>
    rw [values_cons_self, List.cons.injEq] at hv
    obtain ⟨rfl, hms⟩ := hv
    exact ⟨rfl, _, hw, .settled hms⟩

theorem miss (hk : k ≠ key) (h : Due key Writes ((k, v) :: ms) read last) :
    Due key Writes ms read last := by
  cases h with
  | settled hv => exact .settled (values_cons_of_ne hk ▸ hv)
  | ahead hv hw => exact .ahead (values_cons_of_ne hk ▸ hv) hw

end Due

structure Draft.Due (d : Draft) (ms : List (String × List Char)) (final : Draft) : Prop where
  fields : Config.Due "allowed_fields" Strings ms d.fields final.fields
  style : Config.Due "placeholder_style" (fun s : Placeholder.Style => Quoted s.name) ms d.style
    final.style

theorem Draft.Due.eq_of_nil (h : d.Due [] final) : d = final := by
  cases d
  cases final
  exact congrArg₂ Draft.mk h.fields.eq_of_nil h.style.eq_of_nil

theorem ofName?_name (style : Placeholder.Style) :
    Placeholder.Style.ofName? style.name = some style := by
  cases style <;> decide

theorem Draft.member_append {b c : List Char} (hd : d.Due ((key, v) :: ms) final) (hb : Blank b)
    (hc : Blank c) (hv : Json.Grammar.Value v) (hr : Text.Stops continuesNumber rest) :
    ∃ d', d.member key (b ++ ':' :: (c ++ (v ++ rest))) = .ok (d', rest) ∧ d'.Due ms final := by
  by_cases hfields : key = "allowed_fields"
  · subst hfields
    obtain ⟨hnone, names, hnames, hdue⟩ := hd.fields.hit
    refine ⟨{ d with fields := some names }, ?_, hdue, hd.style.miss (by decide)⟩
    simp [member, hnone, Json.colon_append hb, Json.stringArray_append hc hnames, bind, Except.bind]
  by_cases hstyle : key = "placeholder_style"
  · subst hstyle
    obtain ⟨hnone, style, hname, hdue⟩ := hd.style.hit
    refine ⟨{ d with style := some style }, ?_, hd.fields.miss (by decide), hdue⟩
    simp [member, hnone, Json.colon_append hb, Json.choice_append hc hname (ofName?_name style),
      bind, Except.bind]
  · refine ⟨d, ?_, hd.fields.miss hfields, hd.style.miss hstyle⟩
    simp [member, hfields, hstyle, Json.colon_append hb, Json.skip_append hc hv hr, bind,
      Except.bind]

theorem Draft.next_append {member : List Char} (rest : List Char) (hl : Comma first lead)
    (hm : Member (key, v) member) (hd : d.Due ((key, v) :: ms) final)
    (hr : ∀ space, Blank space → Text.Stops continuesNumber (space ++ rest)) :
    ∃ d' space, d.next first (lead ++ (member ++ rest)) = .ok (some d', space ++ rest) ∧
      Blank space ∧ d'.Due ms final := by
  cases hm with
  | @mk _ a k b c _ space ha hk hb hc hv hspace =>
    obtain ⟨d', hmember, hdue⟩ := member_append hd hb hc hv (hr space hspace)
    obtain ⟨text, htext, hread⟩ :=
      Json.quoted_append hk (b ++ ':' :: (c ++ (v ++ (space ++ rest))))
    refine ⟨d', space, ?_, hspace, hdue⟩
    simp only [List.append_assoc, List.cons_append]
    rw [htext]
    refine Json.bind_eq_ok.2 ⟨_, Json.objectTurn_quote hl ha, Json.bind_eq_ok.2 ⟨_, hread, ?_⟩⟩
    simp only [String.ofList_toList]
    exact Json.bind_eq_ok.2 ⟨_, hmember, rfl⟩

theorem Draft.next_close (hs : Blank space) :
    d.next first (space ++ '\x7d' :: rest) = .ok (none, rest) :=
  Json.bind_eq_ok.2 ⟨_, Json.objectTurn_close hs, rfl⟩

theorem members_of_none (h : d.next first text = .ok (none, rest)) :
    members first d text = d.finish.map fun c => (c, rest) := by
  rw [members]
  split
  all_goals
    rename_i heq
    rw [h] at heq
    cases heq
  rfl

theorem members_of_some {d' : Draft} (h : d.next first text = .ok (some d', rest)) :
    members first d text = members false d' rest := by
  rw [members]
  split
  all_goals
    rename_i heq
    rw [h] at heq
    cases heq
  rfl

theorem members_append (rest : List Char) (hl : Comma first lead) (hb : Separated Member ms body)
    (hd : d.Due ms final) :
    members first d (lead ++ (body ++ '\x7d' :: rest)) = final.finish.map fun c => (c, rest) := by
  -- The space behind a member goes with the comma or the brace that follows it.
  induction hb generalizing first lead d with
  | last hm =>
    obtain ⟨d', space, hnext, hspace, hdue⟩ :=
      Draft.next_append ('\x7d' :: rest) hl hm hd fun space hs => Json.stops_append hs rfl
    rw [members_of_some hnext, members_of_none (Draft.next_close hspace), hdue.eq_of_nil]
  | @more _ _ member body hm _ ih =>
    obtain ⟨d', space, hnext, hspace, hdue⟩ :=
      Draft.next_append (',' :: (body ++ '\x7d' :: rest)) hl hm hd
        fun space hs => Json.stops_append hs rfl
    have hmore := ih (.later hspace) hdue
    simp only [List.append_assoc, List.singleton_append] at hmore
    rw [List.append_assoc, List.cons_append, members_of_some hnext, hmore]

theorem Describes.exists_due (h : Describes S style ms) :
    ∃ names style?, names.toFinset = S ∧ style?.getD .dollar = style ∧
      Draft.Due {} ms { fields := some names, style := style? } := by
  obtain ⟨⟨v, names, hv, hnames, hS⟩, ⟨w, hw, hname⟩ | ⟨hw, rfl⟩⟩ := h
  · exact ⟨names, some style, hS, rfl, .ahead hv hnames, .ahead hw hname⟩
  · exact ⟨names, none, hS, rfl, .ahead hv hnames, .settled hw⟩

theorem reader_of_object (h : Object ms text) (hd : Draft.Due {} ms final)
    (hf : final.finish = .ok c) : ∃ after, Blank after ∧ reader text = .ok (c, after) := by
  cases h with
  | @mk before body after hb hbody ha =>
    have hread := members_append after .first hbody hd
    refine ⟨after, ha, ?_⟩
    rw [reader, Json.skipSpace_append hb rfl]
    rw [List.nil_append, hf] at hread
    exact hread

theorem ofJson_of_reader {text : String} (h : reader text.toList = .ok (c, rest))
    (hr : Blank rest) : (ofJson text).value = .ok c := by
  have hskip : Json.skipSpace rest = [] :=
    List.dropWhile_eq_nil_iff.2 (List.all_eq_true.1 (Json.all_isSpace_of_blank hr))
  have hdecode : Json.decode reader text = .ok c :=
    Json.bind_eq_ok.2 ⟨_, h, by simp [hskip]⟩
  rw [ofJson, hdecode]

theorem ofJson_of_encodes {text : String} (h : Encodes S style text) (hc : c.Has S style) :
    (ofJson text).value = .ok c := by
  obtain ⟨ms, hobject, hms⟩ := h
  obtain ⟨names, style?, hS, hstyle, hdue⟩ := hms.exists_due
  obtain ⟨after, hafter, hread⟩ := reader_of_object hobject hdue rfl
  have hloaded : Has { fields := AllowList.ofList names, style := style?.getD .dollar } S style :=
    hstyle ▸ has_ofList hS
  rw [hc.unique hloaded]
  exact ofJson_of_reader hread hafter

-- ---------------------------------------------------------------------------
-- Writing
-- ---------------------------------------------------------------------------

def toJson (names : List String) (style : Placeholder.Style) : String :=
  String.ofList ('\x7b' :: (quote "allowed_fields" ++ ':' :: quoteAll names ++
    ',' :: (quote "placeholder_style" ++ ':' :: quote style.name) ++ ['\x7d']))

theorem member_compact (key : String) (hv : Json.Grammar.Value v) :
    Member (key, v) (quote key ++ ':' :: v) := by
  simpa using Member.mk blank_nil (quoted_quote key) blank_nil blank_nil hv blank_nil

theorem encodes_toJson {names : List String} (style : Placeholder.Style)
    (h : names.toFinset = S) : Encodes S style (toJson names style) := by
  refine ⟨[("allowed_fields", quoteAll names), ("placeholder_style", quote style.name)], ?_, ?_, ?_⟩
  · rw [toJson, String.toList_ofList]
    exact .mk blank_nil (.more (member_compact _ (strings_quoteAll names).value)
      (.last (member_compact _ (quoted_quote style.name).value))) blank_nil
  · exact ⟨quoteAll names, names, by simp [values], strings_quoteAll names, h⟩
  · exact .inl ⟨quote style.name, by simp [values], quoted_quote style.name⟩

/-- Every text of a configuration loads as that configuration: every finite set
of fields and every style belong to one, it is what each of their texts loads
as, and the compact text, with the fields in any order, is one of these. -/
theorem ofJson_undoes_encoding (S : Finset String) (style : Placeholder.Style) :
    (∃ c : Config, c.Has S style) ∧
      ∀ c : Config, c.Has S style →
        (∀ text, Encodes S style text → (ofJson text).value = .ok c) ∧
          ∀ names : List String, names.toFinset = S →
            Encodes S style (toJson names style) ∧ (ofJson (toJson names style)).value = .ok c := by
  refine ⟨⟨_, has_ofList (Finset.toList_toFinset S)⟩, fun c hc => ⟨fun text h => ?_, ?_⟩⟩
  · exact ofJson_of_encodes h hc
  · intro names hnames
    have hcompact := encodes_toJson style hnames
    exact ⟨hcompact, ofJson_of_encodes hcompact hc⟩

/-- A text far from the compact one: an unknown key comes first, with half of a
surrogate pair as a key inside its value, the style stands before the fields, a
key and a name are escaped, and a name is repeated. -/
def scrambled : String :=
  "\x7b\"n\":[\x7b\"\\ud800\":-0e1\x7d ],\"\\u0070laceholder_style\":\"colon\",\n" ++
    " \"allowed_fields\" : [\"\\ud83D\\uDE00\", \"a\" ,\"a\"] \x7d\t"

theorem value_unknown : Json.Grammar.Value "[\x7b\"\\ud800\":-0e1\x7d ]".toList := by
  have hnumber : Json.Grammar.Value "-0e1".toList :=
    .number (@Number.mk ['-'] ['0'] [] ['e', '1'] (by decide) .zero .none
      (@Exponent.some 'e' [] ['1'] (by decide) (by decide) ⟨by decide, by decide⟩))
  have hkey : Body "\\ud800".toList :=
    .unit (.mk (i := 13) (j := 8) (k := 0) (l := 0) (by decide) (by decide) (by decide)
      (by decide)) .nil
  have hlead : Lead .object ("\"\\ud800\":".toList) := .object blank_nil hkey blank_nil
  have hobject : Json.Grammar.Value "\x7b\"\\ud800\":-0e1\x7d".toList :=
    @Json.Grammar.Value.filled .object ⟨"\"\\ud800\":".toList, [], "-0e1".toList, []⟩ []
      (by simpa using ⟨hlead, blank_nil, blank_nil⟩) (by simpa using hnumber)
  exact @Json.Grammar.Value.filled .array ⟨[], [], "\x7b\"\\ud800\":-0e1\x7d".toList, [' ']⟩ []
    (by simpa using ⟨.array, blank_nil, by simp [Blank]⟩) (by simpa using hobject)

theorem encodes_scrambled : Encodes {"😀", "a"} .colon scrambled := by
  have hkey : Quoted "placeholder_style" "\"\\u0070laceholder_style\"".toList := by
    have hp : Hex4 0x70 ['0', '0', '7', '0'] :=
      .mk (i := 0) (j := 0) (k := 7) (l := 0) (by decide) (by decide) (by decide) (by decide)
    exact .mk (s := "placeholder_style")
      (.cons (.unit (c := 'p') hp) (chars_escape "laceholder_style".toList))
  have hface : Quoted "😀" "\"\\ud83D\\uDE00\"".toList := by
    have hhigh : Hex4 0xd83d ['d', '8', '3', 'D'] :=
      .mk (i := 13) (j := 8) (k := 3) (l := 13) (by decide) (by decide) (by decide) (by decide)
    have hlow : Hex4 0xde00 ['D', 'E', '0', '0'] :=
      .mk (i := 13) (j := 14) (k := 0) (l := 0) (by decide) (by decide) (by decide) (by decide)
    exact .mk (s := "😀") (.cons (.pair (c := '😀') (by decide) hhigh hlow) .nil)
  have hblank : Blank [' '] := by simp [Blank]
  have hnewline : Blank ['\n', ' '] := by simp [Blank]
  have htab : Blank ['\t'] := by simp [Blank]
  have hnames : Strings ["😀", "a", "a"] "[\"\\ud83D\\uDE00\", \"a\" ,\"a\"]".toList :=
    .filled (.more (.mk blank_nil hface blank_nil)
      (.more (.mk hblank (quoted_quote "a") hblank)
        (.last (.mk blank_nil (quoted_quote "a") blank_nil))))
  refine ⟨[("n", _), ("placeholder_style", _), ("allowed_fields", _)], .mk blank_nil
    (.more (.mk blank_nil (quoted_quote "n") blank_nil blank_nil value_unknown blank_nil)
      (.more (.mk blank_nil hkey blank_nil blank_nil (quoted_quote "colon").value blank_nil)
        (.last (.mk hnewline (quoted_quote "allowed_fields") hblank hblank hnames.value hblank))))
    htab, ?_, ?_⟩
  · exact ⟨_, _, by simp [values], hnames, by decide⟩
  · exact .inl ⟨_, by simp [values], quoted_quote "colon"⟩

theorem ofJson_undoes_encoding_scrambled :
    Has { fields := AllowList.ofList ["a", "😀"], style := .colon } {"😀", "a"} .colon ∧
      Encodes {"😀", "a"} .colon scrambled ∧
      (ofJson scrambled).value = .ok { fields := AllowList.ofList ["a", "😀"], style := .colon } ∧
      (ofJson (toJson ["😀", "a"] .colon)).value =
        .ok { fields := AllowList.ofList ["a", "😀"], style := .colon } := by
  have hhas : Has { fields := AllowList.ofList ["a", "😀"], style := .colon } {"😀", "a"} .colon :=
    has_ofList (by decide)
  obtain ⟨hload, hwrite⟩ := (ofJson_undoes_encoding {"😀", "a"} .colon).2 _ hhas
  exact ⟨hhas, encodes_scrambled, hload _ encodes_scrambled, (hwrite ["😀", "a"] (by decide)).2⟩

end FilterQuery.Config
