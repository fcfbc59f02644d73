import Mathlib
import FilterQuery.Proofs.Filter.Accepted
import FilterQuery.Proofs.Filter.Finality

/-!
# What the allow-list decides

An allow-list is a filter on the words of a text and nothing more
(`parse_other_fields`). A text that is accepted under one allow-list means the
same under any other that has its fields, and under the rest the first field
that is missing is named. And any text gives the same answer, errors included,
under two allow-lists that agree on its own words, so an answer tells nothing
about other names.

The words of a text are those outside its quotes (`outerWords`), the ones behind
an error included.
-/

namespace FilterQuery

open Grammar (Items Whole)

/-- The words of a text outside its quotes. A character that is neither blank
nor a sign begins a word, which goes on as long as it can. -/
def outerWords : List Char → List String
  | [] => []
  | c :: rest =>
    if c = '"' then outerWords ((rest.dropWhile (· ≠ '"')).drop 1)
    else if Text.isBlank c || Token.isSign c then outerWords rest
    else
      String.ofList (c :: rest.takeWhile Token.isWordChar) ::
        outerWords (rest.dropWhile Token.isWordChar)
termination_by text => text.length
decreasing_by
  · have := (List.dropWhile_sublist (l := rest) (· ≠ '"')).length_le
    grind
  · simp
  · have := (List.dropWhile_sublist (l := rest) Token.isWordChar).length_le
    grind

/-- Two allow-lists that have the same of the words of a text. Reserved words
do not count. -/
def AllowList.AgreeOn (a b : AllowList) (text : List Char) : Prop :=
  ∀ w ∈ outerWords text, isReserved w = false → a.contains w = b.contains w

variable {a b fields : AllowList} {c : Char} {t : Token} {ts us vs : List Token} {f : Filter}
  {word : String} {text body rest blanks : List Char}

-- ---------------------------------------------------------------------------
-- Words outside quotes
-- ---------------------------------------------------------------------------

theorem outerWords_cons_of_isBlank (h : Text.isBlank c = true) :
    outerWords (c :: rest) = outerWords rest := by
  have hq : c ≠ '"' := by
    rintro rfl
    revert h
    decide
  rw [outerWords, if_neg hq, if_pos (by simp [h])]

theorem outerWords_blanks (h : blanks.all Text.isBlank = true) :
    outerWords (blanks ++ rest) = outerWords rest := by
  induction blanks with
  | nil => rfl
  | cons c blanks ih =>
    obtain ⟨hc, hblanks⟩ := Bool.and_eq_true_iff.1 h
    rw [List.cons_append, outerWords_cons_of_isBlank hc, ih hblanks]

theorem outerWords_signs {run : List Char}
    (h : (run.all fun c => Token.isSign c && c ≠ '"') = true) :
    outerWords (run ++ rest) = outerWords rest := by
  induction run with
  | nil => rfl
  | cons c run ih =>
    obtain ⟨hc, hrun⟩ := Bool.and_eq_true_iff.1 h
    obtain ⟨hs, hq⟩ := Bool.and_eq_true_iff.1 hc
    rw [List.cons_append, outerWords, if_neg (of_decide_eq_true hq), if_pos (by simp [hs]), ih hrun]

theorem outerWords_literal (h : '"' ∉ word.toList) :
    outerWords ('"' :: word.toList ++ '"' :: rest) = outerWords rest := by
  have hs : Text.Stops (· ≠ '"') ('"' :: rest) := by simp
  rw [List.cons_append, outerWords, if_pos rfl,
    Text.dropWhile_run (Text.all_ne_of_not_mem h) hs]
  rfl

theorem outerWords_word (hw : Token.isWord word.toList = true)
    (hr : Text.Stops Token.isWordChar rest) :
    outerWords (word.toList ++ rest) = word :: outerWords rest := by
  cases hl : word.toList with
  | nil => simp [hl, Token.isWord] at hw
  | cons c tail =>
    rw [hl] at hw
    obtain ⟨hb, hs, ht⟩ := Token.isWord_cons.1 hw
    have hq : c ≠ '"' := by
      rintro rfl
      revert hs
      decide
    rw [List.cons_append, outerWords, if_neg hq, if_neg (by simp [hb, hs]),
      Text.takeWhile_run ht hr, Text.dropWhile_run ht hr, ← hl, String.ofList_toList]

theorem Token.Begins.outerWords_subset (h : t.Begins fields body rest) :
    ∀ w ∈ outerWords rest, w ∈ outerWords body := by
  obtain ⟨hlegal, rfl, hstops⟩ := h
  have hword {word : String} (hw : isWord word.toList = true) (hr : Text.Stops isWordChar rest) :
      ∀ w ∈ outerWords rest, w ∈ outerWords (word.toList ++ rest) := by
    intro w hm
    rw [outerWords_word hw hr]
    exact List.mem_cons_of_mem _ hm
  have hsigns {run : List Char} (hr : (run.all fun c => isSign c && c ≠ '"') = true) :
      ∀ w ∈ outerWords rest, w ∈ outerWords (run ++ rest) := by
    intro w hm
    rw [outerWords_signs hr]
    exact hm
  cases hlegal with
  | openGroup => exact hsigns (by decide)
  | closeGroup => exact hsigns (by decide)
  | signs hc =>
    simp only [List.mem_cons, List.not_mem_nil, or_false] at hc
    simp only [spelling, String.toList_ofList]
    rcases hc with rfl | rfl <;> exact hsigns (by decide)
  | comparator hc =>
    simp only [List.mem_cons, List.not_mem_nil, or_false] at hc
    simp only [spelling, String.toList_ofList]
    rcases hc with rfl | rfl | rfl | rfl <;> exact hsigns (by decide)
  | comparatorEq hc =>
    simp only [List.mem_cons, List.not_mem_nil, or_false] at hc
    simp only [spelling, String.toList_ofList]
    rcases hc with rfl | rfl | rfl | rfl <;> exact hsigns (by decide)
  | literal hv =>
    intro w hm
    simp only [spelling, List.append_assoc, List.cons_append, List.nil_append]
    rw [← List.cons_append, outerWords_literal hv]
    exact hm
  | keyword hr =>
    exact hword (isWord_of_isReserved hr) fun c hc => by simpa [absorbs, hr] using hstops c hc
  | field hf => exact hword hf.word hstops

-- ---------------------------------------------------------------------------
-- Agreeing allow-lists
-- ---------------------------------------------------------------------------

theorem Token.scanFrom_eq_of_isSign (h : isSign c = true) :
    scanFrom a c rest = scanFrom b c rest := by
  rcases isSign_iff.1 h with rfl | rfl | rfl | rfl | rfl | rfl | rfl | rfl | rfl <;> rfl

theorem Token.ofWord_eq (h : isReserved word = false → a.contains word = b.contains word) :
    ofWord a word = ofWord b word := by
  unfold ofWord
  split
  · rfl
  · rename_i hr
    rw [h (by simpa using hr)]

theorem AllowList.AgreeOn.scan_eq (h : a.AgreeOn b text) :
    Token.scan a text = Token.scan b text := by
  obtain ⟨blanks, body, rfl, hblanks, hstops⟩ := Text.exists_run Text.isBlank text
  simp only [Token.scan, Text.dropWhile_run hblanks hstops]
  rw [AgreeOn, outerWords_blanks hblanks] at h
  cases body with
  | nil => rfl
  | cons c rest =>
    refine congrArg some ?_
    by_cases hs : Token.isSign c = true
    · exact Token.scanFrom_eq_of_isSign hs
    · have hs : Token.isSign c = false := by simpa using hs
      have hq : c ≠ '"' := by
        rintro rfl
        revert hs
        decide
      rw [outerWords, if_neg hq, if_neg (by simp [Text.stops_cons.1 hstops, hs])] at h
      rw [Token.scanFrom_of_not_sign hs, Token.scanFrom_of_not_sign hs, Token.scanWord,
        Token.scanWord, Token.ofWord_eq (h _ List.mem_cons_self)]

theorem AllowList.AgreeOn.of_scan (h : a.AgreeOn b text) (hs : Token.scan a text = some (t, rest))
    (he : t.isError = false) : a.AgreeOn b rest := by
  obtain ⟨blanks, body, hblanks, rfl, hbegins⟩ := Token.begins_of_scan hs he
  intro w hw
  refine h w ?_
  rw [outerWords_blanks hblanks]
  exact hbegins.outerWords_subset w hw

theorem AllowList.AgreeOn.tokens_eq (h : a.AgreeOn b text) :
    (Lexer.mk a text false).tokens = (Lexer.mk b text false).tokens := by
  -- Every token takes some text, so the rest of the text is shorter.
  induction hn : text.length using Nat.strongRecOn generalizing text with
  | ind n ih =>
    cases hs : Token.scan a text with
    | none =>
      rw [Lexer.tokens_of_scan_none hs, Lexer.tokens_of_scan_none (h.scan_eq ▸ hs)]
    | some r =>
      obtain ⟨t, rest⟩ := r
      rw [Lexer.tokens_of_scan_some hs, Lexer.tokens_of_scan_some (h.scan_eq ▸ hs)]
      -- Behind an error nothing is scanned; behind any other token the allow-lists still agree.
      cases he : t.isError with
      | true => rw [Lexer.tokens_of_halted, Lexer.tokens_of_halted]
      | false => rw [ih rest.length (hn ▸ Token.length_scan hs) (h.of_scan hs he) rfl]

-- ---------------------------------------------------------------------------
-- Accepted texts under another allow-list
-- ---------------------------------------------------------------------------

def Token.allowedIn (fields : AllowList) (t : Token) : Bool :=
  t.kind ≠ .field || fields.contains t.text

theorem Token.allowedIn_eq_false_iff :
    t.allowedIn fields = false ↔ t.kind = .field ∧ fields.contains t.text = false := by
  simp [allowedIn]

theorem Token.Begins.of_allowedIn (h : t.Begins a text rest) (ht : t.allowedIn b = true) :
    t.Begins b text rest := by
  obtain ⟨hlegal, htext, hstops⟩ := h
  refine ⟨?_, htext, hstops⟩
  cases hlegal with
  | openGroup => exact .openGroup
  | closeGroup => exact .closeGroup
  | signs hc => exact .signs hc
  | keyword hr => exact .keyword hr
  | comparator hc => exact .comparator hc
  | comparatorEq hc => exact .comparatorEq hc
  | literal hv => exact .literal hv
  | field hf => exact .field ⟨by simpa [allowedIn] using ht, hf.not_reserved, hf.word⟩

theorem Spelled.of_allowedIn (h : Spelled a ts text) (hts : ∀ t ∈ ts, t.allowedIn b = true) :
    Spelled b ts text := by
  induction h with
  | nil hb => exact .nil hb
  | cons hb hbegins _ ih =>
    obtain ⟨ht, hts⟩ := List.forall_mem_cons.1 hts
    exact .cons hb (hbegins.of_allowedIn ht) (ih hts)

theorem Token.Begins.tokens_of_not_allowed (h : Token.Begins a ⟨.field, word⟩ body rest)
    (hb : blanks.all Text.isBlank = true) (hn : b.contains word = false) :
    (Lexer.mk b (blanks ++ body) false).tokens = [(LexicalError.unknownField word).token] := by
  obtain ⟨c, tail, rfl, hc⟩ := h.exists_cons
  obtain ⟨hlegal, htext, hstops⟩ := h
  cases hlegal with
  | field hf =>
    have hscan : Token.scan b (blanks ++ c :: tail) =
        some ((LexicalError.unknownField word).token, rest) := by
      have hd : (blanks ++ c :: tail).dropWhile Text.isBlank = c :: tail :=
        Text.dropWhile_run hb (Text.stops_cons.2 hc)
      simp only [Token.scan, hd, scanFrom_word hf.word hstops htext.symm, ofWord, hf.not_reserved,
        hn]
      rfl
    rw [Lexer.tokens_of_scan_some hscan, isError_error, Lexer.tokens_of_halted]

theorem Spelled.tokens_of_not_allowed (h : Spelled a ts text)
    (hts : ts = us ++ ⟨.field, word⟩ :: vs) (hus : ∀ t ∈ us, t.allowedIn b = true)
    (hn : b.contains word = false) :
    (Lexer.mk b text false).tokens = us ++ [(LexicalError.unknownField word).token] := by
  induction h generalizing us with
  | nil => simp at hts
  | @cons t ts blanks body rest hb hbegins _ ih =>
    cases us with
    | nil =>
      obtain ⟨rfl, -⟩ := List.cons.inj hts
      exact hbegins.tokens_of_not_allowed hb hn
    | cons u us =>
      obtain ⟨rfl, htail⟩ := List.cons.inj hts
      obtain ⟨hu, hus⟩ := List.forall_mem_cons.1 hus
      have hbegins := hbegins.of_allowedIn hu
      rw [Lexer.tokens_of_scan_some (Token.scan_of_begins hb hbegins), hbegins.legal.isError,
        ih htail hus]
      rfl

/-- An error in place of the rest of tokens that can be read is what is
reported, wherever in the filter it stands. -/
theorem Filter.ofTokens_append_error (h : Filter.ofTokens (ts ++ us) = .ok f) (e : LexicalError) :
    Filter.ofTokens (ts ++ [e.token]) = .error (.lexical e.message) :=
  (Filter.unsettled_of_ok h).of_append.ofTokens_error e.message []

theorem Grammar.Whole.find?_not_allowedIn {depth : Nat} (h : Whole depth ts f) (b : AllowList) :
    (ts.find? fun t => !t.allowedIn b).map (·.text) =
      (f.predicates.find? fun p => !b.contains p.field).map (·.field) := by
  have hfields := congrArg (List.find? fun w => !b.contains w) h.texts_eq.1
  simpa [Token.texts, Token.allowedIn, List.find?_map, List.find?_filter, Function.comp_def]
    using hfields

/-- The allow-list only filters words. An accepted text is read alike under any
other allow-list, unless some field is missing there, and then the first such
field is named; and allow-lists that have the same of the words of a text give
the same answer on it. -/
theorem parse_other_fields (text : String) (a b : AllowList) :
    (∀ f, parse text a = .ok f →
      parse text b =
        match f.predicates.find? fun p => !b.contains p.field with
        | none => .ok f
        | some p => .error (.lexical (Text.quote p.field ++ " isn't a valid field"))) ∧
    (a.AgreeOn b text.toList → parse text a = parse text b) := by
  refine ⟨fun f h => ?_, fun h => ?_⟩
  · obtain ⟨ts, hspelled, hwhole⟩ := parse_eq_ok_iff.1 h
    have hfind := hwhole.find?_not_allowedIn b
    cases hp : f.predicates.find? fun p => !b.contains p.field with
    | none =>
      simp only [hp, Option.map_none, Option.map_eq_none_iff, List.find?_eq_none] at hfind
      exact parse_eq_ok_iff.2 ⟨ts, hspelled.of_allowedIn (by simpa using hfind), hwhole⟩
    | some p =>
      rw [hp, Option.map_some, Option.map_eq_some_iff] at hfind
      obtain ⟨⟨kind, word⟩, ht, rfl⟩ := hfind
      obtain ⟨hnot, us, vs, rfl, hus⟩ := List.find?_eq_some_iff_append.1 ht
      obtain ⟨rfl, hn⟩ := Token.allowedIn_eq_false_iff.1 (by simpa using hnot)
      have htokens : (Lexer.ofString b text).tokens =
          us ++ [(LexicalError.unknownField p.field).token] :=
        hspelled.tokens_of_not_allowed rfl (by simpa using hus) hn
      rw [parse_eq_ofTokens, htokens]
      exact Filter.ofTokens_append_error hwhole.ofTokens_eq (.unknownField p.field)
  · rw [parse_eq_ofTokens, parse_eq_ofTokens]
    exact congrArg Filter.ofTokens h.tokens_eq

/-- A smaller allow-list names the first field it misses, from inside a group.
Other names and reserved words in an allow-list change nothing, not even in the
message about a text that cannot be scanned to its end. -/
theorem parse_other_fields_missing :
    parse "a=\"b\" or (\"1\"<c && b.x>\"2\")" (.ofList ["a"]) =
        .error (.lexical "\"c\" isn't a valid field") ∧
      parse "a=\"b\" & c" (.ofList ["a"]) = parse "a=\"b\" & c" (.ofList ["AND", "a", "b"]) := by
  constructor
  · have hread : parse "a=\"b\" or (\"1\"<c && b.x>\"2\")" (.ofList ["a", "b.x", "c"]) =
        .ok (.group .or [.predicate ⟨"a", .eq, "b"⟩,
          .group .and [.predicate ⟨"c", .lt, "1"⟩, .predicate ⟨"b.x", .gt, "2"⟩]]) := by cbv
    have hother := (parse_other_fields _ _ (.ofList ["a"])).1 _ hread
    have hmessage : Text.quote "c" ++ " isn't a valid field" = "\"c\" isn't a valid field" := by
      decide +kernel
    exact hmessage ▸ hother
  · have hwords : outerWords "a=\"b\" & c".toList = ["a", "c"] := by cbv
    refine (parse_other_fields _ _ _).2 ?_
    intro w hw _
    rw [hwords] at hw
    simp only [List.mem_cons, List.not_mem_nil, or_false] at hw
    rcases hw with rfl | rfl <;> cbv

end FilterQuery
