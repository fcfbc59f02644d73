import FilterQuery.Token.Source

/-!
# How tokens are spelled

The lexical grammar, as a relation beside the scanner. `Token.Legal` are the
tokens a text can hold, `Token.spelling` is how each is written, and
`Spelled fields tokens text` says that the text is the spellings of the tokens
with blanks around them. `Lexer.tokens_eq_iff` says that scanning without error
is exactly that: no character is dropped, and none is read twice.

What an error token says is not covered here.
-/

namespace FilterQuery

-- ---------------------------------------------------------------------------
-- Runs of characters
-- ---------------------------------------------------------------------------

/-- A run of characters with a property cannot go on into `text`. -/
def Text.Stops (p : Char → Bool) (text : List Char) : Prop :=
  ∀ c ∈ text.head?, p c = false

namespace Text

variable {p : Char → Bool} {run text : List Char} {c : Char}

@[simp] theorem stops_nil : Stops p [] := by simp [Stops]

@[simp] theorem stops_cons : Stops p (c :: text) ↔ p c = false := by simp [Stops]

theorem Stops.of_append {more : List Char} (h : Stops p (text ++ more)) : Stops p text := by
  cases text with
  | nil => exact stops_nil
  | cons c text => exact stops_cons.2 (stops_cons.1 h)

theorem Stops.imp {q : Char → Bool} (h : Stops p text) (hq : ∀ c, q c = true → p c = true) :
    Stops q text :=
  fun c hc => Bool.eq_false_iff.2 fun htrue => Bool.eq_false_iff.1 (h c hc) (hq c htrue)

theorem stops_dropWhile (p : Char → Bool) (text : List Char) : Stops p (text.dropWhile p) := by
  have h := List.head?_dropWhile_not p text
  intro c hc
  rw [Option.mem_def.1 hc] at h
  exact h

theorem takeWhile_run (hr : run.all p = true) (ht : Stops p text) :
    (run ++ text).takeWhile p = run := by
  rw [List.takeWhile_append_of_pos (List.all_eq_true.1 hr)]
  cases text with
  | nil => simp
  | cons c text => simp [stops_cons.1 ht]

theorem dropWhile_run (hr : run.all p = true) (ht : Stops p text) :
    (run ++ text).dropWhile p = text := by
  rw [List.dropWhile_append_of_pos (List.all_eq_true.1 hr)]
  cases text with
  | nil => rfl
  | cons c text => simp [stops_cons.1 ht]

theorem all_ne_of_not_mem (h : c ∉ text) : text.all (· ≠ c) = true :=
  List.all_eq_true.2 fun _ hd => decide_eq_true fun he => h (he ▸ hd)

theorem not_mem_of_all (h : text.all p = true) (hc : p c = false) : c ∉ text :=
  fun hm => Bool.false_ne_true (hc.symm.trans (List.all_eq_true.1 h c hm))

theorem exists_run (p : Char → Bool) (text : List Char) :
    ∃ run rest, text = run ++ rest ∧ run.all p = true ∧ Stops p rest :=
  ⟨text.takeWhile p, text.dropWhile p, List.takeWhile_append_dropWhile.symm, List.all_takeWhile,
    stops_dropWhile p text⟩

end Text

-- ---------------------------------------------------------------------------
-- Legal tokens and their spelling
-- ---------------------------------------------------------------------------

namespace Token

def isSign (c : Char) : Bool :=
  ['(', ')', '"', '&', '|', '<', '>', '=', '!'].contains c

def isWord : List Char → Bool
  | [] => false
  | c :: rest => !Text.isBlank c && !isSign c && rest.all isWordChar

structure IsField (fields : AllowList) (name : String) : Prop where
  allowed : fields.contains name = true
  not_reserved : isReserved name = false
  word : isWord name.toList = true

inductive Legal (fields : AllowList) : Token → Prop
  | openGroup : Legal fields ⟨.openGroup, "("⟩
  | closeGroup : Legal fields ⟨.closeGroup, ")"⟩
  | signs {c : Char} : c ∈ ['&', '|'] → Legal fields ⟨.operator, String.ofList [c, c]⟩
  | keyword {word : String} : isReserved word = true → Legal fields ⟨.operator, word⟩
  | comparator {c : Char} : c ∈ ['<', '>', '=', '!'] →
      Legal fields ⟨.comparator, String.ofList [c]⟩
  | comparatorEq {c : Char} : c ∈ ['<', '>', '=', '!'] →
      Legal fields ⟨.comparator, String.ofList [c, '=']⟩
  | literal {text : String} : '"' ∉ text.toList → Legal fields ⟨.literal, text⟩
  | field {word : String} : IsField fields word → Legal fields ⟨.field, word⟩

/-- A literal stands between quotes, and any other token as it is. -/
def spelling (t : Token) : List Char :=
  match t.kind with
  | .literal => '"' :: t.text.toList ++ ['"']
  | _ => t.text.toList

/-- Whether a character right after the token would be read as part of it. -/
def absorbs (t : Token) (c : Char) : Bool :=
  match t.kind with
  | .field => isWordChar c
  | .operator => isReserved t.text && isWordChar c
  | .comparator => t.text.length = 1 && c = '='
  | _ => false

/-- `text` begins with the token `t`, and `rest` is what comes after it. -/
structure Begins (fields : AllowList) (t : Token) (text rest : List Char) : Prop where
  legal : Legal fields t
  text_eq : text = t.spelling ++ rest
  stops : Text.Stops t.absorbs rest

variable {fields : AllowList} {t : Token} {c : Char} {text rest : List Char} {word : String}

theorem Legal.isError (h : Legal fields t) : t.isError = false := by
  cases h <;> rfl

theorem isError_error (e : LexicalError) : e.token.isError = true := rfl

-- ---------------------------------------------------------------------------
-- Words
-- ---------------------------------------------------------------------------

theorem isWordChar_iff : isWordChar c = true ↔
    c.toNat = 46 ∨ (48 ≤ c.toNat ∧ c.toNat ≤ 57) ∨ (65 ≤ c.toNat ∧ c.toNat ≤ 90) ∨
      (97 ≤ c.toNat ∧ c.toNat ≤ 122) := by
  have hdot : c = '.' ↔ c.toNat = 46 := ⟨fun h => h ▸ rfl, fun h => Char.toNat_inj.1 h⟩
  have hupper : c.isUpper = true ↔ 65 ≤ c.toNat ∧ c.toNat ≤ 90 := decide_eq_true_iff
  have hlower : c.isLower = true ↔ 97 ≤ c.toNat ∧ c.toNat ≤ 122 :=
    Bool.and_eq_true_iff.trans (and_congr decide_eq_true_iff decide_eq_true_iff)
  have hdigit : c.isDigit = true ↔ 48 ≤ c.toNat ∧ c.toNat ≤ 57 := Char.isDigit_iff_toNat
  have hword : isWordChar c = (c.isUpper || c.isLower || c.isDigit || decide (c = '.')) := rfl
  simp only [hword, Bool.or_eq_true, decide_eq_true_eq, hupper, hlower, hdigit, hdot]
  omega

theorem isBlank_of_isWordChar (h : isWordChar c = true) : Text.isBlank c = false := by
  rw [isWordChar_iff] at h
  rw [Bool.eq_false_iff, Ne, Text.isBlank, Text.inRanges_iff]
  simp only [Text.blankRanges, List.mem_cons, List.not_mem_nil, or_false]
  rintro ⟨r, hr, h1, h2⟩
  rcases hr with rfl | rfl | rfl | rfl | rfl | rfl | rfl | rfl | rfl | rfl <;> omega

theorem isSign_iff : isSign c = true ↔ c = '(' ∨ c = ')' ∨ c = '"' ∨ c = '&' ∨ c = '|' ∨
    c = '<' ∨ c = '>' ∨ c = '=' ∨ c = '!' := by
  simp [isSign]

theorem isSign_of_isWordChar (h : isWordChar c = true) : isSign c = false := by
  rw [Bool.eq_false_iff, Ne, isSign_iff]
  intro hs
  rcases hs with rfl | rfl | rfl | rfl | rfl | rfl | rfl | rfl | rfl <;> simp [isWordChar] at h

theorem isWordChar_of_toLower (h : isWordChar c.toLower = true) : isWordChar c = true := by
  delta Char.toLower at h
  split at h
  · rename_i hu
    have h1 : 65 ≤ c.toNat := hu.1
    have h2 : c.toNat ≤ 90 := hu.2
    rw [isWordChar_iff]
    omega
  · exact h

theorem isWord_cons : isWord (c :: text) = true ↔
    Text.isBlank c = false ∧ isSign c = false ∧ text.all isWordChar = true := by
  simp [isWord, and_assoc]

theorem not_blank_or_sign_of_mem_word (h : isWord text = true) (hc : c ∈ text) :
    Text.isBlank c = false ∧ isSign c = false := by
  cases text with
  | nil => simp at hc
  | cons d text =>
    obtain ⟨hb, hs, ht⟩ := isWord_cons.1 h
    rcases List.mem_cons.1 hc with rfl | hc
    · exact ⟨hb, hs⟩
    · have hw := List.all_eq_true.1 ht c hc
      exact ⟨isBlank_of_isWordChar hw, isSign_of_isWordChar hw⟩

theorem isWord_of_all (h : text.all isWordChar = true) (hn : text ≠ []) : isWord text = true := by
  cases text with
  | nil => exact absurd rfl hn
  | cons c text =>
    rw [List.all_cons, Bool.and_eq_true] at h
    exact isWord_cons.2 ⟨isBlank_of_isWordChar h.1, isSign_of_isWordChar h.1, h.2⟩

theorem isReserved_iff : isReserved word = true ↔
    word.toList.map Char.toLower = ['a', 'n', 'd'] ∨
      word.toList.map Char.toLower = ['o', 'r'] := by
  unfold isReserved BoolOp.ofWord?
  split <;> simp_all

theorem isWord_of_isReserved (h : isReserved word = true) : isWord word.toList = true := by
  rw [isReserved_iff] at h
  have hall : (word.toList.map Char.toLower).all isWordChar = true := by
    rcases h with h | h <;> rw [h] <;> decide
  apply isWord_of_all
  · rw [List.all_map, List.all_eq_true] at hall
    exact List.all_eq_true.2 fun c hc => isWordChar_of_toLower (hall c hc)
  · intro hn
    simp [hn] at h

theorem absorbs_eq_false (hw : isWordChar c = false) (he : c ≠ '=') : t.absorbs c = false := by
  unfold absorbs
  split <;> simp [hw, he]

theorem absorbs_of_isBlank (h : Text.isBlank c = true) : t.absorbs c = false := by
  refine absorbs_eq_false ?_ ?_
  · rw [Bool.eq_false_iff]
    intro hw
    rw [isBlank_of_isWordChar hw] at h
    cases h
  · rintro rfl
    revert h
    decide

theorem isReserved_signs (hc : c ∈ ['&', '|']) : isReserved (String.ofList [c, c]) = false := by
  simp only [List.mem_cons, List.not_mem_nil, or_false] at hc
  rcases hc with rfl | rfl <;> decide

-- ---------------------------------------------------------------------------
-- Scanning one token
-- ---------------------------------------------------------------------------

theorem begins_of_scanLiteral (h : scanLiteral text = (t, rest)) (he : t.isError = false) :
    Begins fields t ('"' :: text) rest := by
  obtain ⟨value, after, rfl, hv, ha⟩ := Text.exists_run (· ≠ '"') text
  rw [scanLiteral, Text.dropWhile_run hv ha, Text.takeWhile_run hv ha] at h
  cases after with
  | nil =>
    cases h
    simp [isError_error] at he
  | cons q after =>
    cases h
    have hq : q = '"' := by simpa using ha
    have hm : '"' ∉ value := Text.not_mem_of_all hv (by simp)
    exact ⟨.literal (by simpa using hm), by simp [spelling, hq], fun c _ => rfl⟩

theorem begins_of_scanOperator (hc : c ∈ ['&', '|']) (h : scanOperator c text = (t, rest))
    (he : t.isError = false) : Begins fields t (c :: text) rest := by
  cases text with
  | nil =>
    cases h
    simp [isError_error] at he
  | cons d text =>
    simp only [scanOperator] at h
    split at h
    · rename_i hd
      cases h
      subst hd
      exact ⟨.signs hc, by simp [spelling], fun a _ => by simp only [absorbs, isReserved_signs hc,
        Bool.false_and]⟩
    · cases h
      simp [isError_error] at he

theorem begins_of_scanComparator (hc : c ∈ ['<', '>', '=', '!'])
    (h : scanComparator c text = (t, rest)) : Begins fields t (c :: text) rest := by
  unfold scanComparator at h
  split at h
  · cases h
    exact ⟨.comparatorEq hc, by simp [spelling], fun a _ => by simp [absorbs]⟩
  · rename_i hne
    cases h
    refine ⟨.comparator hc, by simp [spelling], ?_⟩
    cases text with
    | nil => exact Text.stops_nil
    | cons d text =>
      have hd : d ≠ '=' := fun hd => hne text (by rw [hd])
      simp [absorbs, hd]

theorem begins_ofWord (hw : isWord word.toList = true) (hr : Text.Stops isWordChar rest)
    (he : (ofWord fields word).isError = false) :
    Begins fields (ofWord fields word) (word.toList ++ rest) rest := by
  unfold ofWord at he ⊢
  split
  · rename_i hk
    exact ⟨.keyword hk, rfl, fun a ha => by simp [absorbs, hr a ha]⟩
  · rename_i hk
    split
    · rename_i hf
      exact ⟨.field ⟨hf, by simpa using hk, hw⟩, rfl, hr⟩
    · rename_i hf
      simp [hk, hf, isError_error] at he

theorem begins_of_scanWord (hb : Text.isBlank c = false) (hs : isSign c = false)
    (h : scanWord fields c text = (t, rest)) (he : t.isError = false) :
    Begins fields t (c :: text) rest := by
  obtain ⟨tail, after, rfl, ht, ha⟩ := Text.exists_run isWordChar text
  rw [scanWord, Text.dropWhile_run ht ha, Text.takeWhile_run ht ha] at h
  cases h
  have hl : (String.ofList (c :: tail)).toList = c :: tail := String.toList_ofList
  have hw : isWord (String.ofList (c :: tail)).toList = true := by
    rw [hl]
    exact isWord_cons.2 ⟨hb, hs, ht⟩
  have h := begins_ofWord hw ha he
  rw [hl] at h
  exact h

theorem begins_of_scanFrom (hb : Text.isBlank c = false) (h : scanFrom fields c text = (t, rest))
    (he : t.isError = false) : Begins fields t (c :: text) rest := by
  unfold scanFrom at h
  split at h
  · cases h
    exact ⟨.openGroup, rfl, fun _ _ => rfl⟩
  · cases h
    exact ⟨.closeGroup, rfl, fun _ _ => rfl⟩
  · exact begins_of_scanLiteral h he
  iterate 2 exact begins_of_scanOperator (by simp) h he
  iterate 4 exact begins_of_scanComparator (by simp) h
  · refine begins_of_scanWord hb ?_ h he
    rw [Bool.eq_false_iff, Ne, isSign_iff]
    grind

theorem scanFrom_of_not_sign (h : isSign c = false) :
    scanFrom fields c text = scanWord fields c text := by
  unfold scanFrom
  split <;> first | rfl | simp [isSign] at h

theorem scanFrom_word (hw : isWord word.toList = true) (hr : Text.Stops isWordChar rest)
    (h : word.toList ++ rest = c :: text) :
    scanFrom fields c text = (ofWord fields word, rest) := by
  cases hl : word.toList with
  | nil => simp [hl, isWord] at hw
  | cons d tail =>
    rw [hl] at hw
    rw [hl, List.cons_append] at h
    obtain ⟨rfl, rfl⟩ := List.cons.inj h
    obtain ⟨-, hs, ht⟩ := isWord_cons.1 hw
    rw [scanFrom_of_not_sign hs, scanWord, Text.takeWhile_run ht hr, Text.dropWhile_run ht hr, ← hl,
      String.ofList_toList]

theorem scanLiteral_append (hv : '"' ∉ word.toList) :
    scanLiteral (word.toList ++ ('"' :: rest)) = (⟨.literal, word⟩, rest) := by
  have hall := Text.all_ne_of_not_mem hv
  have hs : Text.Stops (· ≠ '"') ('"' :: rest) := by simp
  simp only [scanLiteral, Text.dropWhile_run hall hs, Text.takeWhile_run hall hs, String.ofList_toList]

theorem scanFrom_of_begins (h : Begins fields t (c :: text) rest) :
    scanFrom fields c text = (t, rest) := by
  obtain ⟨hl, he, hs⟩ := h
  cases hl with
  | openGroup =>
    cases he
    rfl
  | closeGroup =>
    cases he
    rfl
  | @signs d hd =>
    simp only [List.mem_cons, List.not_mem_nil, or_false] at hd
    simp only [spelling, String.toList_ofList] at he
    rcases hd with rfl | rfl <;> cases he <;> rfl
  | @comparator d hd =>
    simp only [List.mem_cons, List.not_mem_nil, or_false] at hd
    simp only [spelling, String.toList_ofList] at he
    obtain ⟨rfl, rfl⟩ := List.cons.inj he
    -- An equals sign right after it would have been absorbed.
    have hn : ∀ after, text = '=' :: after → False := by
      rintro after rfl
      simp [absorbs] at hs
    have hsc : scanComparator c text = (⟨.comparator, String.ofList [c]⟩, text) :=
      scanComparator.eq_2 c text hn
    rcases hd with rfl | rfl | rfl | rfl <;> exact hsc
  | @comparatorEq d hd =>
    simp only [List.mem_cons, List.not_mem_nil, or_false] at hd
    simp only [spelling, String.toList_ofList] at he
    rcases hd with rfl | rfl | rfl | rfl <;> cases he <;> rfl
  | @literal value hv =>
    simp only [spelling, List.cons_append, List.append_assoc] at he
    obtain ⟨rfl, rfl⟩ := List.cons.inj he
    exact scanLiteral_append hv
  | @keyword word hr =>
    have hw := isWord_of_isReserved hr
    rw [scanFrom_word hw (fun a ha => by simpa [absorbs, hr] using hs a ha) he.symm, ofWord,
      if_pos hr]
  | @field word hf =>
    rw [scanFrom_word hf.word hs he.symm, ofWord, if_neg (by simp [hf.not_reserved]),
      if_pos hf.allowed]

/-- Only a literal holds blanks or quotes. -/
theorem Legal.mem_spelling (h : Legal fields t) (hk : t.kind ≠ .literal) (hc : c ∈ t.spelling) :
    Text.isBlank c = false ∧ c ≠ '"' := by
  have hsign : ∀ c ∈ ['(', ')', '&', '|', '<', '>', '=', '!'],
      Text.isBlank c = false ∧ c ≠ '"' := by
    intro c hc
    simp only [List.mem_cons, List.not_mem_nil, or_false] at hc
    rcases hc with rfl | rfl | rfl | rfl | rfl | rfl | rfl | rfl <;> decide
  have hword {word : String} (hw : isWord word.toList = true) (hm : c ∈ word.toList) :
      Text.isBlank c = false ∧ c ≠ '"' := by
    obtain ⟨hb, hs⟩ := not_blank_or_sign_of_mem_word hw hm
    refine ⟨hb, ?_⟩
    rintro rfl
    exact absurd hs (by decide)
  cases h with
  | openGroup => exact hsign c (List.Sublist.mem hc (by decide))
  | closeGroup => exact hsign c (List.Sublist.mem hc (by decide))
  | signs hd =>
    simp only [spelling, String.toList_ofList, List.mem_cons, List.not_mem_nil, or_false,
      or_self] at hc
    subst hc
    exact hsign c (List.Sublist.mem hd (by decide))
  | comparator hd =>
    simp only [spelling, String.toList_ofList, List.mem_singleton] at hc
    subst hc
    exact hsign c (List.Sublist.mem hd (by decide))
  | comparatorEq hd =>
    simp only [spelling, String.toList_ofList, List.mem_cons, List.not_mem_nil, or_false] at hc
    rcases hc with rfl | rfl
    · exact hsign c (List.Sublist.mem hd (by decide))
    · exact hsign '=' (by decide)
  | literal => exact absurd rfl hk
  | keyword hr => exact hword (isWord_of_isReserved hr) hc
  | field hf => exact hword hf.word hc

theorem Legal.spelling_ne_nil (h : Legal fields t) : t.spelling ≠ [] := by
  have hword {word : String} (hw : isWord word.toList = true) : word.toList ≠ [] := by
    intro hn
    simp [hn, isWord] at hw
  cases h with
  | openGroup => decide
  | closeGroup => decide
  | signs => simp [spelling]
  | comparator => simp [spelling]
  | comparatorEq => simp [spelling]
  | literal => simp [spelling]
  | keyword hr => exact hword (isWord_of_isReserved hr)
  | field hf => exact hword hf.word

theorem Begins.exists_cons (h : Begins fields t text rest) :
    ∃ c tail, text = c :: tail ∧ Text.isBlank c = false := by
  obtain ⟨hl, rfl, -⟩ := h
  obtain ⟨c, tail, hs⟩ := List.exists_cons_of_ne_nil hl.spelling_ne_nil
  refine ⟨c, tail ++ rest, by rw [hs, List.cons_append], ?_⟩
  by_cases hk : t.kind = .literal
  · simp only [spelling, hk] at hs
    obtain ⟨rfl, -⟩ := List.cons.inj hs
    decide
  · exact (hl.mem_spelling hk (hs ▸ List.mem_cons_self)).1

variable {blanks : List Char}

theorem scan_of_begins (hb : blanks.all Text.isBlank = true) (h : Begins fields t text rest) :
    scan fields (blanks ++ text) = some (t, rest) := by
  obtain ⟨c, tail, rfl, hc⟩ := h.exists_cons
  have hd : (blanks ++ c :: tail).dropWhile Text.isBlank = c :: tail :=
    Text.dropWhile_run hb (Text.stops_cons.2 hc)
  simp only [scan, hd, scanFrom_of_begins h]

theorem begins_of_scan (h : scan fields text = some (t, rest)) (he : t.isError = false) :
    ∃ blanks body, blanks.all Text.isBlank = true ∧ text = blanks ++ body ∧
      Begins fields t body rest := by
  obtain ⟨blanks, body, rfl, hb, hs⟩ := Text.exists_run Text.isBlank text
  simp only [scan, Text.dropWhile_run hb hs] at h
  cases body with
  | nil => simp at h
  | cons c body =>
    exact ⟨blanks, c :: body, hb, rfl,
      begins_of_scanFrom (Text.stops_cons.1 hs) (Option.some.inj h) he⟩

theorem scan_eq_none_iff : scan fields text = none ↔ text.all Text.isBlank = true := by
  obtain ⟨blanks, body, rfl, hb, hs⟩ := Text.exists_run Text.isBlank text
  simp only [scan, Text.dropWhile_run hb hs, List.all_append, hb, Bool.true_and]
  cases body with
  | nil => simp
  | cons c body => simp [Text.stops_cons.1 hs]

end Token

-- ---------------------------------------------------------------------------
-- Scanning a text
-- ---------------------------------------------------------------------------

/-- `text` is the spellings of `tokens` in order, with blanks before, between
and after them. Blanks may be missing where no token absorbs what follows. -/
inductive Spelled (fields : AllowList) : List Token → List Char → Prop
  | nil {blanks : List Char} : blanks.all Text.isBlank = true → Spelled fields [] blanks
  | cons {t : Token} {ts : List Token} {blanks body rest : List Char} :
      blanks.all Text.isBlank = true → t.Begins fields body rest → Spelled fields ts rest →
      Spelled fields (t :: ts) (blanks ++ body)

variable {fields : AllowList} {ts : List Token} {text : List Char} {l : Lexer}

theorem Spelled.legal (h : Spelled fields ts text) : ∀ t ∈ ts, t.Legal fields := by
  induction h with
  | nil => simp
  | cons _ hbegins _ ih =>
    intro t ht
    rcases List.mem_cons.1 ht with rfl | ht
    · exact hbegins.legal
    · exact ih t ht

theorem Token.begins_spaced {t : Token} (h : t.Legal fields) (ts : List Token) :
    t.Begins fields (t.spelling ++ ts.flatMap fun t => ' ' :: t.spelling)
      (ts.flatMap fun t => ' ' :: t.spelling) := by
  refine ⟨h, rfl, ?_⟩
  cases ts with
  | nil => exact Text.stops_nil
  | cons u ts =>
    rw [List.flatMap_cons, List.cons_append, Text.stops_cons]
    exact absorbs_of_isBlank (by decide)

theorem spelled_spaced (h : ∀ t ∈ ts, t.Legal fields) :
    Spelled fields ts (ts.flatMap fun t => ' ' :: t.spelling) := by
  induction ts with
  | nil => exact .nil rfl
  | cons t ts ih =>
    obtain ⟨ht, hts⟩ := List.forall_mem_cons.1 h
    have hblank : [' '].all Text.isBlank = true := by decide
    exact @Spelled.cons fields t ts [' '] _ _ hblank (Token.begins_spaced ht ts) (ih hts)

theorem BoolOp.legal_symbol (op : BoolOp) : Token.Legal fields ⟨.operator, op.symbol⟩ := by
  cases op <;> exact .keyword (by decide)

theorem Comparator.legal_symbol (c : Comparator) :
    Token.Legal fields ⟨.comparator, c.symbol⟩ := by
  cases c with
  | eq => exact .comparator (c := '=') (by decide)
  | ne => exact .comparatorEq (c := '!') (by decide)
  | lt => exact .comparator (c := '<') (by decide)
  | le => exact .comparatorEq (c := '<') (by decide)
  | gt => exact .comparator (c := '>') (by decide)
  | ge => exact .comparatorEq (c := '>') (by decide)

theorem Lexer.next?_of_not_halted (h : l.halted = false) :
    l.next? = (Token.scan l.fields l.rest).map fun (t, rest) =>
      (t, { l with rest, halted := t.isError }) := by
  simp [Lexer.next?, h]

theorem Lexer.tokens_of_halted : (Lexer.mk fields text true).tokens = [] :=
  Lexer.tokens_of_none rfl

theorem Lexer.tokens_of_scan_none (h : Token.scan fields text = none) :
    (Lexer.mk fields text false).tokens = [] := by
  apply Lexer.tokens_of_none
  rw [Lexer.next?_of_not_halted rfl, h]
  rfl

theorem Lexer.tokens_of_scan_some {t : Token} {rest : List Char}
    (h : Token.scan fields text = some (t, rest)) :
    (Lexer.mk fields text false).tokens = t :: (Lexer.mk fields rest t.isError).tokens := by
  apply Lexer.tokens_of_some
  rw [Lexer.next?_of_not_halted rfl, h]
  rfl

theorem Spelled.tokens_eq (h : Spelled fields ts text) :
    (Lexer.mk fields text false).tokens = ts := by
  induction h with
  | nil hb => exact Lexer.tokens_of_scan_none (Token.scan_eq_none_iff.2 hb)
  | cons hb hbegins _ ih =>
    rw [Lexer.tokens_of_scan_some (Token.scan_of_begins hb hbegins), hbegins.legal.isError, ih]

theorem spelled_tokens (h : ∀ t ∈ (Lexer.mk fields text false).tokens, t.isError = false) :
    Spelled fields (Lexer.mk fields text false).tokens text := by
  -- Every token takes some text, so the rest of the text is shorter.
  induction hn : text.length using Nat.strongRecOn generalizing text with
  | ind n ih =>
    cases hs : Token.scan fields text with
    | none =>
      rw [Lexer.tokens_of_scan_none hs]
      exact .nil (Token.scan_eq_none_iff.1 hs)
    | some r =>
      obtain ⟨t, rest⟩ := r
      rw [Lexer.tokens_of_scan_some hs] at h ⊢
      have he : t.isError = false := h t List.mem_cons_self
      rw [he] at h ⊢
      obtain ⟨blanks, body, hb, rfl, hbegins⟩ := Token.begins_of_scan hs he
      have hlt : rest.length < n := hn ▸ Token.length_scan hs
      exact .cons hb hbegins (ih rest.length hlt (fun u hu => h u (List.mem_cons_of_mem _ hu)) rfl)

/-- Scanning a text gives tokens without an error exactly when the text spells
them. -/
theorem Lexer.tokens_eq_iff {text : String} (h : ∀ t ∈ ts, t.isError = false) :
    (Lexer.ofString fields text).tokens = ts ↔ Spelled fields ts text.toList := by
  constructor
  · intro ht
    subst ht
    exact spelled_tokens h
  · exact Spelled.tokens_eq

end FilterQuery
