import FilterQuery.Proofs.Json.Scanning

/-!
# Reading what the grammar writes

`skip_append` says that skipping takes any value off the front of a text,
however deep it is nested. Skipping has no recursion to follow the grammar with,
only the list of open brackets, so what is shown of a value is what skipping does
behind it (`leave`), for any brackets around it. The decoding readers take off
arrays of strings and names out of a choice.
-/

namespace FilterQuery.Json

open FilterQuery.Json.Grammar (Blank Chars Quoted Body Lead Slot Separated Padded Strings)

variable {c d : Char} {b : Bracket} {bs : List Bracket} {s : String}
  {text rest space v q lead : List Char}

-- ---------------------------------------------------------------------------
-- Scalars and openings
-- ---------------------------------------------------------------------------

theorem ne_of_isDigit (hc : c.isDigit = true) (hd : d.isDigit = false) : c ≠ d := by
  rintro rfl
  exact absurd (hc.symm.trans hd) (by simp)

theorem isSpace_of_isDigit (hc : c.isDigit = true) : isSpace c = false := by
  simp [isSpace, ne_of_isDigit hc]

theorem opening_append (hs : Blank space) (text : List Char) :
    opening (space ++ text) = opening text := by
  have hskip : skipSpace (space ++ text) = skipSpace text :=
    List.dropWhile_append_of_pos fun c hc =>
      List.all_eq_true.1 (all_isSpace_of_blank hs) c hc
  rw [opening, hskip, ← opening]

theorem opening_null : opening ("null".toList ++ rest) = .ok (none, rest) := rfl
theorem opening_true : opening ("true".toList ++ rest) = .ok (none, rest) := rfl
theorem opening_false : opening ("false".toList ++ rest) = .ok (none, rest) := rfl

theorem opening_opener (b : Bracket) (rest : List Char) :
    opening (Grammar.opener b :: rest) = .ok (some b, rest) := by
  cases b with
  | array => rfl
  | object => rfl

theorem opening_string {body : List Char} (h : Body body) :
    opening ('"' :: (body ++ '"' :: rest)) = .ok (none, rest) := by
  have hopen : opening ('"' :: (body ++ '"' :: rest)) =
      (skipString (body ++ '"' :: rest)).map (none, ·) := rfl
  rw [hopen, skipString_append h]
  rfl

theorem opening_digit (h : c.isDigit = true) :
    opening (c :: rest) = (number .malformed (c :: rest)).map fun (_, rest) => (none, rest) := by
  have hskip : skipSpace (c :: rest) = c :: rest := by
    simp [skipSpace, isSpace_of_isDigit h]
  rw [opening, hskip]
  split
  case h_1 heq => cases heq
  case h_9 heq =>
    cases heq
    rw [if_pos h]
  -- Each other case is about a character that is no digit.
  all_goals
    rename_i heq
    exact absurd (List.cons.inj heq).1 (ne_of_isDigit h rfl)

theorem opening_minus (rest : List Char) :
    opening ('-' :: rest) = (number .malformed rest).map fun (_, rest) => (none, rest) := rfl

theorem Grammar.Whole.exists_cons (h : Grammar.Whole v) :
    ∃ c text, v = c :: text ∧ c.isDigit = true := by
  obtain ⟨⟨hne, hall⟩, -⟩ := h.digits
  obtain ⟨c, text, rfl⟩ := List.exists_cons_of_ne_nil hne
  rw [List.all_cons, Bool.and_eq_true] at hall
  exact ⟨c, text, rfl, hall.1⟩

theorem opening_number (h : Grammar.Number v) (hr : Text.Stops continuesNumber rest) :
    opening (v ++ rest) = .ok (none, rest) := by
  cases h with
  | @mk sign whole fraction exponent hs hw hf hx =>
    obtain ⟨n, hn⟩ := number_append .malformed hw hf hx hr
    simp only [List.mem_cons, List.not_mem_nil, or_false] at hs
    simp only [List.append_assoc]
    rcases hs with rfl | rfl
    · obtain ⟨c, text, rfl, hc⟩ := hw.exists_cons
      rw [List.nil_append, List.cons_append, opening_digit hc, ← List.cons_append, hn]
      rfl
    · rw [List.cons_append, List.nil_append, opening_minus, hn]
      rfl

-- ---------------------------------------------------------------------------
-- Brackets
-- ---------------------------------------------------------------------------

theorem colon_append (hs : Blank space) : colon (space ++ ':' :: rest) = .ok rest := by
  rw [colon, skipSpace_append hs rfl]
  rfl

theorem Grammar.Lead.enter (h : Lead b lead) : b.enter (lead ++ rest) = .ok rest := by
  cases h with
  | array => rfl
  | @object before body after hb hbody ha =>
    simp only [List.append_assoc, List.cons_append, List.nil_append]
    rw [Bracket.enter, skipSpace_append hb rfl]
    exact bind_eq_ok.2 ⟨_, skipString_append hbody, colon_append ha⟩

@[simp] theorem isSpace_close (b : Bracket) : isSpace b.close = false := by
  cases b <;> rfl

@[simp] theorem continuesNumber_close (b : Bracket) : continuesNumber b.close = false := by
  cases b <;> rfl

theorem stops_append (hs : Blank space) (hc : continuesNumber c = false) :
    Text.Stops continuesNumber (space ++ c :: rest) := by
  cases space with
  | nil => exact Text.stops_cons.2 hc
  | cons d space =>
    have hall : [' ', '\t', '\n', '\r'].all (!continuesNumber ·) = true := rfl
    have hd := List.all_eq_true.1 hall d (hs d List.mem_cons_self)
    exact Text.stops_cons.2 (Bool.not_eq_true' _ ▸ hd)

def startsValue (c : Char) : Bool :=
  !isSpace c && c ≠ ']' && c ≠ '\x7d'

theorem startsValue_of_isDigit (hc : c.isDigit = true) : startsValue c = true := by
  simp [startsValue, isSpace_of_isDigit hc, ne_of_isDigit hc]

theorem Grammar.Number.exists_cons (h : Grammar.Number v) :
    ∃ c text, v = c :: text ∧ startsValue c = Bool.true := by
  cases h with
  | mk hs hw =>
    simp only [List.mem_cons, List.not_mem_nil, or_false] at hs
    rcases hs with rfl | rfl
    · obtain ⟨c, text, rfl, hc⟩ := hw.exists_cons
      exact ⟨c, _, rfl, startsValue_of_isDigit hc⟩
    · exact ⟨'-', _, rfl, rfl⟩

theorem Grammar.Value.exists_cons (h : Grammar.Value v) :
    ∃ c text, v = c :: text ∧ startsValue c = Bool.true := by
  cases h with
  | null => exact ⟨'n', _, rfl, rfl⟩
  | true => exact ⟨'t', _, rfl, rfl⟩
  | false => exact ⟨'f', _, rfl, rfl⟩
  | number h => exact h.exists_cons
  | string h => exact ⟨'"', _, rfl, rfl⟩
  | @empty b _ _ => exact ⟨opener b, _, rfl, by cases b <;> rfl⟩
  | @filled b _ _ _ _ => exact ⟨opener b, _, rfl, by cases b <;> rfl⟩

/-- A slot does not begin with what closes its bracket, so a bracket with slots
is not taken for an empty one. -/
theorem Grammar.Slot.Fits.exists_cons {slot : Slot} (h : slot.Fits b)
    (hv : Grammar.Value slot.value) (rest : List Char) :
    ∃ c after, skipSpace (slot.text ++ rest) = c :: after ∧ c ≠ b.close := by
  obtain ⟨lead, before, value, after⟩ := slot
  have hlead : Lead b lead := h.lead
  simp only [Slot.text, List.append_assoc]
  cases hlead with
  | array =>
    obtain ⟨c, text, rfl, hc⟩ := hv.exists_cons
    simp only [startsValue, Bool.and_eq_true, Bool.not_eq_true', decide_eq_true_eq] at hc
    exact ⟨c, _, skipSpace_append h.before hc.1.1, hc.1.2⟩
  | object hb =>
    simp only [List.append_assoc, List.cons_append]
    exact ⟨'"', _, skipSpace_append hb rfl, by decide⟩

-- ---------------------------------------------------------------------------
-- Skipped values
-- ---------------------------------------------------------------------------

def goOn : List Bracket × List Char → Except Fault (List Char)
  | ([], text) => .ok text
  | (b :: bs, text) => skipWithin (b :: bs) text

theorem skipWithin_eq (bs : List Bracket) (text : List Char) :
    skipWithin bs text = skipStep bs text >>= goOn := by
  rw [skipWithin]
  split
  · rename_i herror
    rw [herror]
    rfl
  · rename_i hok
    rw [hok]
    rfl
  · rename_i hok
    rw [hok]
    rfl

def leave (bs : List Bracket) (text : List Char) : Except Fault (List Char) :=
  resume bs text >>= goOn

theorem leave_nil (text : List Char) : leave [] text = .ok text := rfl

theorem leave_close (hs : Blank space) :
    leave (b :: bs) (space ++ b.close :: rest) = leave bs rest := by
  rw [leave, resume, skipSpace_append hs (isSpace_close b)]
  simp only [↓reduceIte]
  rfl

theorem leave_comma (hs : Blank space) (he : b.enter text = .ok rest) :
    leave (b :: bs) (space ++ ',' :: text) = skipWithin (b :: bs) rest := by
  have hclose : ',' ≠ b.close := by cases b <;> decide
  rw [leave, resume, skipSpace_append hs rfl]
  simp only [hclose, ↓reduceIte, he]
  rfl

theorem skipWithin_scalar (h : opening text = .ok (none, rest)) :
    skipWithin bs text = leave bs rest := by
  rw [skipWithin_eq, skipStep, h]
  rfl

theorem skipWithin_empty (hs : Blank space)
    (h : opening text = .ok (some b, space ++ b.close :: rest)) :
    skipWithin bs text = leave bs rest := by
  rw [skipWithin_eq, skipStep, h]
  simp only [bind, Except.bind, skipSpace_append hs (isSpace_close b), ↓reduceIte]
  rfl

theorem skipWithin_enter {inner after : List Char} (h : opening text = .ok (some b, inner))
    (hs : skipSpace inner = c :: after) (hc : c ≠ b.close) (he : b.enter inner = .ok rest) :
    skipWithin bs text = skipWithin (b :: bs) rest := by
  rw [skipWithin_eq, skipStep, h]
  simp only [bind, Except.bind, hs, hc, ↓reduceIte, he]
  rfl

theorem skipWithin_append (hs : Blank space) (text : List Char) :
    skipWithin bs (space ++ text) = skipWithin bs text := by
  rw [skipWithin_eq, skipStep, opening_append hs, ← skipStep, ← skipWithin_eq]

/-- Skipping takes `v` for a value, whatever comes after it. -/
def Skips (v : List Char) : Prop :=
  ∀ (bs : List Bracket) (rest : List Char), Text.Stops continuesNumber rest →
    skipWithin bs (v ++ rest) = leave bs rest

theorem skipWithin_slots {first : Slot} {more : List Slot} (hfits : ∀ s ∈ first :: more, s.Fits b)
    (hskips : ∀ s ∈ first :: more, Skips s.value) :
    skipWithin (b :: bs) (first.before ++ (first.value ++ (first.after ++
      ((more.flatMap fun s => ',' :: s.text) ++ b.close :: rest)))) = leave bs rest := by
  induction more generalizing first with
  | nil =>
    have hfirst := hfits first List.mem_cons_self
    simp only [List.flatMap_nil, List.nil_append]
    rw [skipWithin_append hfirst.before,
      hskips first List.mem_cons_self _ _ (stops_append hfirst.after (continuesNumber_close b)),
      leave_close hfirst.after]
  | cons next more ih =>
    have hfirst := hfits first List.mem_cons_self
    have hnext := hfits next (by simp)
    simp only [List.flatMap_cons, List.cons_append, List.append_assoc, Slot.text]
    rw [skipWithin_append hfirst.before,
      hskips first List.mem_cons_self _ _ (stops_append hfirst.after rfl),
      leave_comma hfirst.after hnext.lead.enter]
    exact ih (fun s hs => hfits s (List.mem_cons_of_mem _ hs))
      fun s hs => hskips s (List.mem_cons_of_mem _ hs)

theorem skips_filled {first : Slot} {more : List Slot} (hfits : ∀ s ∈ first :: more, s.Fits b)
    (hvalue : Grammar.Value first.value) (hskips : ∀ s ∈ first :: more, Skips s.value) :
    Skips (Grammar.opener b :: (first.text ++ more.flatMap fun s => ',' :: s.text) ++
      [b.close]) := by
  intro bs rest _
  have hfirst := hfits first List.mem_cons_self
  obtain ⟨c, after, hafter, hc⟩ := hfirst.exists_cons hvalue
    ((more.flatMap fun s => ',' :: s.text) ++ b.close :: rest)
  simp only [List.cons_append, List.append_assoc, List.nil_append]
  rw [← List.append_assoc first.text] at hafter ⊢
  refine (skipWithin_enter (opening_opener b _) hafter hc ?_).trans
    (skipWithin_slots hfits hskips)
  simp only [List.append_assoc, Slot.text]
  exact hfirst.lead.enter

theorem skips_of_value (h : Grammar.Value v) : Skips v := by
  induction h with
  | null => exact fun _ _ _ => skipWithin_scalar opening_null
  | true => exact fun _ _ _ => skipWithin_scalar opening_true
  | false => exact fun _ _ _ => skipWithin_scalar opening_false
  | number h => exact fun _ _ hr => skipWithin_scalar (opening_number h hr)
  | string h =>
    intro bs rest _
    simp only [List.cons_append, List.append_assoc, List.nil_append]
    exact skipWithin_scalar (opening_string h)
  | @empty b space hs =>
    intro bs rest _
    simp only [List.cons_append, List.append_assoc, List.nil_append]
    exact skipWithin_empty hs (opening_opener b _)
  | filled hfits hvalues ih => exact skips_filled hfits (hvalues _ List.mem_cons_self) ih

theorem skip_append (hs : Blank space) (hv : Grammar.Value v)
    (hr : Text.Stops continuesNumber rest) : skip (space ++ (v ++ rest)) = .ok rest := by
  rw [skip, skipWithin_append hs, skips_of_value hv [] rest hr, leave_nil]

-- ---------------------------------------------------------------------------
-- Decoded values
-- ---------------------------------------------------------------------------

theorem quoted_append (h : Quoted s q) (rest : List Char) :
    ∃ text, q ++ rest = '"' :: text ∧ string text = .ok (s.toList, rest) := by
  cases h with
  | @mk body hbody =>
    refine ⟨body ++ '"' :: rest, ?_, string_append hbody⟩
    simp only [List.cons_append, List.append_assoc, List.nil_append]

theorem stringValue_quote (h : string text = .ok (s.toList, rest)) :
    stringValue ('"' :: text) = .ok (s, rest) := by
  refine bind_eq_ok.2 ⟨_, h, ?_⟩
  simp only [String.ofList_toList]

theorem choice_append {ofName? : String → Option α} {a : α} (hs : Blank space) (h : Quoted s q)
    (ha : ofName? s = some a) : choice ofName? (space ++ (q ++ rest)) = .ok (a, rest) := by
  obtain ⟨text, htext, hread⟩ := quoted_append h rest
  rw [htext, choice, skipSpace_append hs rfl]
  refine bind_eq_ok.2 ⟨_, hread, bind_eq_ok.2 ⟨a, ?_, rfl⟩⟩
  rw [String.ofList_toList, choice.chosen, ha]

/-- What separates an item of a bracket from what stands before it: nothing if
it is the first. -/
inductive Comma : Bool → List Char → Prop
  | first : Comma true []
  | later {space : List Char} : Blank space → Comma false (space ++ [','])

theorem arrayTurn_close {first : Bool} (hs : Blank space) :
    arrayTurn first (space ++ ']' :: rest) = .ok (.ends rest) := by
  rw [arrayTurn, skipSpace_append hs rfl]
  rfl

theorem objectTurn_close {first : Bool} (hs : Blank space) :
    objectTurn first (space ++ '\x7d' :: rest) = .ok (.ends rest) := by
  rw [objectTurn, skipSpace_append hs rfl]
  rfl

theorem arrayTurn_quote {first : Bool} (hl : Comma first lead) (hs : Blank space) :
    arrayTurn first (lead ++ (space ++ '"' :: rest)) = .ok (.goesOn ('"' :: rest)) := by
  have hquote : skipSpace (space ++ '"' :: rest) = '"' :: rest := skipSpace_append hs rfl
  cases hl with
  | first => simp [arrayTurn, hquote]
  | later hl =>
    rw [List.append_assoc, List.singleton_append, arrayTurn, skipSpace_append hl rfl]
    simp [hquote]

theorem objectTurn_quote {first : Bool} (hl : Comma first lead) (hs : Blank space) :
    objectTurn first (lead ++ (space ++ '"' :: rest)) = .ok (.goesOn rest) := by
  have hquote : skipSpace (space ++ '"' :: rest) = '"' :: rest := skipSpace_append hs rfl
  cases hl with
  | first => simp [objectTurn, hquote]
  | later hl =>
    rw [List.append_assoc, List.singleton_append, objectTurn, skipSpace_append hl rfl]
    simp [hquote]

theorem nextString_close {first : Bool} (hs : Blank space) :
    nextString first (space ++ ']' :: rest) = .ok (none, rest) := by
  rw [nextString, arrayTurn_close hs]
  rfl

theorem nextString_append {first : Bool} (hl : Comma first lead) (hs : Blank space)
    (h : Quoted s q) : nextString first (lead ++ (space ++ (q ++ rest))) = .ok (some s, rest) := by
  obtain ⟨text, htext, hread⟩ := quoted_append h rest
  rw [htext]
  exact bind_eq_ok.2 ⟨_, arrayTurn_quote hl hs, bind_eq_ok.2 ⟨_, stringValue_quote hread, rfl⟩⟩

theorem strings_of_none {first : Bool} (h : nextString first text = .ok (none, rest)) :
    strings first text = .ok ([], rest) := by
  rw [strings]
  split
  all_goals
    rename_i heq
    rw [h] at heq
    cases heq
  rfl

theorem strings_of_some {first : Bool} (h : nextString first text = .ok (some s, rest)) :
    strings first text = (strings false rest).map fun (ss, rest) => (s :: ss, rest) := by
  rw [strings]
  split
  all_goals
    rename_i heq
    rw [h] at heq
    cases heq
  rfl

theorem strings_append {first : Bool} {names : List String} {body : List Char}
    (hl : Comma first lead) (h : Separated (Padded Quoted) names body) :
    strings first (lead ++ (body ++ ']' :: rest)) = .ok (names, rest) := by
  induction h generalizing first lead with
  | last hitem =>
    cases hitem with
    | mk hb hq ha =>
      simp only [List.append_assoc]
      rw [strings_of_some (nextString_append hl hb hq), strings_of_none (nextString_close ha)]
      rfl
  | @more _ _ _ body hitem _ ih =>
    cases hitem with
    | mk hb hq ha =>
      have hrest := ih (.later ha)
      simp only [List.append_assoc, List.singleton_append] at hrest
      simp only [List.append_assoc, List.cons_append]
      rw [strings_of_some (nextString_append hl hb hq), hrest]
      rfl

theorem stringArray_append {names : List String} (hs : Blank space) (h : Strings names v) :
    stringArray (space ++ (v ++ rest)) = .ok (names, rest) := by
  cases h with
  | empty hspace =>
    simp only [List.cons_append, List.append_assoc, List.nil_append]
    rw [stringArray, skipSpace_append hs rfl]
    exact strings_of_none (nextString_close hspace)
  | filled hbody =>
    simp only [List.cons_append, List.append_assoc, List.nil_append]
    rw [stringArray, skipSpace_append hs rfl]
    exact strings_append .first hbody

end FilterQuery.Json
