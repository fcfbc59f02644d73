import FilterQuery.Json.Decode
import FilterQuery.Proofs.Json.Grammar
import FilterQuery.Proofs.Token.Spelling

/-!
# Scanning what the grammar writes

One lemma for each scanner of a scalar: what the grammar derives is taken off
the front of a text, whatever stands behind it. Only a number has to know what
comes next, since a digit there would belong to it.
-/

namespace FilterQuery.Json

open FilterQuery.Json.Grammar (Blank Hex4 Plain Written Chars Body hexDigits letters)

variable {c : Char} {n : Nat} {text rest space body cs ds w : List Char}

-- ---------------------------------------------------------------------------
-- Space
-- ---------------------------------------------------------------------------

theorem all_isSpace_of_blank (h : Blank space) : space.all isSpace = true := by
  have hall : [' ', '\t', '\n', '\r'].all isSpace = true := rfl
  exact List.all_eq_true.2 fun c hc => List.all_eq_true.1 hall c (h c hc)

theorem skipSpace_append (hs : Blank space) (hc : isSpace c = false) :
    skipSpace (space ++ c :: text) = c :: text :=
  Text.dropWhile_run (all_isSpace_of_blank hs) (Text.stops_cons.2 hc)

-- ---------------------------------------------------------------------------
-- Strings
-- ---------------------------------------------------------------------------

theorem hexDigit?_of_mem (h : (c, n) ∈ hexDigits) : hexDigit? c = some n := by
  have hall : ∀ p ∈ hexDigits, hexDigit? p.1 = some p.2 := by decide
  exact hall _ h

theorem four_le_utf8ByteSize (a b c d : Char) : 4 ≤ (String.ofList [a, b, c, d]).utf8ByteSize := by
  have hpush : String.ofList [a, b, c, d] = ((("".push a).push b).push c).push d := by
    rw [← String.toList_inj]
    simp
  have ha := a.utf8Size_pos
  have hb := b.utf8Size_pos
  have hc := c.utf8Size_pos
  have hd := d.utf8Size_pos
  simp only [hpush, String.utf8ByteSize_push]
  omega

theorem hex4_append (h : Hex4 n ds) : hex4 (ds ++ rest) = .ok (n, rest) := by
  cases h with
  | @mk a b c d i j k l ha hb hc hd =>
    have hsize := Nat.not_lt.2 (four_le_utf8ByteSize a b c d)
    simp only [hex4, List.cons_append, List.nil_append, List.take, hexDigit?_of_mem ha,
      hexDigit?_of_mem hb, hexDigit?_of_mem hc, hexDigit?_of_mem hd]
    rw [if_neg hsize]

theorem unescape?_of_mem {l : Char} (h : (l, c) ∈ letters) : unescape? l = some c ∧ l ≠ 'u' := by
  have hall : ∀ p ∈ letters, unescape? p.1 = some p.2 ∧ p.1 ≠ 'u' := by decide
  exact hall _ h

theorem escaped_letter {l : Char} (h : (l, c) ∈ letters) : escaped (l :: rest) = .ok (c, rest) := by
  obtain ⟨hl, hu⟩ := unescape?_of_mem h
  unfold escaped
  split
  · contradiction
  · rename_i heq
    cases heq
    contradiction
  · rename_i heq
    cases heq
    rw [hl]

theorem codePoint_unit (c : Char) (rest : List Char) : codePoint c.toNat rest = .ok (c, rest) := by
  have hvalid : c.toNat < 0xd800 ∨ 0xdfff < c.toNat ∧ c.toNat < 0x110000 := c.valid
  rw [codePoint, if_neg (by omega), if_neg (by omega), Char.ofNat_toNat]

theorem codePoint_pair (hc : 0x10000 ≤ c.toNat)
    (h : Hex4 (0xdc00 + (c.toNat - 0x10000) % 0x400) ds) :
    codePoint (0xd800 + (c.toNat - 0x10000) / 0x400) ('\\' :: 'u' :: (ds ++ rest)) =
      .ok (c, rest) := by
  have hvalid : c.toNat < 0xd800 ∨ 0xdfff < c.toNat ∧ c.toNat < 0x110000 := c.valid
  have hkeyword : keyword ['\\', 'u'] ('\\' :: 'u' :: (ds ++ rest)) = .ok (ds ++ rest) := by
    simp [keyword]
  rw [codePoint, if_neg (by omega), if_pos (by omega)]
  refine bind_eq_ok.2 ⟨_, hkeyword, bind_eq_ok.2 ⟨_, hex4_append h, ?_⟩⟩
  dsimp only
  rw [if_pos (by omega)]
  have hcode : 0x10000 + (0xd800 + (c.toNat - 0x10000) / 0x400 - 0xd800) * 0x400 +
      (0xdc00 + (c.toNat - 0x10000) % 0x400 - 0xdc00) = c.toNat := by omega
  rw [hcode, Char.ofNat_toNat]

theorem string_quote (rest : List Char) : string ('"' :: rest) = .ok ([], rest) := by
  rw [string]

theorem string_plain (h : Plain c) :
    string (c :: rest) = (string rest).map fun (cs, rest) => (c :: cs, rest) := by
  rw [string.eq_def]
  split
  · contradiction
  · rename_i heq
    exact absurd (List.cons.inj heq).1 h.not_quote
  · rename_i heq
    exact absurd (List.cons.inj heq).1 h.not_backslash
  · rename_i heq
    cases heq
    rw [if_neg (Nat.not_lt.2 h.not_control)]

theorem string_backslash (h : escaped text = .ok (c, rest)) :
    string ('\\' :: text) = (string rest).map fun (cs, rest) => (c :: cs, rest) := by
  rw [string]
  split
  · rename_i herror
    rw [h] at herror
    cases herror
  · rename_i hok
    rw [h] at hok
    cases hok
    rfl

theorem string_written (h : Written c w) :
    string (w ++ rest) = (string rest).map fun (cs, rest) => (c :: cs, rest) := by
  cases h with
  | plain hc => exact string_plain hc
  | letter hl => exact string_backslash (escaped_letter hl)
  | unit hd =>
    exact string_backslash (bind_eq_ok.2 ⟨_, hex4_append hd, codePoint_unit c rest⟩)
  | pair hc hd he =>
    rw [List.append_assoc]
    exact string_backslash (bind_eq_ok.2 ⟨_, hex4_append hd, codePoint_pair hc he⟩)

theorem string_append (h : Chars cs body) : string (body ++ '"' :: rest) = .ok (cs, rest) := by
  induction h with
  | nil => exact string_quote rest
  | cons hc _ ih =>
    rw [List.append_assoc, string_written hc, ih]
    rfl

-- ---------------------------------------------------------------------------
-- Skipped strings
-- ---------------------------------------------------------------------------

theorem skipString_quote (rest : List Char) : skipString ('"' :: rest) = .ok rest := by
  rw [skipString]

theorem skipString_plain (h : Plain c) : skipString (c :: rest) = skipString rest := by
  rw [skipString.eq_def]
  split
  · contradiction
  · rename_i heq
    exact absurd (List.cons.inj heq).1 h.not_quote
  · rename_i heq
    exact absurd (List.cons.inj heq).1 h.not_backslash
  · rename_i heq
    cases heq
    rw [if_neg (Nat.not_lt.2 h.not_control)]

theorem skipString_backslash (h : skipEscaped text = .ok rest) :
    skipString ('\\' :: text) = skipString rest := by
  rw [skipString]
  split
  · rename_i herror
    rw [h] at herror
    cases herror
  · rename_i hok
    rw [h] at hok
    cases hok
    rfl

theorem skipEscaped_letter {l : Char} (h : (l, c) ∈ letters) :
    skipEscaped (l :: rest) = .ok rest := by
  obtain ⟨hl, hu⟩ := unescape?_of_mem h
  unfold skipEscaped
  split
  · contradiction
  · rename_i heq
    cases heq
    contradiction
  · rename_i heq
    cases heq
    simp [hl]

theorem skipEscaped_unit (h : Hex4 n ds) : skipEscaped ('u' :: (ds ++ rest)) = .ok rest := by
  rw [skipEscaped, hex4_append h]
  rfl

-- Half of a surrogate pair writes no character, but it may be skipped.
example : escaped "ud800\"".toList = .error .malformed ∧
    skipEscaped "ud800\"".toList = .ok ['"'] :=
  ⟨rfl, rfl⟩

theorem skipString_append (h : Body body) : skipString (body ++ '"' :: rest) = .ok rest := by
  induction h with
  | nil => exact skipString_quote rest
  | plain hc _ ih => rw [List.cons_append, skipString_plain hc, ih]
  | letter hl _ ih =>
    rw [List.cons_append, List.cons_append, skipString_backslash (skipEscaped_letter hl), ih]
  | unit hd _ ih =>
    rw [List.append_assoc, List.cons_append, List.cons_append,
      skipString_backslash (skipEscaped_unit hd), ih]

-- ---------------------------------------------------------------------------
-- Numbers
-- ---------------------------------------------------------------------------

def continuesNumber (c : Char) : Bool :=
  c.isDigit || c = '.' || c = 'e' || c = 'E'

theorem digits_append (atEnd : Fault) (h : Grammar.Digits ds) (hr : Text.Stops Char.isDigit rest) :
    digits atEnd (ds ++ rest) = .ok (ds, rest) := by
  obtain ⟨hne, hall⟩ := h
  obtain ⟨d, ds, rfl⟩ := List.exists_cons_of_ne_nil hne
  rw [List.all_cons, Bool.and_eq_true] at hall
  rw [List.cons_append, digits, if_pos hall.1, Text.takeWhile_run hall.2 hr,
    Text.dropWhile_run hall.2 hr]

theorem fraction_append (atEnd : Fault) (h : Grammar.Fraction w)
    (hr : Text.Stops (fun c => c.isDigit || c = '.') rest) :
    ∃ ds, fraction atEnd (w ++ rest) = .ok (ds, rest) := by
  cases h with
  | none =>
    have hdot : ∀ text, rest = '.' :: text → False := by
      rintro text rfl
      simp at hr
    exact ⟨[], fraction.eq_2 atEnd rest hdot⟩
  | @some ds hd =>
    exact ⟨ds, digits_append atEnd hd fun c hc => (Bool.or_eq_false_iff.1 (hr c hc)).1⟩

theorem sign_append {sign : List Char} (hs : sign ∈ [[], ['+'], ['-']]) (hd : Grammar.Digits ds) :
    (Text.sign (sign ++ (ds ++ rest))).2 = ds ++ rest := by
  simp only [List.mem_cons, List.not_mem_nil, or_false] at hs
  rcases hs with rfl | rfl | rfl
  · obtain ⟨hne, hall⟩ := hd
    obtain ⟨d, ds, rfl⟩ := List.exists_cons_of_ne_nil hne
    rw [List.all_cons, Bool.and_eq_true] at hall
    have hsign : ∀ c ∈ ['-', '+'], ∀ text, d :: (ds ++ rest) = c :: text → False := by
      rintro c hc text heq
      obtain ⟨rfl, -⟩ := List.cons.inj heq
      simp only [List.mem_cons, List.not_mem_nil, or_false] at hc
      rcases hc with rfl | rfl
      · exact absurd hall.1 (by decide)
      · exact absurd hall.1 (by decide)
    rw [List.nil_append, List.cons_append,
      Text.sign.eq_3 _ (hsign '-' (by simp)) (hsign '+' (by simp))]
  · rfl
  · rfl

theorem exponent_append (atEnd : Fault) (h : Grammar.Exponent w)
    (hr : Text.Stops continuesNumber rest) :
    ∃ e, exponent atEnd (w ++ rest) = .ok (e, rest) := by
  cases h with
  | none =>
    have hletter : ∀ c ∈ ['e', 'E'], ∀ text, rest = c :: text → False := by
      rintro c hc text rfl
      rw [Text.stops_cons] at hr
      simp only [List.mem_cons, List.not_mem_nil, or_false] at hc
      rcases hc with rfl | rfl
      · exact absurd hr (by decide)
      · exact absurd hr (by decide)
    exact ⟨0, exponent.eq_3 atEnd rest (hletter 'e' (by simp)) (hletter 'E' (by simp))⟩
  | @some e sign ds he hs hd =>
    have hdigits : digits atEnd (Text.sign (sign ++ (ds ++ rest))).2 = .ok (ds, rest) := by
      rw [sign_append hs hd]
      exact digits_append atEnd hd (hr.imp fun c hc => by simp [continuesNumber, hc])
    simp only [List.mem_cons, List.not_mem_nil, or_false] at he
    rw [List.append_assoc, List.cons_append]
    rcases he with rfl | rfl
    · exact ⟨_, bind_eq_ok.2 ⟨_, hdigits, rfl⟩⟩
    · exact ⟨_, bind_eq_ok.2 ⟨_, hdigits, rfl⟩⟩

theorem Grammar.Whole.digits (h : Grammar.Whole w) :
    Grammar.Digits w ∧ (w.head? = some '0' && decide (1 < w.length)) = false := by
  cases h with
  | zero => exact ⟨⟨by simp, by decide⟩, by decide⟩
  | positive hd hds => exact ⟨hds, by simp [hd]⟩

theorem number_append (atEnd : Fault) {f x : List Char} (hw : Grammar.Whole w)
    (hf : Grammar.Fraction f) (hx : Grammar.Exponent x) (hr : Text.Stops continuesNumber rest) :
    ∃ n, number atEnd (w ++ (f ++ (x ++ rest))) = .ok (n, rest) := by
  have hexponent : Text.Stops (fun c => c.isDigit || c = '.') (x ++ rest) := by
    cases hx with
    | none =>
      refine hr.imp fun c hc => ?_
      simp only [Bool.or_eq_true] at hc
      simp only [continuesNumber, Bool.or_eq_true]
      exact .inl (.inl hc)
    | @some e sign ds he =>
      simp only [List.mem_cons, List.not_mem_nil, or_false] at he
      rcases he with rfl | rfl
      · exact Text.stops_cons.2 rfl
      · exact Text.stops_cons.2 rfl
  have hfraction : Text.Stops Char.isDigit (f ++ (x ++ rest)) := by
    cases hf with
    | none => exact hexponent.imp fun c hc => by simp [hc]
    | some => exact Text.stops_cons.2 rfl
  obtain ⟨hdigits, hzero⟩ := hw.digits
  obtain ⟨ds, hds⟩ := fraction_append atEnd hf hexponent
  obtain ⟨e, he⟩ := exponent_append atEnd hx hr
  refine ⟨⟨w, ds, e⟩, bind_eq_ok.2 ⟨_, digits_append atEnd hdigits hfraction, ?_⟩⟩
  dsimp only
  rw [if_neg (by simp [hzero])]
  exact bind_eq_ok.2 ⟨_, hds, bind_eq_ok.2 ⟨_, he, rfl⟩⟩

end FilterQuery.Json
