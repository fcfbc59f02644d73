import FilterQuery.Record

/-!
# Texts in the order of their code points

A text found in a record is compared with a literal byte by byte. UTF-8 writes a
code point with digits in base 64, the first of them marked with the number of
the others, so that a longer encoding has the greater first byte
(`Text.Encoding`). Of two characters the one with the smaller code point
therefore has the smaller bytes, and none begins with the bytes of another
(`Text.Encoding.lt`). What holds of characters holds of texts
(`Text.Precedes.bytes_lt`), and `matches_string_iff_verdict` says what that makes
of a predicate: its comparator speaks of code points.
-/

namespace FilterQuery

/-- `s` comes before `t`: the first code point in which they differ is smaller
in `s`, or `s` ends where `t` goes on. -/
def Text.Precedes (s t : String) : Prop :=
  List.Lex (fun c d => c.toNat < d.toNat) s.toList t.toList

def Comparator.Verdict : Comparator → String → String → Prop
  | .eq, s, t => s = t
  | .ne, s, t => s ≠ t
  | .lt, s, t => Text.Precedes s t
  | .le, s, t => Text.Precedes s t ∨ s = t
  | .gt, s, t => Text.Precedes t s
  | .ge, s, t => Text.Precedes t s ∨ s = t

namespace Text

-- ---------------------------------------------------------------------------
-- The bytes of a character
-- ---------------------------------------------------------------------------

/-- A code point and the numbers of its bytes. No digit more is written than the
code point needs. -/
inductive Encoding (n : Nat) : List Nat → Prop
  | one : n < 0x80 → Encoding n [n]
  | two {a b : Nat} : n = 64 * a + b → 0x80 ≤ n → a < 32 → b < 64 →
      Encoding n [a + 0xc0, b + 0x80]
  | three {a b c : Nat} : n = 4096 * a + 64 * b + c → 0x800 ≤ n → a < 16 → b < 64 → c < 64 →
      Encoding n [a + 0xe0, b + 0x80, c + 0x80]
  | four {a b c d : Nat} : n = 262144 * a + 4096 * b + 64 * c + d → 0x10000 ≤ n → a < 8 →
      b < 64 → c < 64 → d < 64 → Encoding n [a + 0xf0, b + 0x80, c + 0x80, d + 0x80]

variable {c d : Char} {m n : Nat} {ms ns : List Nat} {x y : List UInt8} {s t u : String}

theorem exists_encoding (c : Char) :
    ∃ ns, Encoding c.toNat ns ∧ String.utf8EncodeChar c = ns.map UInt8.ofNat := by
  have hlt : c.toNat < 0x110000 := by
    rcases c.valid with h | h
    · exact Nat.lt_trans h (by decide)
    · exact h.2
  have hval : c.val.toNat = c.toNat := rfl
  simp only [String.utf8EncodeChar, hval]
  split
  · exact ⟨_, .one (by omega), rfl⟩
  · split
    · refine ⟨_, .two (a := c.toNat / 64 % 32) (b := c.toNat % 64) ?_ ?_ ?_ ?_, rfl⟩ <;> omega
    · split
      · refine ⟨_, .three (a := c.toNat / 4096 % 16) (b := c.toNat / 64 % 64) (c := c.toNat % 64)
          ?_ ?_ ?_ ?_ ?_, rfl⟩ <;> omega
      · refine ⟨_, .four (a := c.toNat / 262144 % 8) (b := c.toNat / 4096 % 64)
          (c := c.toNat / 64 % 64) (d := c.toNat % 64) ?_ ?_ ?_ ?_ ?_ ?_, rfl⟩ <;> omega

theorem byte_cons_lt_iff (hm : m < 256) (hn : n < 256) :
    UInt8.ofNat m :: x < UInt8.ofNat n :: y ↔ m < n ∨ m = n ∧ x < y := by
  rw [List.cons_lt_cons_iff, UInt8.lt_iff_toNat_lt, ← UInt8.toNat_inj,
    UInt8.toNat_ofNat_of_lt' hm, UInt8.toNat_ofNat_of_lt' hn]

/-- The bytes of the smaller code point are smaller, whatever follows them. -/
theorem Encoding.lt (hm : Encoding m ms) (hn : Encoding n ns) (h : m < n) :
    ms.map UInt8.ofNat ++ x < ns.map UInt8.ofNat ++ y := by
  -- Encodings of different lengths differ in the first byte, others in the first digit that does.
  cases hm <;> cases hn <;>
    simp (disch := omega) only [List.map_cons, List.cons_append, byte_cons_lt_iff] <;> omega

-- ---------------------------------------------------------------------------
-- Texts
-- ---------------------------------------------------------------------------

-- The order of strings in the core library is this one, so its laws are at hand.

theorem Precedes.trans (h : Precedes s t) (h' : Precedes t u) : Precedes s u :=
  String.lt_trans h h'

theorem Precedes.not_precedes (h : Precedes s t) : ¬Precedes t s :=
  String.lt_asymm h

theorem Precedes.ne (h : Precedes s t) : s ≠ t := by
  rintro rfl
  exact String.lt_irrefl s h

theorem precedes_trichotomy (s t : String) : Precedes s t ∨ s = t ∨ Precedes t s := by
  by_cases h : Precedes s t
  · exact .inl h
  · by_cases h' : Precedes t s
    · exact .inr (.inr h')
    · exact .inr (.inl (String.le_antisymm h' h))

theorem Precedes.bytes_lt (h : Precedes s t) : compareBytes.bytes s < compareBytes.bytes t := by
  unfold Precedes at h
  unfold compareBytes.bytes
  generalize s.toList = cs at h ⊢
  generalize t.toList = ds at h ⊢
  induction h with
  | @nil d ds =>
    obtain ⟨b, bs, hb⟩ := List.exists_cons_of_ne_nil (String.utf8EncodeChar_ne_nil (c := d))
    rw [List.flatMap_nil, List.flatMap_cons, hb]
    exact List.nil_lt_cons b _
  | @rel c cs d ds hlt =>
    obtain ⟨ms, hms, hc⟩ := exists_encoding c
    obtain ⟨ns, hns, hd⟩ := exists_encoding d
    rw [List.flatMap_cons, List.flatMap_cons, hc, hd]
    exact hms.lt hns hlt
  | cons _ ih =>
    rw [List.flatMap_cons, List.flatMap_cons]
    exact List.append_left_lt ih

theorem Precedes.compareBytes_eq_lt (h : Precedes s t) : compareBytes s t = .lt :=
  compareOfLessAndEq_eq_lt.2 h.bytes_lt

theorem compareBytes_self (s : String) : compareBytes s s = .eq := by
  simp [compareBytes, compareOfLessAndEq, List.lt_irrefl]

theorem Precedes.compareBytes_eq_gt (h : Precedes t s) : compareBytes s t = .gt := by
  have hlt := h.bytes_lt
  have hne : compareBytes.bytes s ≠ compareBytes.bytes t := by
    intro he
    rw [he] at hlt
    exact List.lt_irrefl _ hlt
  rw [compareBytes, compareOfLessAndEq, if_neg (List.lt_asymm hlt), if_neg hne]

theorem holds_compareBytes_iff (comparator : Comparator) (s t : String) :
    comparator.holds (compareBytes s t) = true ↔ comparator.Verdict s t := by
  rcases precedes_trichotomy s t with h | rfl | h
  · have hne := h.ne
    have hnot := h.not_precedes
    rw [h.compareBytes_eq_lt]
    cases comparator <;> simp [Comparator.holds, Comparator.Verdict, h, hne, hnot]
  · have hnot : ¬Precedes s s := fun h => h.ne rfl
    rw [compareBytes_self]
    cases comparator <;> simp [Comparator.holds, Comparator.Verdict, hnot]
  · have hne := h.ne.symm
    have hnot := h.not_precedes
    rw [h.compareBytes_eq_gt]
    cases comparator <;> simp [Comparator.holds, Comparator.Verdict, h, hne, hnot]

end Text

open Text (Precedes)

-- ---------------------------------------------------------------------------
-- Records
-- ---------------------------------------------------------------------------

theorem Predicate.matches_iff_verdict {record : Value} {field s : String}
    (h : record.find? field = some (.string s)) (comparator : Comparator) (value : String) :
    (Predicate.mk field comparator value).matches record = true ↔
      comparator.Verdict s value := by
  rw [Predicate.matches, h]
  exact Text.holds_compareBytes_iff comparator s value

/-- Where a record has a text in the field of a predicate, the predicate holds
exactly when its comparator does in the order of code points. That order is
strict and total, so a text that is smaller than a literal is smaller than every
greater literal, a text that is greater is greater than every smaller one, and no
text equals two literals. -/
theorem matches_string_iff_verdict {record : Value} {field s : String}
    (h : record.find? field = some (.string s)) :
    (∀ comparator value, (Predicate.mk field comparator value).matches record = true ↔
      comparator.Verdict s value) ∧
    (∀ a b, Precedes a b ∨ a = b ∨ Precedes b a) ∧
    (∀ a b, Precedes a b → a ≠ b ∧ ¬Precedes b a) ∧
    (∀ a b c, Precedes a b → Precedes b c → Precedes a c) ∧
    (∀ v w, Precedes v w ∨ v = w →
      ((Predicate.mk field .lt v).matches record = true →
        (Predicate.mk field .lt w).matches record = true) ∧
      ((Predicate.mk field .gt w).matches record = true →
        (Predicate.mk field .gt v).matches record = true)) ∧
    ∀ v w, (Predicate.mk field .eq v).matches record = true →
      (Predicate.mk field .eq w).matches record = true → v = w := by
  refine ⟨Predicate.matches_iff_verdict h, Text.precedes_trichotomy,
    fun a b hab => ⟨hab.ne, hab.not_precedes⟩, fun a b c hab hbc => hab.trans hbc, ?_, ?_⟩
  · simp only [Predicate.matches_iff_verdict h]
    rintro v w (hvw | rfl)
    · exact ⟨fun hlt => Precedes.trans hlt hvw, fun hgt => Precedes.trans hvw hgt⟩
    · exact ⟨id, id⟩
  · simp only [Predicate.matches_iff_verdict h]
    rintro v w rfl rfl
    rfl

/-- The last code point of two bytes or three comes before the next one, which
has a byte more. In UTF-16 the greater text of the second pair would be the
smaller one. -/
theorem matches_string_iff_verdict_planes :
    let record : Value := .object [("Name", .object [("First", .string "é\uffff")])]
    record.find? "Name.First" = some (.string "é\uffff") ∧
      (Predicate.mk "Name.First" .gt "é\u07ff!").matches record = true ∧
      (Predicate.mk "Name.First" .lt "é😀").matches record = true ∧
      (Predicate.mk "Name.First" .lt "é😀a").matches record = true := by
  intro record
  have hfind : record.find? "Name.First" = some (.string "é\uffff") := by rfl
  have hverdict := (matches_string_iff_verdict hfind).1
  have hlt : (Predicate.mk "Name.First" .lt "é😀").matches record = true :=
    (hverdict .lt _).2 (.cons (.rel (by decide)))
  refine ⟨hfind, (hverdict .gt _).2 (.cons (.rel (by decide))), hlt, ?_⟩
  have hgreater : Precedes "é😀" "é😀a" := .cons (.cons .nil)
  exact ((matches_string_iff_verdict hfind).2.2.2.2.1 _ _ (.inl hgreater)).1 hlt

end FilterQuery
