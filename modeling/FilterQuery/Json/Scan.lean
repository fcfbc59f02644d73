import FilterQuery.Text.Numeral

/-!
# Scanning JSON text

The scalars of JSON, taken off the front of a text. A text that ends too early
is `truncated` and one that is not JSON is `malformed`; whichever comes first
from the left is the fault that is reported. Every reader gives the text after
what it read, and what it read is never empty.
-/

namespace FilterQuery.Json

inductive Fault where
  | truncated
  | malformed
  /-- The text is JSON, but not of the wanted shape. -/
  | mismatched
  deriving BEq, DecidableEq, Repr

theorem bind_eq_ok {x : Except ε α} {f : α → Except ε β} {b : β} :
    x >>= f = .ok b ↔ ∃ a, x = .ok a ∧ f a = .ok b := by
  cases x <;> simp [bind, Except.bind]

def isSpace (c : Char) : Bool :=
  c = ' ' || c = '\n' || c = '\t' || c = '\r'

def skipSpace (text : List Char) : List Char :=
  text.dropWhile isSpace

theorem length_skipSpace (text : List Char) : (skipSpace text).length ≤ text.length :=
  (List.dropWhile_sublist isSpace).length_le

def keyword : List Char → List Char → Except Fault (List Char)
  | [], text => .ok text
  | _ :: _, [] => .error .truncated
  | k :: ks, c :: text => if c = k then keyword ks text else .error .malformed

theorem length_keyword {word text rest : List Char} (h : keyword word text = .ok rest) :
    rest.length ≤ text.length := by
  fun_induction keyword word text <;> grind

-- ---------------------------------------------------------------------------
-- Strings
-- ---------------------------------------------------------------------------

def hexDigit? (c : Char) : Option Nat :=
  if '0' ≤ c ∧ c ≤ '9' then some (c.toNat - '0'.toNat)
  else if 'a' ≤ c ∧ c ≤ 'f' then some (c.toNat - 'a'.toNat + 10)
  else if 'A' ≤ c ∧ c ≤ 'F' then some (c.toNat - 'A'.toNat + 10)
  else none

/-- Four hexadecimal digits. The text is too short if it has fewer than four
bytes left. -/
def hex4 (text : List Char) : Except Fault (Nat × List Char) :=
  if (String.ofList (text.take 4)).utf8ByteSize < 4 then .error .truncated
  else
    match text with
    | a :: b :: c :: d :: rest =>
      match hexDigit? a, hexDigit? b, hexDigit? c, hexDigit? d with
      | some a, some b, some c, some d => .ok (((a * 16 + b) * 16 + c) * 16 + d, rest)
      | _, _, _, _ => .error .malformed
    | _ => .error .malformed

theorem length_hex4 {text rest : List Char} {n : Nat} (h : hex4 text = .ok (n, rest)) :
    rest.length < text.length := by
  unfold hex4 at h
  grind

def unescape? : Char → Option Char
  | '"' => some '"'
  | '\\' => some '\\'
  | '/' => some '/'
  | 'b' => some '\x08'
  | 'f' => some '\x0c'
  | 'n' => some '\n'
  | 'r' => some '\r'
  | 't' => some '\t'
  | _ => none

/-- The code unit `n`, or the pair of surrogates it begins. -/
def codePoint (n : Nat) (text : List Char) : Except Fault (Char × List Char) :=
  if 0xdc00 ≤ n ∧ n ≤ 0xdfff then .error .malformed
  else if 0xd800 ≤ n ∧ n ≤ 0xdbff then do
    let rest ← keyword ['\\', 'u'] text
    let (m, rest) ← hex4 rest
    if 0xdc00 ≤ m ∧ m ≤ 0xdfff then
      .ok (Char.ofNat (0x10000 + (n - 0xd800) * 0x400 + (m - 0xdc00)), rest)
    else .error .malformed
  else .ok (Char.ofNat n, text)

theorem length_codePoint {n : Nat} {text rest : List Char} {c : Char}
    (h : codePoint n text = .ok (c, rest)) : rest.length ≤ text.length := by
  unfold codePoint at h
  split at h
  · simp at h
  · split at h
    · simp only [bind_eq_ok] at h
      obtain ⟨r, hk, ⟨m, r'⟩, hx, he⟩ := h
      have := length_keyword hk
      have := length_hex4 hx
      grind
    · grind

def escaped : List Char → Except Fault (Char × List Char)
  | [] => .error .truncated
  | 'u' :: text => do
    let (n, rest) ← hex4 text
    codePoint n rest
  | c :: text =>
    match unescape? c with
    | some d => .ok (d, text)
    | none => .error .malformed

theorem length_escaped {text rest : List Char} {c : Char} (h : escaped text = .ok (c, rest)) :
    rest.length < text.length := by
  unfold escaped at h
  split at h
  · simp at h
  · simp only [bind_eq_ok] at h
    obtain ⟨⟨n, r⟩, hx, hc⟩ := h
    have := length_hex4 hx
    have := length_codePoint hc
    grind
  · grind

/-- The characters of a string whose opening quote stands before the text. -/
def string (text : List Char) : Except Fault (List Char × List Char) :=
  match text with
  | [] => .error .truncated
  | '"' :: rest => .ok ([], rest)
  | '\\' :: rest =>
    match _h : escaped rest with
    | .error e => .error e
    | .ok (c, rest) => (string rest).map fun (cs, rest) => (c :: cs, rest)
  | c :: rest =>
    if c.toNat < 0x20 then .error .malformed
    else (string rest).map fun (cs, rest) => (c :: cs, rest)
termination_by text.length
decreasing_by
  · have := length_escaped ‹_›
    simp only [List.length_cons]
    omega
  · simp

theorem length_string {text cs rest : List Char} (h : string text = .ok (cs, rest)) :
    rest.length < text.length := by
  fun_induction string text generalizing cs rest with
  | case1 => simp at h
  | case2 => simp_all
  | case3 => simp at h
  | case4 r c r' he ih =>
    have := length_escaped he
    cases hs : string r' with
    | error e => simp [hs, Except.map] at h
    | ok p =>
      have := ih hs
      simp only [hs, Except.map, Except.ok.injEq, Prod.mk.injEq] at h
      grind
  | case5 => simp at h
  | case6 c r _ _ hc ih =>
    cases hs : string r with
    | error e => simp [hs, Except.map] at h
    | ok p =>
      have := ih hs
      simp only [hs, Except.map, Except.ok.injEq, Prod.mk.injEq] at h
      grind

-- ---------------------------------------------------------------------------
-- Numbers
-- ---------------------------------------------------------------------------

/-- The parts of a number; its sign is not kept. -/
structure Number where
  whole : List Char
  fraction : List Char := []
  exponent : Int := 0
  deriving BEq, DecidableEq, Repr

/-- One or more digits. `atEnd` is the fault of a text that ends instead. -/
def digits (atEnd : Fault) (text : List Char) : Except Fault (List Char × List Char) :=
  match text with
  | [] => .error atEnd
  | c :: rest =>
    if c.isDigit then .ok (c :: rest.takeWhile Char.isDigit, rest.dropWhile Char.isDigit)
    else .error .malformed

theorem length_digits {atEnd : Fault} {text ds rest : List Char}
    (h : digits atEnd text = .ok (ds, rest)) : rest.length < text.length := by
  unfold digits at h
  split at h
  · simp at h
  · rename_i c r
    have := (List.dropWhile_sublist Char.isDigit (l := r)).length_le
    grind

def fraction (atEnd : Fault) : List Char → Except Fault (List Char × List Char)
  | '.' :: text => digits atEnd text
  | text => .ok ([], text)

def exponent (atEnd : Fault) : List Char → Except Fault (Int × List Char)
  | 'e' :: text | 'E' :: text => do
    let (negative, text) := Text.sign text
    let (ds, rest) ← digits atEnd text
    .ok (Text.signed negative (Text.digitsValue ds), rest)
  | text => .ok (0, text)

/-- A number without its sign. No further digit may follow a leading zero. -/
def number (atEnd : Fault) (text : List Char) : Except Fault (Number × List Char) := do
  let (whole, rest) ← digits atEnd text
  if whole.head? = some '0' && 1 < whole.length then .error .malformed
  else
    let (fraction, rest) ← fraction atEnd rest
    let (exponent, rest) ← exponent atEnd rest
    .ok ({ whole, fraction, exponent }, rest)

theorem length_fraction {atEnd : Fault} {text ds rest : List Char}
    (h : fraction atEnd text = .ok (ds, rest)) : rest.length ≤ text.length := by
  unfold fraction at h
  split at h
  · have := length_digits h
    grind
  · grind

theorem length_exponent {atEnd : Fault} {text rest : List Char} {e : Int}
    (h : exponent atEnd text = .ok (e, rest)) : rest.length ≤ text.length := by
  unfold exponent at h
  split at h
  · simp only [bind_eq_ok] at h
    obtain ⟨⟨ds, r⟩, hd, h⟩ := h
    have := length_digits hd
    grind [Text.length_sign]
  · simp only [bind_eq_ok] at h
    obtain ⟨⟨ds, r⟩, hd, h⟩ := h
    have := length_digits hd
    grind [Text.length_sign]
  · grind

theorem length_number {atEnd : Fault} {text rest : List Char} {n : Number}
    (h : number atEnd text = .ok (n, rest)) : rest.length < text.length := by
  simp only [number, bind_eq_ok] at h
  obtain ⟨⟨w, r⟩, hd, h⟩ := h
  have := length_digits hd
  split at h
  · simp at h
  · simp only [bind_eq_ok] at h
    obtain ⟨⟨f, r'⟩, hf, ⟨e, r''⟩, he, h⟩ := h
    have := length_fraction hf
    have := length_exponent he
    grind

/-- As many leading digits as fit 64 bits, and the number of digits after
them. -/
def Number.leading (ds : List Char) : Nat × Nat :=
  ds.foldl
    (fun (n, dropped) d =>
      let m := n * 10 + (d.toNat - '0'.toNat)
      if dropped = 0 && m < UInt64.size then (m, 0) else (n, dropped + 1))
    (0, 0)

/-- Appends digits after the point as long as they fit 64 bits; the number
taken comes with the result. -/
def Number.extend (n : Nat) : List Char → Nat × Nat
  | [] => (n, 0)
  | d :: ds =>
    let m := n * 10 + (d.toNat - '0'.toNat)
    if m < UInt64.size then
      let (k, taken) := Number.extend m ds
      (k, taken + 1)
    else (n, 0)

/-- Whether a number lies beyond the largest double. Its leading digits are
rounded to a double before they are scaled. -/
def Number.overflows (n : Number) : Bool :=
  let (lead, dropped) := Number.leading n.whole
  let (mantissa, taken) := Number.extend lead n.fraction
  let power := n.exponent + dropped - taken
  mantissa ≠ 0 && (308 < power || 0 ≤ power &&
    (Text.Numeral.magnitude mantissa 0 * Text.Numeral.magnitude 1 power).isInf)

-- ---------------------------------------------------------------------------
-- Values of the wrong kind
-- ---------------------------------------------------------------------------

/-- The fault found where a value stands that is not of the wanted kind: a
scalar is read first, and any fault in it comes before the mismatch. -/
def mismatch (text : List Char) : Fault :=
  match text with
  | [] => .truncated
  | 'n' :: rest => orMismatched (keyword "ull".toList rest)
  | 't' :: rest => orMismatched (keyword "rue".toList rest)
  | 'f' :: rest => orMismatched (keyword "alse".toList rest)
  | '"' :: rest => orMismatched (string rest)
  | '[' :: _ | '\x7b' :: _ => .mismatched
  | '-' :: rest => numberFault rest
  | c :: rest => if c.isDigit then numberFault (c :: rest) else .malformed
where
  orMismatched {α : Type} : Except Fault α → Fault
    | .error e => e
    | .ok _ => .mismatched
  numberFault (text : List Char) : Fault :=
    match number .truncated text with
    | .error e => e
    | .ok (n, _) => if n.overflows then .malformed else .mismatched

end FilterQuery.Json
