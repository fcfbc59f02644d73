import FilterQuery.Json.Skip

/-!
# The grammar of JSON

Strict JSON as relations on texts, beside the readers. `Quoted s text` says that
the text writes the string `s`: each character stands for itself or is escaped,
with a letter or by its one or two UTF-16 code units. `Value text` says only
that the text is a value. A string that nobody asks for may hold any code units
there, also surrogates that do not pair up and so write no character.
-/

namespace FilterQuery.Json.Grammar

def Blank (text : List Char) : Prop :=
  ∀ c ∈ text, c ∈ [' ', '\t', '\n', '\r']

-- ---------------------------------------------------------------------------
-- Strings
-- ---------------------------------------------------------------------------

def hexDigits : List (Char × Nat) :=
  "0123456789abcdef".toList.zipIdx ++ "0123456789ABCDEF".toList.zipIdx

inductive Hex4 : Nat → List Char → Prop
  | mk {a b c d : Char} {i j k l : Nat} : (a, i) ∈ hexDigits → (b, j) ∈ hexDigits →
      (c, k) ∈ hexDigits → (d, l) ∈ hexDigits →
      Hex4 (((i * 16 + j) * 16 + k) * 16 + l) [a, b, c, d]

def letters : List (Char × Char) :=
  [('"', '"'), ('\\', '\\'), ('/', '/'), ('b', '\x08'), ('f', '\x0c'), ('n', '\n'), ('r', '\r'),
    ('t', '\t')]

structure Plain (c : Char) : Prop where
  not_control : 0x20 ≤ c.toNat
  not_quote : c ≠ '"'
  not_backslash : c ≠ '\\'

inductive Written : Char → List Char → Prop
  | plain {c : Char} : Plain c → Written c [c]
  | letter {l c : Char} : (l, c) ∈ letters → Written c ['\\', l]
  | unit {c : Char} {ds : List Char} : Hex4 c.toNat ds → Written c ('\\' :: 'u' :: ds)
  /-- A character beyond the first plane is a pair of surrogates. -/
  | pair {c : Char} {ds es : List Char} : 0x10000 ≤ c.toNat →
      Hex4 (0xd800 + (c.toNat - 0x10000) / 0x400) ds →
      Hex4 (0xdc00 + (c.toNat - 0x10000) % 0x400) es →
      Written c ('\\' :: 'u' :: ds ++ '\\' :: 'u' :: es)

inductive Chars : List Char → List Char → Prop
  | nil : Chars [] []
  | cons {c : Char} {cs w body : List Char} : Written c w → Chars cs body →
      Chars (c :: cs) (w ++ body)

inductive Quoted : String → List Char → Prop
  | mk {s : String} {body : List Char} : Chars s.toList body → Quoted s ('"' :: body ++ ['"'])

/-- What stands between two quotes, whether or not it writes characters. -/
inductive Body : List Char → Prop
  | nil : Body []
  | plain {c : Char} {body : List Char} : Plain c → Body body → Body (c :: body)
  | letter {l c : Char} {body : List Char} : (l, c) ∈ letters → Body body →
      Body ('\\' :: l :: body)
  | unit {n : Nat} {ds body : List Char} : Hex4 n ds → Body body →
      Body ('\\' :: 'u' :: ds ++ body)

-- ---------------------------------------------------------------------------
-- Numbers
-- ---------------------------------------------------------------------------

def Digits (text : List Char) : Prop :=
  text ≠ [] ∧ text.all Char.isDigit = true

/-- Zero, or digits of which the first is not zero. -/
inductive Whole : List Char → Prop
  | zero : Whole ['0']
  | positive {d : Char} {ds : List Char} : d ≠ '0' → Digits (d :: ds) → Whole (d :: ds)

inductive Fraction : List Char → Prop
  | none : Fraction []
  | some {ds : List Char} : Digits ds → Fraction ('.' :: ds)

inductive Exponent : List Char → Prop
  | none : Exponent []
  | some {e : Char} {sign ds : List Char} : e ∈ ['e', 'E'] → sign ∈ [[], ['+'], ['-']] →
      Digits ds → Exponent (e :: sign ++ ds)

inductive Number : List Char → Prop
  | mk {sign whole fraction exponent : List Char} : sign ∈ [[], ['-']] → Whole whole →
      Fraction fraction → Exponent exponent → Number (sign ++ (whole ++ (fraction ++ exponent)))

-- ---------------------------------------------------------------------------
-- Values
-- ---------------------------------------------------------------------------

def opener : Bracket → Char
  | .array => '['
  | .object => '\x7b'

/-- What comes before a value inside a bracket: nothing in an array, a key and a
colon in an object. -/
inductive Lead : Bracket → List Char → Prop
  | array : Lead .array []
  | object {before body after : List Char} : Blank before → Body body → Blank after →
      Lead .object (before ++ '"' :: body ++ '"' :: after ++ [':'])

structure Slot where
  lead : List Char
  before : List Char
  value : List Char
  after : List Char

def Slot.text (s : Slot) : List Char :=
  s.lead ++ (s.before ++ (s.value ++ s.after))

structure Slot.Fits (b : Bracket) (s : Slot) : Prop where
  lead : Lead b s.lead
  before : Blank s.before
  after : Blank s.after

inductive Value : List Char → Prop
  | null : Value "null".toList
  | true : Value "true".toList
  | false : Value "false".toList
  | number {text : List Char} : Number text → Value text
  | string {body : List Char} : Body body → Value ('"' :: body ++ ['"'])
  | empty {b : Bracket} {space : List Char} : Blank space →
      Value (opener b :: space ++ [b.close])
  | filled {b : Bracket} {first : Slot} {more : List Slot} :
      (∀ s ∈ first :: more, s.Fits b) → (∀ s ∈ first :: more, Value s.value) →
      Value (opener b :: (first.text ++ more.flatMap fun s => ',' :: s.text) ++ [b.close])

inductive Separated (Writes : α → List Char → Prop) : List α → List Char → Prop
  | last {a : α} {text : List Char} : Writes a text → Separated Writes [a] text
  | more {a : α} {as : List α} {text rest : List Char} : Writes a text →
      Separated Writes as rest → Separated Writes (a :: as) (text ++ ',' :: rest)

inductive Padded (Writes : α → List Char → Prop) : α → List Char → Prop
  | mk {a : α} {before text after : List Char} : Blank before → Writes a text → Blank after →
      Padded Writes a (before ++ (text ++ after))

inductive Strings : List String → List Char → Prop
  | empty {space : List Char} : Blank space → Strings [] ('[' :: space ++ [']'])
  | filled {names : List String} {body : List Char} : Separated (Padded Quoted) names body →
      Strings names ('[' :: body ++ [']'])

/-- A member of an object: its key, and the text of its value. The key writes
characters, as keys are decoded to be looked up; a key inside a value that is
skipped need not, and may hold half of a surrogate pair. -/
inductive Member : String × List Char → List Char → Prop
  | mk {key : String} {a k b c v d : List Char} : Blank a → Quoted key k → Blank b → Blank c →
      Value v → Blank d → Member (key, v) (a ++ (k ++ (b ++ ':' :: (c ++ (v ++ d)))))

/-- A whole text that is an object with at least one member. -/
inductive Object : List (String × List Char) → List Char → Prop
  | mk {members : List (String × List Char)} {before body after : List Char} : Blank before →
      Separated Member members body → Blank after →
      Object members (before ++ '\x7b' :: (body ++ '\x7d' :: after))

-- ---------------------------------------------------------------------------
-- Strings are values
-- ---------------------------------------------------------------------------

theorem blank_nil : Blank [] := by
  simp [Blank]

theorem Written.body {c : Char} {w body : List Char} (hw : Written c w) (hb : Body body) :
    Body (w ++ body) := by
  cases hw with
  | plain hc => exact .plain hc hb
  | letter hl => exact .letter hl hb
  | unit hd => exact .unit hd hb
  | pair _ hd he =>
    rw [List.append_assoc]
    exact .unit hd (.unit he hb)

theorem Chars.body {cs body : List Char} (h : Chars cs body) : Body body := by
  induction h with
  | nil => exact .nil
  | cons hw _ ih => exact hw.body ih

theorem Quoted.value {s : String} {text : List Char} (h : Quoted s text) : Value text := by
  cases h with
  | mk hbody => exact .string hbody.body

theorem exists_slots {names : List String} {body : List Char}
    (h : Separated (Padded Quoted) names body) :
    ∃ (first : Slot) (more : List Slot),
      (∀ s ∈ first :: more, s.Fits .array ∧ Value s.value) ∧
        body = first.text ++ more.flatMap fun s => ',' :: s.text := by
  induction h with
  | last hitem =>
    cases hitem with
    | @mk before text after hb hq ha =>
      refine ⟨⟨[], before, text, after⟩, [], ?_, by simp [Slot.text]⟩
      simpa using ⟨⟨.array, hb, ha⟩, hq.value⟩
  | more hitem _ ih =>
    obtain ⟨next, more, hslots, rfl⟩ := ih
    cases hitem with
    | @mk before text after hb hq ha =>
      refine ⟨⟨[], before, text, after⟩, next :: more, ?_, by simp [Slot.text]⟩
      exact List.forall_mem_cons.2 ⟨⟨⟨.array, hb, ha⟩, hq.value⟩, hslots⟩

theorem Strings.value {names : List String} {text : List Char} (h : Strings names text) :
    Value text := by
  cases h with
  | empty hs => exact .empty (b := .array) hs
  | filled hbody =>
    obtain ⟨first, more, hslots, rfl⟩ := exists_slots hbody
    exact .filled (fun s hs => (hslots s hs).1) fun s hs => (hslots s hs).2

end FilterQuery.Json.Grammar
