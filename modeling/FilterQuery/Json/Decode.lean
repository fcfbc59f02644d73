import FilterQuery.Json.Skip

/-!
# Decoding JSON into wanted shapes

Readers for arrays of strings and for names out of a fixed choice, and the
turns of arrays and objects: whether another member follows or the bracket
closes. A value is decoded in one pass from the left, so a fault of shape comes
before any fault of the text behind it.
-/

namespace FilterQuery.Json

inductive Turn where
  | ends (rest : List Char)
  /-- Another member follows; the text from where it is read on. -/
  | goesOn (rest : List Char)
  deriving BEq, DecidableEq, Repr

def Turn.rest : Turn → List Char
  | .ends rest | .goesOn rest => rest

def arrayTurn (first : Bool) (text : List Char) : Except Fault Turn :=
  match skipSpace text with
  | [] => .error .truncated
  | ']' :: rest => .ok (.ends rest)
  | c :: rest =>
    if first then .ok (.goesOn (c :: rest))
    else if c = ',' then
      match skipSpace rest with
      | [] => .error .truncated
      | ']' :: _ => .error .malformed
      | c :: rest => .ok (.goesOn (c :: rest))
    else .error .malformed

theorem length_arrayTurn {first : Bool} {text : List Char} {t : Turn}
    (h : arrayTurn first text = .ok t) : t.rest.length ≤ text.length := by
  have := length_skipSpace text
  unfold arrayTurn at h
  split at h
  · simp at h
  · rename_i r hr
    rw [hr, List.length_cons] at this
    cases h
    simp only [Turn.rest]
    omega
  · rename_i c r _ hr
    have := length_skipSpace r
    grind [Turn.rest]

/-- The turn of an object; what follows is a key, behind its opening quote. -/
def objectTurn (first : Bool) (text : List Char) : Except Fault Turn :=
  match skipSpace text with
  | [] => .error .truncated
  | '\x7d' :: rest => .ok (.ends rest)
  | c :: rest =>
    if first then if c = '"' then .ok (.goesOn rest) else .error .malformed
    else if c = ',' then
      match skipSpace rest with
      | [] => .error .truncated
      | '"' :: rest => .ok (.goesOn rest)
      | _ => .error .malformed
    else .error .malformed

theorem length_objectTurn {first : Bool} {text : List Char} {t : Turn}
    (h : objectTurn first text = .ok t) : t.rest.length < text.length := by
  have := length_skipSpace text
  unfold objectTurn at h
  split at h
  · simp at h
  · rename_i r hr
    rw [hr, List.length_cons] at this
    cases h
    simp only [Turn.rest]
    omega
  · rename_i c r _ hr
    have := length_skipSpace r
    grind [Turn.rest]

def stringValue (text : List Char) : Except Fault (String × List Char) :=
  match skipSpace text with
  | '"' :: rest => do
    let (cs, rest) ← string rest
    .ok (String.ofList cs, rest)
  | rest => .error (mismatch rest)

theorem length_stringValue {text rest : List Char} {s : String}
    (h : stringValue text = .ok (s, rest)) : rest.length < text.length := by
  have := length_skipSpace text
  unfold stringValue at h
  split at h
  · simp only [bind_eq_ok] at h
    obtain ⟨⟨cs, r⟩, hs, he⟩ := h
    have := length_string hs
    grind
  · simp at h

def nextString (first : Bool) (text : List Char) : Except Fault (Option String × List Char) := do
  match ← arrayTurn first text with
  | .ends rest => .ok (none, rest)
  | .goesOn rest =>
    let (s, rest) ← stringValue rest
    .ok (some s, rest)

theorem length_nextString {first : Bool} {text rest : List Char} {s : String}
    (h : nextString first text = .ok (some s, rest)) : rest.length < text.length := by
  simp only [nextString, bind_eq_ok] at h
  obtain ⟨t, ht, h⟩ := h
  have := length_arrayTurn ht
  split at h
  · simp at h
  · simp only [bind_eq_ok] at h
    obtain ⟨⟨s', r⟩, hs, he⟩ := h
    have := length_stringValue hs
    grind [Turn.rest]

def strings (first : Bool) (text : List Char) : Except Fault (List String × List Char) :=
  match _h : nextString first text with
  | .error e => .error e
  | .ok (none, rest) => .ok ([], rest)
  | .ok (some s, rest) => (strings false rest).map fun (ss, rest) => (s :: ss, rest)
termination_by text.length
decreasing_by exact length_nextString ‹_›

theorem length_strings {first : Bool} {text rest : List Char} {ss : List String}
    (h : strings first text = .ok (ss, rest)) : rest.length ≤ text.length := by
  fun_induction strings first text generalizing ss rest with
  | case1 => simp at h
  | case2 first text r hn =>
    simp only [nextString, bind_eq_ok] at hn
    obtain ⟨t, ht, hn⟩ := hn
    have := length_arrayTurn ht
    split at hn
    · grind [Turn.rest]
    · simp only [bind_eq_ok] at hn
      grind
  | case3 first text s r hn ih =>
    have := length_nextString hn
    cases hs : strings false r with
    | error e => simp [hs, Except.map] at h
    | ok p =>
      have := ih hs
      simp only [hs, Except.map, Except.ok.injEq, Prod.mk.injEq] at h
      grind

def stringArray (text : List Char) : Except Fault (List String × List Char) :=
  match skipSpace text with
  | '[' :: rest => strings true rest
  | rest => .error (mismatch rest)

theorem length_stringArray {text rest : List Char} {ss : List String}
    (h : stringArray text = .ok (ss, rest)) : rest.length < text.length := by
  have := length_skipSpace text
  unfold stringArray at h
  split at h
  · have := length_strings h
    grind
  · simp at h

def null (text : List Char) : Except Fault (List Char) :=
  match skipSpace text with
  | 'n' :: rest => keyword "ull".toList rest
  | rest => .error (mismatch rest)

theorem length_null {text rest : List Char} (h : null text = .ok rest) :
    rest.length < text.length := by
  have := length_skipSpace text
  unfold null at h
  split at h
  · have := length_keyword h
    grind
  · simp at h

/-- The key of a member of an object. Nothing but a string is a key. -/
def key (text : List Char) : Except Fault (String × List Char) :=
  match skipSpace text with
  | [] => .error .truncated
  | '"' :: rest => do
    let (cs, rest) ← string rest
    .ok (String.ofList cs, rest)
  | _ => .error .malformed

theorem length_key {text rest : List Char} {s : String} (h : key text = .ok (s, rest)) :
    rest.length < text.length := by
  have hs := length_skipSpace text
  unfold key at h
  split at h
  · simp at h
  · rename_i r hr
    rw [hr, List.length_cons] at hs
    obtain ⟨⟨cs, r'⟩, hk, he⟩ := bind_eq_ok.1 h
    cases he
    have := length_string hk
    omega
  · simp at h

/-- A name out of a fixed choice, alone or as the one key of an object that
holds null. Where neither a string nor an object stands, the text does not fit
at all. -/
def choice (ofName? : String → Option α) (text : List Char) : Except Fault (α × List Char) :=
  match skipSpace text with
  | [] => .error .truncated
  | '"' :: rest => do
    let (cs, rest) ← string rest
    let a ← chosen (String.ofList cs)
    .ok (a, rest)
  | '\x7b' :: rest => do
    let (name, rest) ← key rest
    let a ← chosen name
    let rest ← colon rest
    let rest ← null rest
    match skipSpace rest with
    | [] => .error .truncated
    | '\x7d' :: rest => .ok (a, rest)
    | _ => .error .malformed
  | _ => .error .malformed
where
  chosen (name : String) : Except Fault α :=
    match ofName? name with
    | some a => .ok a
    | none => .error .mismatched

theorem length_choice {ofName? : String → Option α} {text rest : List Char} {a : α}
    (h : choice ofName? text = .ok (a, rest)) : rest.length < text.length := by
  have := length_skipSpace text
  unfold choice at h
  split at h
  · simp at h
  · simp only [bind_eq_ok] at h
    obtain ⟨⟨cs, r⟩, hs, b, _, he⟩ := h
    have := length_string hs
    grind
  · simp only [bind_eq_ok] at h
    obtain ⟨⟨name, r⟩, hs, b, _, r', hc, r'', hn, he⟩ := h
    have := length_key hs
    have := length_colon hc
    have := length_null hn
    have := length_skipSpace r''
    grind
  · simp at h

/-- Decodes a whole text. Only space may follow the value. -/
def decode (reader : List Char → Except Fault (α × List Char)) (text : String) :
    Except Fault α := do
  let (a, rest) ← reader text.toList
  if (skipSpace rest).isEmpty then .ok a else .error .malformed

end FilterQuery.Json
