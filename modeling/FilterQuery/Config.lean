import FilterQuery.Backend
import FilterQuery.Event
import FilterQuery.Json.Decode
import FilterQuery.Placeholder

/-!
# Configurations

The allow-list and the placeholder style, read from JSON text: an object with
the keys `allowed_fields` and, if it is not the default, `placeholder_style`,
or an array with the two in this order. Other keys are skipped.
-/

namespace FilterQuery

structure Config where
  fields : AllowList
  style : Placeholder.Style := .dollar
  deriving DecidableEq, Repr

namespace Config

structure Draft where
  fields : Option (List String) := none
  style : Option Placeholder.Style := none
  deriving BEq, DecidableEq, Repr

def Draft.finish (d : Draft) : Except Json.Fault Config :=
  match d.fields with
  | some names => .ok { fields := AllowList.ofList names, style := d.style.getD .dollar }
  | none => .error .mismatched

/-- Reads the member with a given key. A known key may come only once, which
is seen before its value is. -/
def Draft.member (d : Draft) (key : String) (text : List Char) :
    Except Json.Fault (Draft × List Char) :=
  if key = "allowed_fields" then
    if d.fields.isSome then .error .mismatched
    else do
      let (names, rest) ← Json.stringArray (← Json.colon text)
      .ok ({ d with fields := some names }, rest)
  else if key = "placeholder_style" then
    if d.style.isSome then .error .mismatched
    else do
      let (style, rest) ← Json.choice Placeholder.Style.ofName? (← Json.colon text)
      .ok ({ d with style := some style }, rest)
  else do
    let rest ← Json.skip (← Json.colon text)
    .ok (d, rest)

theorem Draft.length_member {d d' : Draft} {key : String} {text rest : List Char}
    (h : d.member key text = .ok (d', rest)) : rest.length < text.length := by
  unfold Draft.member at h
  split at h
  · split at h
    · simp at h
    · simp only [Json.bind_eq_ok] at h
      obtain ⟨r, hc, ⟨names, r'⟩, ha, he⟩ := h
      have := Json.length_colon hc
      have := Json.length_stringArray ha
      grind
  · split at h
    · split at h
      · simp at h
      · simp only [Json.bind_eq_ok] at h
        obtain ⟨r, hc, ⟨style, r'⟩, hs, he⟩ := h
        have := Json.length_colon hc
        have := Json.length_choice hs
        grind
    · simp only [Json.bind_eq_ok] at h
      obtain ⟨r, hc, r', hs, he⟩ := h
      have := Json.length_colon hc
      have := Json.length_skipWithin hs
      grind

def Draft.next (first : Bool) (d : Draft) (text : List Char) :
    Except Json.Fault (Option Draft × List Char) := do
  match ← Json.objectTurn first text with
  | .ends rest => .ok (none, rest)
  | .goesOn rest =>
    let (key, rest) ← Json.string rest
    let (d, rest) ← d.member (String.ofList key) rest
    .ok (some d, rest)

theorem Draft.length_next {first : Bool} {d d' : Draft} {text rest : List Char}
    (h : Draft.next first d text = .ok (some d', rest)) : rest.length < text.length := by
  simp only [Draft.next, Json.bind_eq_ok] at h
  obtain ⟨t, ht, h⟩ := h
  have := Json.length_objectTurn ht
  split at h
  · simp at h
  · simp only [Json.bind_eq_ok] at h
    obtain ⟨⟨key, r⟩, hk, ⟨d'', r'⟩, hm, he⟩ := h
    have := Json.length_string hk
    have := Draft.length_member hm
    grind [Json.Turn.rest]

def members (first : Bool) (d : Draft) (text : List Char) :
    Except Json.Fault (Config × List Char) :=
  match _h : d.next first text with
  | .error e => .error e
  | .ok (none, rest) => d.finish.map fun c => (c, rest)
  | .ok (some d, rest) => members false d rest
termination_by text.length
decreasing_by exact Draft.length_next ‹_›

/-- The elements of a configuration array: the fields, then perhaps the
style. -/
def elements (text : List Char) : Except Json.Fault (Config × List Char) := do
  match ← Json.arrayTurn true text with
  | .ends _ => .error .mismatched
  | .goesOn rest =>
    let (names, rest) ← Json.stringArray rest
    match ← Json.arrayTurn false rest with
    | .ends rest => .ok ({ fields := AllowList.ofList names }, rest)
    | .goesOn rest =>
      let (style, rest) ← Json.choice Placeholder.Style.ofName? rest
      match Json.skipSpace rest with
      | [] => .error .truncated
      | ']' :: rest => .ok ({ fields := AllowList.ofList names, style }, rest)
      | _ => .error .malformed

def reader (text : List Char) : Except Json.Fault (Config × List Char) :=
  match Json.skipSpace text with
  | '\x7b' :: rest => members true {} rest
  | '[' :: rest => elements rest
  | rest => .error (Json.mismatch rest)

/-- Reads a configuration from JSON text and reports the reserved words in its
allow-list. -/
def ofJson (text : String) : Traced (Except Json.Fault Config) :=
  match Json.decode reader text with
  | .ok c => { value := .ok c, events := c.fields.announce.events }
  | .error e => { value := .error e }

/-- Why a file gives no configuration. If it cannot be read, only the kind of
failure is kept and not the words of the system. -/
inductive LoadError where
  | notFound
  | notText
  | json (fault : Json.Fault)
  deriving BEq, DecidableEq, Repr

/-- Loads a configuration from the bytes of a file, if there is such a file.
All bytes must be valid UTF-8. The path is known to the caller, and neither the
error nor the event repeats it. -/
def ofFile (contents : Option ByteArray) : Traced (Except LoadError Config) :=
  match contents with
  | none => { value := .error .notFound }
  | some bytes =>
    match String.fromUTF8? bytes with
    | none => { value := .error .notText }
    | some text =>
      let loaded := ofJson text
      match loaded.value with
      | .ok c => { value := .ok c, events := loaded.events ++ [.loaded c.fields.size] }
      | .error e => { value := .error (.json e), events := loaded.events }

end Config

def Backend.ofJson (text : String) : Except Json.Fault Backend :=
  Json.decode (Json.choice Backend.ofName?) text

end FilterQuery
