import FilterQuery.Json.Scan

/-!
# Skipping a JSON value

A value nobody asked for must still be JSON, but less is asked of it than of
one that is decoded: numbers have no range, and surrogates need not pair up in
strings. Values may be nested without bound, so the brackets that are open are
kept in a list.
-/

namespace FilterQuery.Json

def skipEscaped : List Char → Except Fault (List Char)
  | [] => .error .truncated
  | 'u' :: text => (hex4 text).map (·.2)
  | c :: text => if (unescape? c).isSome then .ok text else .error .malformed

theorem length_skipEscaped {text rest : List Char} (h : skipEscaped text = .ok rest) :
    rest.length < text.length := by
  unfold skipEscaped at h
  split at h
  · simp at h
  · rename_i r
    cases hx : hex4 r with
    | error e => simp [hx, Except.map] at h
    | ok p =>
      have := length_hex4 hx
      simp only [hx, Except.map, Except.ok.injEq] at h
      grind
  · grind

/-- A string whose opening quote stands before the text. -/
def skipString (text : List Char) : Except Fault (List Char) :=
  match text with
  | [] => .error .truncated
  | '"' :: rest => .ok rest
  | '\\' :: rest =>
    match _h : skipEscaped rest with
    | .error e => .error e
    | .ok rest => skipString rest
  | c :: rest => if c.toNat < 0x20 then .error .malformed else skipString rest
termination_by text.length
decreasing_by
  · have := length_skipEscaped ‹_›
    simp only [List.length_cons]
    omega
  · simp

theorem length_skipString {text rest : List Char} (h : skipString text = .ok rest) :
    rest.length < text.length := by
  fun_induction skipString text with
  | case1 => simp at h
  | case2 => simp_all
  | case3 => simp at h
  | case4 r r' he ih =>
    have := length_skipEscaped he
    grind
  | case5 => simp at h
  | case6 => grind

inductive Bracket where
  | array
  | object
  deriving BEq, DecidableEq, Repr

def Bracket.close : Bracket → Char
  | .array => ']'
  | .object => '\x7d'

def colon (text : List Char) : Except Fault (List Char) :=
  match skipSpace text with
  | [] => .error .truncated
  | ':' :: rest => .ok rest
  | _ => .error .malformed

theorem length_colon {text rest : List Char} (h : colon text = .ok rest) :
    rest.length < text.length := by
  have := length_skipSpace text
  unfold colon at h
  grind

/-- What stands before a value inside a bracket: a key in an object, nothing
in an array. -/
def Bracket.enter (b : Bracket) (text : List Char) : Except Fault (List Char) :=
  match b with
  | .array => .ok text
  | .object =>
    match skipSpace text with
    | [] => .error .truncated
    | '"' :: rest => do
      let rest ← skipString rest
      colon rest
    | _ => .error .malformed

theorem Bracket.length_enter {b : Bracket} {text rest : List Char} (h : b.enter text = .ok rest) :
    rest.length ≤ text.length := by
  have := length_skipSpace text
  unfold Bracket.enter at h
  split at h
  · grind
  · split at h
    · simp at h
    · simp only [bind_eq_ok] at h
      obtain ⟨r, hs, hc⟩ := h
      have := length_skipString hs
      have := length_colon hc
      grind
    · simp at h

/-- What follows a complete value: brackets that close, then a comma if a
bracket is still open. The brackets left open come with the rest. -/
def resume : List Bracket → List Char → Except Fault (List Bracket × List Char)
  | [], text => .ok ([], text)
  | b :: brackets, text =>
    match skipSpace text with
    | [] => .error .truncated
    | c :: rest =>
      if c = b.close then resume brackets rest
      else if c = ',' then (b.enter rest).map fun rest => (b :: brackets, rest)
      else .error .malformed

theorem length_resume {brackets left : List Bracket} {text rest : List Char}
    (h : resume brackets text = .ok (left, rest)) : rest.length ≤ text.length := by
  induction brackets generalizing text with
  | nil => simp_all [resume]
  | cons b bs ih =>
    have := length_skipSpace text
    unfold resume at h
    split at h
    · simp at h
    · rename_i c r hr
      split at h
      · have := ih h
        grind
      · split at h
        · cases he : b.enter r with
          | error e => simp [he, Except.map] at h
          | ok r' =>
            have := Bracket.length_enter he
            simp only [he, Except.map, Except.ok.injEq, Prod.mk.injEq] at h
            grind
        · simp at h

def opening (text : List Char) : Except Fault (Option Bracket × List Char) :=
  match skipSpace text with
  | [] => .error .truncated
  | 'n' :: rest => (keyword "ull".toList rest).map (none, ·)
  | 't' :: rest => (keyword "rue".toList rest).map (none, ·)
  | 'f' :: rest => (keyword "alse".toList rest).map (none, ·)
  | '"' :: rest => (skipString rest).map (none, ·)
  | '[' :: rest => .ok (some .array, rest)
  | '\x7b' :: rest => .ok (some .object, rest)
  | '-' :: rest => (number .malformed rest).map fun (_, rest) => (none, rest)
  | c :: rest =>
    if c.isDigit then (number .malformed (c :: rest)).map fun (_, rest) => (none, rest)
    else .error .malformed

theorem length_opening {text rest : List Char} {b : Option Bracket}
    (h : opening text = .ok (b, rest)) : rest.length < text.length := by
  have hs := length_skipSpace text
  have map_ok : ∀ {α : Type} {x : Except Fault α} {f : α → Option Bracket × List Char},
      x.map f = .ok (b, rest) → ∃ a, x = .ok a ∧ f a = (b, rest) := by
    intro α x f hx
    cases x <;> simp_all [Except.map]
  unfold opening at h
  split at h
  · simp at h
  · obtain ⟨r, hk, he⟩ := map_ok h
    have := length_keyword hk
    grind
  · obtain ⟨r, hk, he⟩ := map_ok h
    have := length_keyword hk
    grind
  · obtain ⟨r, hk, he⟩ := map_ok h
    have := length_keyword hk
    grind
  · obtain ⟨r, hk, he⟩ := map_ok h
    have := length_skipString hk
    grind
  · grind
  · grind
  · obtain ⟨r, hk, he⟩ := map_ok h
    have := length_number hk
    grind
  · split at h
    · obtain ⟨r, hk, he⟩ := map_ok h
      have := length_number hk
      grind
    · simp at h

/-- Reads to the start of the next value inside a bracket, or to the end of
the whole value. -/
def skipStep (brackets : List Bracket) (text : List Char) :
    Except Fault (List Bracket × List Char) := do
  match ← opening text with
  | (none, rest) => resume brackets rest
  | (some b, rest) =>
    match skipSpace rest with
    | [] => .error .truncated
    | c :: after =>
      if c = b.close then resume brackets after
      else (b.enter rest).map fun rest => (b :: brackets, rest)

theorem length_skipStep {brackets left : List Bracket} {text rest : List Char}
    (h : skipStep brackets text = .ok (left, rest)) : rest.length < text.length := by
  simp only [skipStep, bind_eq_ok] at h
  obtain ⟨⟨b?, r⟩, ho, h⟩ := h
  have := length_opening ho
  have := length_skipSpace r
  split at h
  · have := length_resume h
    grind
  · rename_i b r' heq
    cases heq
    split at h
    · simp at h
    · split at h
      · have := length_resume h
        grind
      · cases he : b.enter r with
        | error e => simp [he, Except.map] at h
        | ok r' =>
          have := Bracket.length_enter he
          simp only [he, Except.map, Except.ok.injEq, Prod.mk.injEq] at h
          grind

def skipWithin (brackets : List Bracket) (text : List Char) : Except Fault (List Char) :=
  match _h : skipStep brackets text with
  | .error e => .error e
  | .ok ([], rest) => .ok rest
  | .ok (b :: brackets, rest) => skipWithin (b :: brackets) rest
termination_by text.length
decreasing_by exact length_skipStep ‹_›

def skip (text : List Char) : Except Fault (List Char) :=
  skipWithin [] text

theorem length_skipWithin {brackets : List Bracket} {text rest : List Char}
    (h : skipWithin brackets text = .ok rest) : rest.length < text.length := by
  fun_induction skipWithin brackets text with
  | case1 => simp at h
  | case2 brackets text r hs =>
    have := length_skipStep hs
    grind
  | case3 brackets text b bs r hs ih =>
    have := length_skipStep hs
    grind

end FilterQuery.Json
