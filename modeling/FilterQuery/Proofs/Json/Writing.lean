import FilterQuery.Proofs.Json.Grammar

/-!
# Writing strings

The compact way to write strings and arrays of strings, which escapes only what
cannot stand for itself. What is written is what the grammar asks for.
-/

namespace FilterQuery.Json

open FilterQuery.Json.Grammar (Hex4 Written Chars Quoted Separated Padded Strings blank_nil hexDigits)

/-- A character as it is written inside a string: only what cannot stand there
is escaped. -/
def escape (c : Char) : List Char :=
  match c with
  | '"' => ['\\', '"']
  | '\\' => ['\\', '\\']
  | '\x08' => ['\\', 'b']
  | '\x0c' => ['\\', 'f']
  | '\n' => ['\\', 'n']
  | '\r' => ['\\', 'r']
  | '\t' => ['\\', 't']
  | c =>
    if c.toNat < 0x20 then
      ['\\', 'u', '0', '0', Nat.digitChar (c.toNat / 16), Nat.digitChar (c.toNat % 16)]
    else [c]

def quote (s : String) : List Char :=
  '"' :: s.toList.flatMap escape ++ ['"']

def quoteAll (names : List String) : List Char :=
  '[' :: List.intercalate [','] (names.map quote) ++ [']']

theorem hex4_control {n : Nat} (h : n < 0x20) :
    Hex4 n ['0', '0', Nat.digitChar (n / 16), Nat.digitChar (n % 16)] := by
  have hdigit : ∀ k < 16, (Nat.digitChar k, k) ∈ hexDigits := by decide
  have hsum : n = ((0 * 16 + 0) * 16 + n / 16) * 16 + n % 16 := by omega
  have hex := Hex4.mk (hdigit 0 (by omega)) (hdigit 0 (by omega))
    (hdigit (n / 16) (by omega)) (hdigit (n % 16) (by omega))
  rw [← hsum] at hex
  exact hex

theorem written_escape (c : Char) : Written c (escape c) := by
  unfold escape
  split
  case h_8 hquote hbackslash _ _ _ _ _ =>
    split
    · exact .unit (hex4_control ‹_›)
    · exact .plain ⟨Nat.not_lt.1 ‹_›, hquote, hbackslash⟩
  all_goals exact .letter (by decide)

theorem chars_escape (cs : List Char) : Chars cs (cs.flatMap escape) := by
  induction cs with
  | nil => exact .nil
  | cons c cs ih => exact .cons (written_escape c) ih

theorem quoted_quote (s : String) : Quoted s (quote s) :=
  .mk (chars_escape s.toList)

theorem separated_quote {names : List String} (h : names ≠ []) :
    Separated (Padded Quoted) names (List.intercalate [','] (names.map quote)) := by
  have hitem : ∀ name, Padded Quoted name (quote name) := by
    intro name
    simpa using Padded.mk blank_nil (quoted_quote name) blank_nil
  induction names with
  | nil => contradiction
  | cons name names ih =>
    cases names with
    | nil => simpa using Separated.last (hitem name)
    | cons next names =>
      have hmore := Separated.more (hitem name) (ih (by simp))
      simpa [List.intercalate_cons_cons] using hmore

theorem strings_quoteAll (names : List String) : Strings names (quoteAll names) := by
  cases names with
  | nil => exact .empty blank_nil
  | cons name names => exact .filled (separated_quote (by simp))

end FilterQuery.Json
