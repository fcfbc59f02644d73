import FilterQuery.Filter.Basic
import FilterQuery.Proofs.Select.Quoting

/-!
# Reading a condition

A condition joins comparisons with AND and OR, AND binding tighter, and
parentheses group. `Derives` is its grammar with the truth value of each part;
it gives a condition at most one value (`Derives.unique`).

A text is cut into signs from the left, and its comparisons are given truth
values in their order (`Reader.scan`). What counts as a comparison is up to the
reader.
-/

namespace FilterQuery

def BoolOp.combine : BoolOp → Bool → Bool → Bool
  | .and, v, w => v && w
  | .or, v, w => v || w

namespace Condition

open Sql (Piece plain)

inductive Sign where
  | opening
  | closing
  | operator (op : BoolOp)
  | truth (value : Bool)
  deriving DecidableEq, Repr

-- ---------------------------------------------------------------------------
-- Grammar
-- ---------------------------------------------------------------------------

inductive Rank where
  | disjunction
  | conjunction
  | operand

/-- The conditions of each rank, with their truth values: OR joins conjunctions,
and AND joins operands, which are comparisons and conditions in parentheses. -/
inductive Derives : Rank → List Sign → Bool → Prop
  | truth {v : Bool} : Derives .operand [.truth v] v
  | group {ss : List Sign} {v : Bool} : Derives .disjunction ss v →
      Derives .operand (.opening :: ss ++ [.closing]) v
  | operand {ss : List Sign} {v : Bool} : Derives .operand ss v → Derives .conjunction ss v
  | and {ss ts : List Sign} {v w : Bool} : Derives .conjunction ss v → Derives .operand ts w →
      Derives .conjunction (ss ++ .operator .and :: ts) (v && w)
  | conjunction {ss : List Sign} {v : Bool} : Derives .conjunction ss v →
      Derives .disjunction ss v
  | or {ss ts : List Sign} {v w : Bool} : Derives .disjunction ss v → Derives .conjunction ts w →
      Derives .disjunction (ss ++ .operator .or :: ts) (v || w)

def Rank.ofOp : BoolOp → Rank
  | .and => .conjunction
  | .or => .disjunction

variable {op : BoolOp} {ss ts : List Sign} {v w : Bool} {rank : Rank}

theorem Derives.lift (h : Derives .operand ss v) (op : BoolOp) : Derives (Rank.ofOp op) ss v := by
  cases op with
  | and => exact .operand h
  | or => exact .conjunction (.operand h)

theorem Derives.join (h : Derives (Rank.ofOp op) ss v) (h' : Derives .operand ts w) :
    Derives (Rank.ofOp op) (ss ++ .operator op :: ts) (op.combine v w) := by
  cases op with
  | and => exact .and h h'
  | or => exact .or h (.operand h')

theorem Derives.disjunction (h : Derives rank ss v) : Derives .disjunction ss v := by
  cases rank with
  | disjunction => exact h
  | conjunction => exact .conjunction h
  | operand => exact .conjunction (.operand h)

-- ---------------------------------------------------------------------------
-- Only one value
-- ---------------------------------------------------------------------------

/-- What has been read between two parentheses: whether an operand of OR that is
complete was true, and whether all operands of AND behind it were. -/
structure Frame where
  any : Bool
  all : Bool

def Frame.value (f : Frame) : Bool :=
  f.any || f.all

def step : Frame × List Frame → Sign → Frame × List Frame
  | (f, outer), .truth v => (⟨f.any, f.all && v⟩, outer)
  | (f, outer), .opening => (⟨false, true⟩, f :: outer)
  | (f, g :: outer), .closing => (⟨g.any, g.all && f.value⟩, outer)
  | (f, []), .closing => (f, [])
  | s, .operator .and => s
  | (f, outer), .operator .or => (⟨f.value, true⟩, outer)

/-- What reading signs of a rank does to a frame, if their value is `v`. A
disjunction stands only where its parentheses begin. -/
def Moves : Rank → List Sign → Bool → Prop
  | .disjunction, ss, v => ∀ outer, ∃ f, ss.foldl step (⟨false, true⟩, outer) = (f, outer) ∧
      f.value = v
  | _, ss, v => ∀ any all outer,
      ss.foldl step (⟨any, all⟩, outer) = (⟨any, all && v⟩, outer)

theorem Derives.moves (h : Derives rank ss v) : Moves rank ss v := by
  induction h with
  | truth => exact fun any all outer => rfl
  | group h ih =>
    intro any all outer
    obtain ⟨f, hf, rfl⟩ := ih (⟨any, all⟩ :: outer)
    rw [List.cons_append, List.foldl_cons, List.foldl_append, step, hf]
    rfl
  | operand h ih => exact ih
  | and h h' ih ih' =>
    intro any all outer
    rw [List.foldl_append, ih, List.foldl_cons, step, ih', Bool.and_assoc]
  | conjunction h ih =>
    intro outer
    exact ⟨_, ih false true outer, by simp [Frame.value]⟩
  | or h h' ih ih' =>
    intro outer
    obtain ⟨f, hf, rfl⟩ := ih outer
    refine ⟨⟨f.value, _⟩, ?_, rfl⟩
    rw [List.foldl_append, hf, List.foldl_cons, step, ih', Bool.true_and]

theorem Derives.unique (h : Derives .disjunction ss v) (h' : Derives .disjunction ss w) :
    v = w := by
  obtain ⟨f, hf, rfl⟩ := h.moves []
  obtain ⟨g, hg, rfl⟩ := h'.moves []
  rw [hf] at hg
  cases hg
  rfl

-- ---------------------------------------------------------------------------
-- Cutting a text into signs
-- ---------------------------------------------------------------------------

/-- How comparisons are known: what follows the comparison that a text begins
with, given how many came before it. -/
structure Reader where
  comparison : Nat → List Piece → Option (List Piece)
  length_lt {k : Nat} {text rest : List Piece} : comparison k text = some rest →
    rest.length < text.length

def isLetter : Piece → Bool
  | .plain c => c.isAlpha
  | .name _ => false

def operator? (text : List Piece) : Option (BoolOp × List Piece) :=
  ([BoolOp.and, .or].find? fun op => plain op.symbol = text.takeWhile isLetter).map
    fun op => (op, text.dropWhile isLetter)

theorem length_operator? {text rest : List Piece} (h : operator? text = some (op, rest)) :
    rest.length < text.length := by
  obtain ⟨op', hfind, he⟩ := Option.map_eq_some_iff.1 h
  cases he
  have hword : plain op.symbol = text.takeWhile isLetter := by simpa using List.find?_some hfind
  have hpos : 0 < (plain op.symbol).length := by cases op <;> decide
  have hlen := congrArg List.length (List.takeWhile_append_dropWhile (p := isLetter) (l := text))
  rw [List.length_append, ← hword] at hlen
  omega

structure Step where
  signs : List Sign
  count : Nat
  due : Bool
  rest : List Piece

/-- Comparisons and opening parentheses stand where an operand is due, operators
and closing parentheses where none is. -/
def Reader.next (r : Reader) (values : Nat → Bool) (k : Nat) (due : Bool) (text : List Piece) :
    Option Step :=
  if due then
    match r.comparison k text, text with
    | some rest, _ => some ⟨[.truth (values k)], k + 1, false, rest⟩
    | none, .plain ' ' :: rest => some ⟨[], k, true, rest⟩
    | none, .plain '(' :: rest => some ⟨[.opening], k, true, rest⟩
    | none, _ => none
  else
    match operator? text, text with
    | some (op, rest), _ => some ⟨[.operator op], k, true, rest⟩
    | none, .plain ' ' :: rest => some ⟨[], k, false, rest⟩
    | none, .plain ')' :: rest => some ⟨[.closing], k, false, rest⟩
    | none, _ => none

theorem Reader.length_next {r : Reader} {values : Nat → Bool} {k : Nat} {due : Bool}
    {text : List Piece} {s : Step} (h : r.next values k due text = some s) :
    s.rest.length < text.length := by
  unfold next at h
  split at h
  · split at h
    · rename_i hc
      cases h
      exact r.length_lt hc
    · cases h
      exact Nat.lt_succ_self _
    · cases h
      exact Nat.lt_succ_self _
    · cases h
  · split at h
    · rename_i ho
      cases h
      exact length_operator? ho
    · cases h
      exact Nat.lt_succ_self _
    · cases h
      exact Nat.lt_succ_self _
    · cases h

/-- The signs of a text with `k` comparisons before it. It may end where no
operand is due. -/
def Reader.scan (r : Reader) (values : Nat → Bool) (k : Nat) (due : Bool) (text : List Piece) :
    Option (List Sign) :=
  if !due && text.isEmpty then some []
  else
    match _h : r.next values k due text with
    | none => none
    | some s => (r.scan values s.count s.due s.rest).map (s.signs ++ ·)
termination_by text.length
decreasing_by exact r.length_next _h

/-- Read as a condition whose comparisons have the given values in their order,
the text has the value `v`. -/
def Reader.Value (r : Reader) (values : Nat → Bool) (text : List Piece) (v : Bool) : Prop :=
  ∃ ss, r.scan values 0 true text = some ss ∧ Derives .disjunction ss v

variable {r : Reader} {values : Nat → Bool} {k : Nat} {text rest : List Piece}

theorem Reader.value_iff (hs : r.scan values 0 true text = some ss) (hd : Derives rank ss w) :
    r.Value values text v ↔ v = w := by
  constructor
  · rintro ⟨ss', hs', hv⟩
    cases hs.symm.trans hs'
    exact hv.unique hd.disjunction
  · rintro rfl
    exact ⟨ss, hs, hd.disjunction⟩

theorem Reader.scan_of_next {n : Nat} {due due' : Bool}
    (h : r.next values k due text = some ⟨ss, n, due', rest⟩) :
    r.scan values k due text = (r.scan values n due' rest).map (ss ++ ·) := by
  have hne : text.isEmpty = false := by
    cases text with
    | nil => exact absurd (r.length_next h) (Nat.not_lt_zero _)
    | cons p text => rfl
  rw [scan, hne, Bool.and_false, if_neg Bool.false_ne_true]
  split
  · rename_i h'
    cases h.symm.trans h'
  · rename_i h'
    cases h.symm.trans h'
    rfl

theorem Reader.scan_comparison (h : r.comparison k text = some rest) :
    r.scan values k true text =
      (r.scan values (k + 1) false rest).map ([.truth (values k)] ++ ·) :=
  scan_of_next (by simp [next, h])

theorem Reader.scan_space (h : r.comparison k (.plain ' ' :: rest) = none) :
    r.scan values k true (.plain ' ' :: rest) = r.scan values k true rest := by
  have hnext : r.next values k true (.plain ' ' :: rest) = some ⟨[], k, true, rest⟩ := by
    simp [next, h]
  simpa using scan_of_next hnext

theorem Reader.scan_opening (h : r.comparison k (.plain '(' :: rest) = none) :
    r.scan values k true (.plain '(' :: rest) =
      (r.scan values k true rest).map ([.opening] ++ ·) :=
  scan_of_next (by simp [next, h])

theorem Reader.scan_blank :
    r.scan values k false (.plain ' ' :: rest) = r.scan values k false rest := by
  have hnext : r.next values k false (.plain ' ' :: rest) = some ⟨[], k, false, rest⟩ := rfl
  simpa using scan_of_next hnext

theorem operator?_symbol (op : BoolOp) (rest : List Piece) :
    operator? (plain op.symbol ++ .plain ' ' :: rest) = some (op, .plain ' ' :: rest) := by
  cases op <;> rfl

theorem Reader.scan_operator :
    r.scan values k false (.plain ' ' :: (plain op.symbol ++ .plain ' ' :: rest)) =
      (r.scan values k true (.plain ' ' :: rest)).map ([.operator op] ++ ·) := by
  rw [scan_blank]
  exact scan_of_next (by simp [next, operator?_symbol])

theorem Reader.scan_closing :
    r.scan values k false (.plain ')' :: rest) =
      (r.scan values k false rest).map ([.closing] ++ ·) :=
  scan_of_next rfl

theorem Reader.scan_end : r.scan values k false [] = some [] := by
  rw [scan]
  rfl

end Condition

end FilterQuery
