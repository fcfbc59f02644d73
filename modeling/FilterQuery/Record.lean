import FilterQuery.Filter.Basic
import FilterQuery.Text.Blank
import FilterQuery.Text.Numeral

/-!
# Matching records

A record is a tree of values. A filter reads `field comparator literal`, the
same way as its condition text, and what the literal means depends on the
value found: a number is compared as a number, a text by its bytes, and a truth
value only for being the same or not.
-/

namespace FilterQuery

inductive Value where
  | null
  | bool (b : Bool)
  | number (x : Float)
  | string (s : String)
  | array (items : List Value)
  | object (entries : List (String × Value))
  deriving Repr, Inhabited

namespace Value

def get? : Value → String → Option Value
  | .object entries, key => entries.lookup key
  | _, _ => none

def walk? (v : Value) : List String → Option Value
  | [] => some v
  | key :: path => (v.get? key).bind fun w => w.walk? path

end Value

/-- The pieces of a text between its dots, empty ones included. -/
def segments : List Char → List (List Char)
  | [] => [[]]
  | c :: rest =>
    if c = '.' then [] :: segments rest
    else
      match segments rest with
      | [] => [[c]]
      | s :: ss => (c :: s) :: ss

/-- The value of a field. A key that is the whole field name comes first, even
if it holds null; otherwise the dots lead through nested objects. -/
def Value.find? (record : Value) (field : String) : Option Value :=
  match record.get? field with
  | some v => some v
  | none => record.walk? ((segments field.toList).map String.ofList)

def compareNumbers (x y : Float) : Option Ordering :=
  if x < y then some .lt
  else if x == y then some .eq
  else if y < x then some .gt
  else none

/-- The order of two texts by their UTF-8 bytes. -/
def compareBytes (s t : String) : Ordering :=
  compareOfLessAndEq (bytes s) (bytes t)
where
  bytes (s : String) : List UInt8 :=
    s.toList.flatMap String.utf8EncodeChar

def Predicate.accepts (p : Predicate) : Value → Bool
  | .number x =>
    match Text.Numeral.ofList? (Text.trim p.value.toList) with
    | some literal => (compareNumbers x literal.toFloat).any p.comparator.holds
    | none => false
  | .string s => p.comparator.holds (compareBytes s p.value)
  | .bool b =>
    match p.comparator, p.value with
    | .eq, "true" => b
    | .eq, "false" => !b
    | .ne, "true" => !b
    | .ne, "false" => b
    | _, _ => false
  | .null | .array _ | .object _ => false

def Predicate.matches (p : Predicate) (record : Value) : Bool :=
  (record.find? p.field).any p.accepts

mutual
def Filter.eval (holds : Predicate → Bool) : Filter → Bool
  | .predicate p => holds p
  | .group .and children => Filter.evalAll holds children
  | .group .or children => Filter.evalAny holds children
def Filter.evalAll (holds : Predicate → Bool) : List Filter → Bool
  | [] => true
  | f :: fs => f.eval holds && Filter.evalAll holds fs
def Filter.evalAny (holds : Predicate → Bool) : List Filter → Bool
  | [] => false
  | f :: fs => f.eval holds || Filter.evalAny holds fs
end

theorem Filter.evalAll_eq_all (holds : Predicate → Bool) (fs : List Filter) :
    Filter.evalAll holds fs = fs.all (·.eval holds) := by
  induction fs with
  | nil => rfl
  | cons f fs ih => simp [Filter.evalAll, ih]

theorem Filter.evalAny_eq_any (holds : Predicate → Bool) (fs : List Filter) :
    Filter.evalAny holds fs = fs.any (·.eval holds) := by
  induction fs with
  | nil => rfl
  | cons f fs ih => simp [Filter.evalAny, ih]

def Filter.matches (f : Filter) (record : Value) : Bool :=
  f.eval (·.matches record)

end FilterQuery
