/-!
# Filters

A filter compares fields with literal values and joins the comparisons with
AND and OR. A group may be empty and a name or value may be any text: what
reading a text can build is narrower, and is not said here.
-/

namespace FilterQuery

inductive BoolOp where
  | and
  | or
  deriving BEq, DecidableEq, Repr, Inhabited

def BoolOp.symbol : BoolOp → String
  | .and => "AND"
  | .or => "OR"

/-- The operator a reserved word stands for. The two reserved words are `and`
and `or`, in any mixture of ASCII cases. -/
def BoolOp.ofWord? (word : String) : Option BoolOp :=
  match word.toList.map Char.toLower with
  | ['a', 'n', 'd'] => some .and
  | ['o', 'r'] => some .or
  | _ => none

def BoolOp.ofString? (text : String) : Option BoolOp :=
  if text = "&&" then some .and
  else if text = "||" then some .or
  else ofWord? text

def isReserved (word : String) : Bool :=
  (BoolOp.ofWord? word).isSome

inductive Comparator where
  | eq
  | ne
  | lt
  | le
  | gt
  | ge
  deriving BEq, DecidableEq, Repr, Inhabited

def Comparator.symbol : Comparator → String
  | .eq => "="
  | .ne => "!="
  | .lt => "<"
  | .le => "<="
  | .gt => ">"
  | .ge => ">="

def Comparator.all : List Comparator :=
  [.eq, .ne, .lt, .le, .gt, .ge]

def Comparator.ofString? (text : String) : Option Comparator :=
  all.find? (·.symbol = text)

theorem Comparator.ofString?_symbol (c : Comparator) : ofString? c.symbol = some c := by
  cases c <;> rfl

theorem Comparator.symbol_of_ofString? {text : String} {c : Comparator}
    (h : ofString? text = some c) : c.symbol = text := by
  simpa using List.find?_some h

def Comparator.holds : Comparator → Ordering → Bool
  | .eq, o => o.isEq
  | .ne, o => o.isNe
  | .lt, o => o.isLT
  | .le, o => o.isLE
  | .gt, o => o.isGT
  | .ge, o => o.isGE

structure Predicate where
  field : String
  comparator : Comparator
  value : String
  deriving BEq, DecidableEq, Repr, Inhabited

inductive Filter where
  | predicate (p : Predicate)
  | group (op : BoolOp) (children : List Filter)
  deriving BEq, Repr, Inhabited

mutual
def Filter.decEq : (f g : Filter) → Decidable (f = g)
  | .predicate p, .predicate q =>
    if h : p = q then isTrue (h ▸ rfl) else isFalse fun e => h (Filter.predicate.inj e)
  | .predicate _, .group _ _ => isFalse nofun
  | .group _ _, .predicate _ => isFalse nofun
  | .group o cs, .group o' cs' =>
    if h : o = o' then
      match Filter.decEqList cs cs' with
      | isTrue hc => isTrue (h ▸ hc ▸ rfl)
      | isFalse hc => isFalse fun e => hc (Filter.group.inj e).2
    else isFalse fun e => h (Filter.group.inj e).1
def Filter.decEqList : (fs gs : List Filter) → Decidable (fs = gs)
  | [], [] => isTrue rfl
  | [], _ :: _ => isFalse nofun
  | _ :: _, [] => isFalse nofun
  | f :: fs, g :: gs =>
    match Filter.decEq f g, Filter.decEqList fs gs with
    | isTrue h, isTrue hs => isTrue (h ▸ hs ▸ rfl)
    | isFalse h, _ => isFalse fun e => h (List.cons.inj e).1
    | _, isFalse hs => isFalse fun e => hs (List.cons.inj e).2
end

instance : DecidableEq Filter := Filter.decEq

mutual
def Filter.predicates : Filter → List Predicate
  | .predicate p => [p]
  | .group _ children => Filter.predicatesList children
def Filter.predicatesList : List Filter → List Predicate
  | [] => []
  | f :: fs => f.predicates ++ Filter.predicatesList fs
end

theorem Filter.predicatesList_eq_flatMap (fs : List Filter) :
    Filter.predicatesList fs = fs.flatMap Filter.predicates := by
  induction fs with
  | nil => rfl
  | cons f fs ih => simp [Filter.predicatesList, ih]

@[simp] theorem Filter.predicates_group (op : BoolOp) (children : List Filter) :
    (Filter.group op children).predicates = children.flatMap Filter.predicates := by
  simp [Filter.predicates, Filter.predicatesList_eq_flatMap]

end FilterQuery
