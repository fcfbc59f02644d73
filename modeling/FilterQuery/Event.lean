import FilterQuery.AllowList

/-!
# Events

What the library reports about its own work, beside the result of a call. An
event has a fixed message and some details, both texts.
-/

namespace FilterQuery

inductive Event where
  | reservedField (name : String)
  | lexingStopped (message : String)
  /-- A text was read; number of children and operator of its outermost level. -/
  | parsed (children : Nat) (op : BoolOp)
  | compiled (args : Nat)
  /-- A configuration file was read, with this many distinct fields. -/
  | loaded (fields : Nat)
  deriving BEq, DecidableEq, Repr

def Event.message : Event → String
  | .reservedField _ => "allow-listed field is a reserved word and can never match"
  | .lexingStopped _ => "lexing stopped on error"
  | .parsed _ _ => "parsed filter"
  | .compiled _ => "compiled filter"
  | .loaded _ => "loaded filter config"

def Event.details : Event → List (String × String)
  | .reservedField name => [("field", name)]
  | .lexingStopped message => [("error", message)]
  | .parsed children op => [("children", children.repr), ("op", op.symbol)]
  | .compiled args => [("args", args.repr)]
  | .loaded fields => [("fields", fields.repr)]

/-- A result with the events reported on the way to it, in order. -/
structure Traced (α : Type) where
  value : α
  events : List Event := []
  deriving Repr

instance : Monad Traced where
  pure a := { value := a }
  bind x f :=
    let y := f x.value
    { value := y.value, events := x.events ++ y.events }

@[simp] theorem Traced.value_pure (a : α) : (pure a : Traced α).value = a := rfl

@[simp] theorem Traced.events_pure (a : α) : (pure a : Traced α).events = [] := rfl

@[simp] theorem Traced.value_bind (x : Traced α) (f : α → Traced β) :
    (x >>= f).value = (f x.value).value := rfl

@[simp] theorem Traced.events_bind (x : Traced α) (f : α → Traced β) :
    (x >>= f).events = x.events ++ (f x.value).events := rfl

def Traced.report (events : List Event) : Traced Unit :=
  { value := (), events }

def AllowList.announce (fields : AllowList) : Traced AllowList :=
  { value := fields, events := fields.reserved.map .reservedField }

end FilterQuery
