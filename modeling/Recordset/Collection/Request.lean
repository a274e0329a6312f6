import Recordset.Collection.Transform
import Recordset.Value.Arithmetic
set_option autoImplicit false

/-!
# Requests to containers

What any container can be asked for: its length, its elements, an element, a part, a comparison,
its written form.  A request has a plain name and, on collections, a special name between double
underscores, under which it can be recorded as an operation.
-/

namespace Recordset

/-- A request to a container. -/
inductive Request where
  | length
  | elements
  | backwards
  | holds
  | item
  | part
  | assign
  | remove
  | equal
  | unequal
  | add
  | shown
  | text
  | hash
  deriving DecidableEq, Repr

namespace Request

/-- The plain and the special name of a request. -/
def names : Request → String × String
  | length => ("len", "__len__")
  | elements => ("iter", "__iter__")
  | backwards => ("reversed", "__reversed__")
  | holds => ("contains", "__contains__")
  | item => ("getitem", "__getitem__")
  | part => ("getslice", "")
  | assign => ("setitem", "__setitem__")
  | remove => ("delitem", "__delitem__")
  | equal => ("eq", "__eq__")
  | unequal => ("ne", "__ne__")
  | add => ("add", "__add__")
  | shown => ("repr", "__repr__")
  | text => ("str", "__str__")
  | hash => ("hash", "")

/-- Every request. -/
def all : List Request :=
  [length, elements, backwards, holds, item, part, assign, remove, equal, unequal, add, shown,
    text, hash]

/-- The request of a plain name. -/
def ofName? (name : String) : Option Request := all.find? (·.names.1 == name)

/-- The request of a special name. -/
def ofSpecialName? (name : String) : Option Request :=
  if name = "" then none else all.find? (·.names.2 == name)

/-- Joins two containers: to a collection anything can be joined, by the collection's own method. -/
def joinTo (caller : Caller) (v other : Value) : Action Value := do
  match v, (← get).store.collection? v with
  | .ref a, some _ =>
    Collection.through caller a .concat [other] (Collection.concat a [other])
  | _, _ => Action.binary .add v other

/-- The part of a container between two positions, in steps. -/
def partOf (v start stop step : Value) : Action Value := do
  let s := (← get).store
  match v, s.view v with
  | .ref a, some (.collection _) => Collection.sliceEvery a start stop step
  | _, some (.list xs) => do Action.make (.list (← Collection.everyOf xs start stop step))
  | _, some (.tuple xs) => do Action.make (.tuple (← Collection.everyOf xs start stop step))
  | _, _ => Action.fault .type

/-- The elements of a container, the last one first. -/
def backwardsOf (v : Value) : Action Value := do
  let s := (← get).store
  match s.view v with
  | some (.list xs) | some (.tuple xs) => Action.make (.list xs.reverse)
  | some (.collection c) => Action.make (.list (s.items c).reverse)
  | some (.dict es) | some (.frozen es) => Action.make (.list (es.map (·.1)).reverse)
  | _ => Action.fault .type

/-- Answers a request. -/
def answer (caller : Caller) (r : Request) (v : Value) (args : List Value) : Action Value := do
  match r, args with
  | length, [] => return .int (← Action.look (Store.length · v))
  | elements, [] => do Action.make (.list (← Action.iterate v))
  | backwards, [] => backwardsOf v
  | holds, [x] => Action.binary .member x v
  | item, [key] => Action.look (Store.item · v key)
  | part, [stop] => partOf v .null stop .null
  | part, [start, stop] => partOf v start stop .null
  | part, [start, stop, step] => partOf v start stop step
  | assign, [key, x] => do
    Action.assign v key x
    return .null
  | remove, [key] => do
    Action.remove v key
    return .null
  | equal, [other] => Action.binary .equal v other
  | unequal, [other] => Action.binary .unequal v other
  | add, [other] => joinTo caller v other
  | shown, [] => return .str (← Action.look (Store.shown · v))
  | text, [] => return .str (← Action.look (Store.text · v))
  | hash, [] => do
    let s := (← get).store
    if s.isKey v then return .int ((s.hash? v).getD 0) else Action.fault .type
  | _, _ => Action.fault .type

end Request

end Recordset
