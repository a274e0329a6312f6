import Recordset.Aggregate
import Recordset.Callback
import Recordset.Path
import Recordset.Query.Compile
import Recordset.Query.Shorthand
set_option autoImplicit false

/-!
# Visiting the items of a collection

Most methods visit the items one after another.  A callback may change the collection while it is
visited: the visit then goes on with what the collection holds at the next index, until an index
has no item.  A visit that grows without end is cut off.
-/

namespace Recordset

/-- Whether a visit goes on, and with what. -/
inductive Visit (σ : Type) where
  | next (state : σ)
  | done (state : σ)

/-- Items that are visited by index, and a bound on the number of visits. -/
structure Source where
  item : Nat → Action (Option Value)
  bound : Nat

namespace Source

/-- The items of a list. -/
def ofList (xs : List Value) : Source := ⟨fun i => return xs[i]?, xs.length + 1⟩

/-- Visits the items from an index on. -/
def visitFrom {σ : Type} (item : Nat → Action (Option Value))
    (f : σ → Value → Nat → Action (Visit σ)) : Nat → Nat → σ → Action σ
  | 0, _, _ => Action.fault .recursion
  | fuel + 1, i, state => do
    match ← item i with
    | none => return state
    | some v =>
      match ← f state v i with
      | .next state => visitFrom item f fuel (i + 1) state
      | .done state => return state

/-- Visits the items until the visitor is done. -/
def visit {σ : Type} (source : Source) (init : σ) (f : σ → Value → Nat → Action (Visit σ)) :
    Action σ :=
  visitFrom source.item f source.bound 0 init

/-- Visits all items. -/
def fold {σ : Type} (source : Source) (init : σ) (f : σ → Value → Nat → Action σ) : Action σ :=
  source.visit init fun state item i => return .next (← f state item i)

end Source

namespace Collection

/-- The collection in a cell. -/
def read (a : Address) : Action Collection := do
  match ← Action.cell a with
  | .collection c => return c
  | _ => Action.fault .attribute

/-- The items of a collection. -/
def itemsOf (a : Address) : Action (List Value) := do
  let c ← read a
  return (← get).store.items c

/-- Changes the items of a collection, in its list. -/
def setItems (a : Address) (xs : List Value) : Action Unit := do
  let c ← read a
  Action.fillList c.list xs
  Action.write a (.collection { c with grown := c.grown || !xs.isEmpty })

/-- Makes a collection over other items, in a list of its own, that shares the rest. -/
def deriveFrom (a : Address) (xs : List Value) : Action Address := do
  let c ← read a
  Action.alloc (.collection (c.derive (← Action.alloc (.list xs))))

/-- Makes a collection over other items, as a value. -/
def derived (a : Address) (xs : List Value) : Action Value := return .ref (← deriveFrom a xs)

/-- How many items a visit may find beyond those that were there at its start. -/
def growth : Nat := 100000

/-- The items that a collection holds when they are visited. -/
def source (a : Address) : Action Source := do
  return ⟨fun i => return (← itemsOf a)[i]?, (← itemsOf a).length + growth⟩

/-- Visits the items of a collection until the visitor is done. -/
def visit {σ : Type} (a : Address) (init : σ) (f : σ → Value → Nat → Action (Visit σ)) :
    Action σ := do
  (← source a).visit init f

/-- Visits all items of a collection. -/
def fold {σ : Type} (a : Address) (init : σ) (f : σ → Value → Nat → Action σ) : Action σ := do
  (← source a).fold init f

/-- Compiles a query with the custom operators of a collection. -/
def compile (caller : Caller) (a : Address) (spec : Value) : Action Expression := do
  Query.compile caller (.ref (← read a).validators) spec

/-- The list of items that a value stands for: nothing for null, the elements of what can be
iterated, and otherwise the value itself.  Texts, byte strings and mappings are single items. -/
def initialItems (v : Value) : Action (List Value) := do
  match v with
  | .null => return []
  | .str _ => return [v]
  | .bytes _ => return [v]
  | _ =>
    let s := (← get).store
    if s.isMapping v || !s.isIterable v then return [v] else Action.iterate v

/-- How the key of an item is found: at a path, or by a callback. -/
inductive Key where
  | path (p : Value)
  | callback (f : Value)

/-- The key that a method's argument asks for; null asks for the item itself. -/
def Key.of (s : Store) (v : Value) : Key :=
  if s.isCallable v then .callback v
  else match v with
    | .null => .path (.str Path.itself)
    | _ => .path v

/-- The key of an item at an index. -/
def Key.find (caller : Caller) (key : Key) (item : Value) (index : Nat) : Action Value :=
  match key with
  | .path p => Path.value item p
  | .callback f => Callback.call caller f 2 [item, .int index]

/-- The key that a method's argument asks for. -/
def keyOf (v : Value) : Action Key := return Key.of (← get).store v

/-- An action for one of the items that are drawn one by one.  There the announcement that an
iteration has ended is out of place. -/
def drawing {α : Type} (x : Action α) : Action α :=
  tryCatch x fun e => if e.endsIteration then Action.fault .runtime else throw e

/-- The key of an item that is drawn. -/
def Key.draw (caller : Caller) (key : Key) (item : Value) (index : Nat) : Action Value :=
  drawing (key.find caller item index)

/-- A call of one of the collection's own methods: an attribute of that name that a patch has set
comes before the method. -/
def through (caller : Caller) (a : Address) (m : Method) (args : List Value)
    (method : Action Value) : Action Value := do
  match (← read a).fields.lookup m.name with
  | some f => caller f args
  | none => method

/-- A call of a method by its name.  A list has methods that nothing here has a use for; the one to
sort it takes no arguments by position. -/
def callMethod (caller : Caller) (v : Value) (name : String) (args : List Value) :
    Action Value := do
  match ← Action.attribute? v name, (← get).store.view v with
  | some f, _ => caller f args
  | none, some (.list _) => Action.fault (if name = Method.sort.name then .type else .attribute)
  | none, _ => Action.lacking v name

end Collection

end Recordset
