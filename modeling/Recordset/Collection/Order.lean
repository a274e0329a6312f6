import Recordset.Collection.Transform
import Recordset.Sorting.Basic
import Recordset.Text.Lowercase
set_option autoImplicit false

/-!
# Ordering the items

A sort goes by the keys of the items or by a comparator.  By keys, the items without a key go last
in both directions, and keys that have no order among them are refused with the order left as it
was.  By a comparator, the collection shows no items while it is sorted, and a comparator that puts
some in makes the sort fail, also when they are taken out again.
-/

namespace Recordset.Collection

variable (caller : Caller)

/-- The direction that the policy of a collection gives. -/
def policyDirection (a : Address) : Action Direction := do
  match ← Action.cell (← read a).policy with
  | .policy p => return p.direction
  | _ => return .asc

/-- The texts of the two directions. -/
def directionTexts : List Value := [.str Direction.asc.text, .str Direction.desc.text]

/-- The direction of a sort: the given one, in any case of letters, or else the policy's.  A value
that is no text has to give a direction by itself, and is asked twice: once whether it does, and
once which it is. -/
def directionOf (a : Address) (v : Value) : Action Direction := do
  let refused : Action Direction := do
    Action.refuse (.direction (← Action.look (Store.shown · v)))
  match v with
  | .null => policyDirection a
  | .str t =>
    match Direction.ofText? (Text.lower t) with
    | some d => return d
    | none => refused
  | .bytes _ => refused
  | _ => do
    let given ← callMethod caller v "lower" []
    if !(← Action.look (Store.anyEqual · given directionTexts)) then refused
    else if !(← get).store.truth v then policyDirection a
    else
      let given ← callMethod caller v "lower" []
      let descends ← Action.look (Store.equal · given (.str Direction.desc.text))
      return if descends then .desc else .asc

/-- Whether a comparator puts the first item before the second: when it gives less than zero. -/
def before (cmp : Value) : Sorting.Less Value Error (StateM State) := fun x y => do
  let v ← caller cmp [x, y]
  Action.look (Store.compare · .less v (.int 0))

/-- Sorts by a comparator. -/
def sortComparing (a : Address) (cmp : Value) (direction : Direction) : Action Unit := do
  let c ← read a
  let items ← itemsOf a
  Action.fillList c.list []
  Action.write a (.collection { c with grown := false })
  let (sorted, failure) ←
    ExceptT.lift (Sorting.sortTowards (before caller cmp) (direction == .desc) items)
  let changed ← read a
  let left := (← get).store.items c
  Action.fillList c.list sorted
  Action.write a (.collection { changed with grown := c.grown })
  match failure with
  | some e => throw e
  | none => if changed.grown || !left.isEmpty then Action.fault .value else return

/-- The key of an item for a sort, by a callback or at a path. -/
def sortKey (key : Key) (item : Value) : Action Value :=
  match key with
  | .path p => Path.value item p
  | .callback f => Callback.call caller f 1 [item]

/-- The items with their keys, and the items without. -/
structure Keyed where
  keyed : List (Value × Value) := []
  missing : List Value := []

/-- Sorts items with keys by the order of the keys. -/
def sortKeyed (s : Store) (direction : Direction) (xs : List (Value × Value)) :
    Except Error (List (Value × Value)) :=
  let less : Sorting.Less (Value × Value) Error Id := fun x y =>
    ExceptT.mk (pure (s.less x.1 y.1))
  match (Sorting.sortTowards less (direction == .desc) xs).run with
  | (sorted, none) => .ok sorted
  | (_, some (.fault f)) =>
    .error (if f.isType then .refusal (.incomparableKeys f.message) else .fault f)
  | (_, some e) => .error e

/-- Sorts by keys. -/
def sortByKey (a : Address) (key : Key) (direction : Direction) : Action Unit := do
  let found ← fold a ({} : Keyed) fun found item _ => do
    let k ← sortKey caller key item
    if k.isAbsent then return { found with missing := found.missing ++ [item] }
    else return { found with keyed := found.keyed ++ [(k, item)] }
  let sorted ← Action.look fun s => sortKeyed s direction found.keyed
  setItems a (sorted.map (·.2) ++ found.missing)

/-- Sorts a collection by a path, by a callback on an item, or by a comparator of two items. -/
def sort (a : Address) (keyOrCmp direction : Value) : Action Value := do
  let direction ← directionOf caller a direction
  let s := (← get).store
  if s.isCallable keyOrCmp ∧ 2 ≤ Callback.arity s keyOrCmp then
    sortComparing caller a keyOrCmp direction
  else sortByKey caller a (← keyOf keyOrCmp) direction
  return .ref a

/-- A sorted collection of the same items: a copy that is sorted by its own method. -/
def sorted (a : Address) (key : Value) (direction : Direction) : Action Value := do
  let copy ← through caller a .clone [] (clone caller a)
  let args := [key, .str direction.text]
  match copy, (← get).store.view copy with
  | .ref b, some (.collection _) =>
    through caller b .sort args (sort caller b key (.str direction.text))
  | _, _ => callMethod caller copy Method.sort.name args

/-- Puts the items into an order drawn at random. -/
def shuffle (a : Address) : Action Value := do
  setItems a (← drawFrom a (← itemsOf a).length)
  return .ref a

end Recordset.Collection
