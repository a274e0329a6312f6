import Recordset.Collection.Visit
set_option autoImplicit false

/-!
# Making collections from collections

None of these methods changes the collection it is called on.
-/

namespace Recordset.Collection

variable (caller : Caller)

/-- A collection that shares everything but the items, which are its own or the given ones. -/
def collect (a : Address) (v : Value) : Action Value := do
  match v with
  | .null => derived a (← itemsOf a)
  | _ => derived a (← initialItems v)

/-- A collection of the same items. -/
def clone (a : Address) : Action Value := through caller a .collect [] (collect a .null)

/-- What a callback gives for each item and its index. -/
def map (a : Address) (f : Value) : Action Value := do
  let results ← fold a [] fun results item i => do
    return results ++ [← drawing (Callback.call caller f 2 [item, .int i])]
  derived a results

/-- Calls a callback with each of the items that were there at the start, until it gives false. -/
def eachOf (f : Value) : Nat → List Value → Action Unit
  | _, [] => return
  | i, item :: rest => do
    match ← Callback.call caller f 2 [item, .int i] with
    | .bool false => return
    | _ => eachOf f (i + 1) rest

/-- Calls a callback with each item and its index, until it gives false. -/
def each (a : Address) (f : Value) : Action Value := do
  eachOf caller f 0 (← itemsOf a)
  return .ref a

/-- The keys seen by `unique`: those that can be keys, and the others. -/
structure Seen where
  keys : List Value := []
  others : List Value := []
  kept : List Value := []

/-- Keeps an item unless its key has been seen. -/
def Seen.add (s : Store) (seen : Seen) (key item : Value) : Except Error Seen :=
  if s.isKey key then
    if seen.keys.any fun k => s.sameKey k key then .ok seen
    else .ok { seen with keys := seen.keys ++ [key], kept := seen.kept ++ [item] }
  else do
    if ← s.anyEqual key seen.others then return seen
    else return { seen with others := seen.others ++ [key], kept := seen.kept ++ [item] }

/-- The items whose keys have not come up before. -/
def unique (a : Address) (keyOrFn : Value) : Action Value := do
  let key ← keyOf keyOrFn
  let seen ← fold a {} fun seen item i => do
    let k ← key.find caller item i
    Action.look fun s => Seen.add s seen k item
  derived a seen.kept

/-- A list cut into pieces of `size`, the last one shorter where it has to be. -/
def pieces {α : Type} (size : Nat) : Nat → List α → List (List α)
  | 0, _ => []
  | fuel + 1, xs =>
    match xs with
    | [] => []
    | _ => xs.take size :: pieces size fuel (xs.drop size)

/-- A collection of collections of `size` items each. -/
def chunk (a : Address) (size : Value) : Action Value := do
  match size with
  | .int n =>
    if 1 ≤ n then
      let xs ← itemsOf a
      derived a (← (pieces n.toNat xs.length xs).mapM (derived a))
    else refused
  | _ => refused
where
  /-- Refuses a size that is no positive whole number. -/
  refused : Action Value := do
    Action.refuse (.chunkSize (← Action.look (Store.shown · size)))

/-- The items between two positions. -/
def slice (a : Address) (start stop : Value) : Action Value := do
  let low ← Action.ofExcept (sliceBound start)
  let high ← Action.ofExcept (sliceBound stop)
  derived a (Slice.take (← itemsOf a) low high)

/-- The elements of a list a step apart between two positions. -/
def everyOf (xs : List Value) (start stop step : Value) : Action (List Value) := do
  let low ← Action.ofExcept (sliceBound start)
  let high ← Action.ofExcept (sliceBound stop)
  let apart ← Action.ofExcept (sliceBound step)
  match apart.getD 1 with
  | 0 => Action.fault .value
  | n => return Slice.takeEvery xs low high n

/-- The items a step apart between two positions. -/
def sliceEvery (a : Address) (start stop step : Value) : Action Value := do
  derived a (← everyOf (← itemsOf a) start stop step)

/-- The items in the opposite order. -/
def reverse (a : Address) : Action Value := do derived a (← itemsOf a).reverse

/-- The items that several values stand for, one after another. -/
def concatAll : List Value → List Value → Action (List Value)
  | xs, [] => return xs
  | xs, v :: vs => do concatAll (xs ++ (← initialItems v)) vs

/-- The items followed by those that other values stand for. -/
def concat (a : Address) (others : List Value) : Action Value := do
  derived a (← concatAll (← itemsOf a) others)

/-- Appends the items that are not there yet. -/
def addMissing (s : Store) (xs : List Value) : List Value → Except Error (List Value)
  | [] => return xs
  | v :: vs => do
    if ← s.anyEqual v xs then addMissing s xs vs else addMissing s (xs ++ [v]) vs

/-- The items followed by those of another value that are not there yet. -/
def union (a : Address) (other : Value) : Action Value := do
  let xs ← itemsOf a
  let more ← initialItems other
  derived a (← Action.look fun s => addMissing s xs more)

/-- Whether a value is less than one. -/
def belowOne (v : Value) : Action Bool := Action.look (Store.compare · .less v (.int 1))

/-- A page number or a page size as a whole number. -/
def whole (v : Value) : Action Int := do
  match v.index? with
  | some n => return n
  | none => Action.fault .type

/-- One page of items, and the numbers of the pages beside it. -/
def paginate (a : Address) (page perPage : Value) : Action Value := do
  let c ← read a
  let perPage ← match perPage with
    | .null =>
      match ← Action.cell c.policy with
      | .policy p => pure p.perPage
      | _ => pure .null
    | v => pure v
  let tooLow ← if ← belowOne page then pure true else belowOne perPage
  if tooLow then
    Action.refuse (.page (← Action.look (Store.text · page)) (← Action.look (Store.text · perPage)))
  else
    let number ← whole page
    let size ← whole perPage
    let items ← itemsOf a
    let part ← derived a (Slice.take items (some ((number - 1) * size)) (some (number * size)))
    let prev := if number ≤ 1 then .bool false else .int (number - 1)
    let next := if number * size < items.length then .int (number + 1) else .bool false
    Action.make (.dict [(.str "items", part), (.str "prev", prev), (.str "next", next)])

/-- Draws `count` of the items, each at most once. -/
def draw : Nat → Generator → List Value → List Value × Generator
  | 0, g, _ => ([], g)
  | count + 1, g, xs =>
    if xs.isEmpty then ([], g)
    else
      let (i, g) := g.below xs.length
      let (rest, g) := draw count g (xs.eraseIdx i)
      ((xs[i]?).toList ++ rest, g)

/-- Draws items with the source of random numbers of a collection. -/
def drawFrom (a : Address) (count : Nat) : Action (List Value) := do
  let c ← read a
  match ← Action.cell c.generator with
  | .generator g =>
    let (drawn, g) := draw count g ((← get).store.items c)
    Action.write c.generator (.generator g)
    return drawn
  | _ => Action.fault .attribute

/-- The number of items to draw: the given one, but not less than none nor more than all. -/
def drawCount (s : Store) (count : Value) (size : Nat) : Except Error Nat := do
  let capped ← if ← s.compare .less (.int size) count then pure (Value.int size) else pure count
  let count ← if ← s.compare .greater capped (.int 0) then pure capped else pure (Value.int 0)
  match count.index? with
  | some n => return n.toNat
  | none => throw (.fault .type)

/-- An item drawn at random, null without any; or a collection of several. -/
def random (a : Address) (count : Value) : Action Value := do
  match count with
  | .null => return (← drawFrom a 1).head?.getD .null
  | _ =>
    let size := (← itemsOf a).length
    let n ← Action.look fun s => drawCount s count size
    derived a (← drawFrom a n)

end Recordset.Collection
