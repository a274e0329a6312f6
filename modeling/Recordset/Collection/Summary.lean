import Recordset.Collection.Filter
set_option autoImplicit false

/-!
# Summaries

Grouping, counting, filing and folding the items, and sums, averages and extremes of their keys.
The functions on a `Source` visit each item once, find its key and go on; the methods of a
collection find keys at a path or by a callback.
-/

namespace Recordset

/-- How the key of an item at an index is found. -/
abbrev KeyFinder := Value → Nat → Action Value

namespace Source

/-- The name of the bucket of a key. -/
def bucketOf (key : Value) : Action String := Action.look (Aggregate.bucketName · key)

/-- The items in buckets. -/
def grouped (source : Source) (key : KeyFinder) : Action (Aggregate.Buckets (List Value)) :=
  source.fold [] fun buckets item i => do
    let name ← bucketOf (← key item i)
    return Aggregate.Buckets.add name item buckets

/-- How many items each bucket has. -/
def counted (source : Source) (key : KeyFinder) : Action (Aggregate.Buckets Nat) :=
  source.fold [] fun buckets item i => do
    let name ← bucketOf (← key item i)
    return Aggregate.Buckets.count name buckets

/-- The items under their keys. -/
def filed (source : Source) (key : KeyFinder) : Action Entries :=
  source.fold [] fun entries item i => do
    let k ← key item i
    Action.look fun s => Aggregate.file s entries k item

/-- The items that pass a test, and those that do not. -/
def parted (source : Source) (test : Value → Nat → Action Bool) :
    Action (List Value × List Value) :=
  source.fold ([], []) fun (passed, failed) item i => do
    if ← test item i then return (passed ++ [item], failed) else return (passed, failed ++ [item])

/-- The last result of a function that is given its previous result and the next item. -/
def reduced (source : Source) (f : Value → Value → Nat → Action Value) (initial : Value) :
    Action Value :=
  source.fold initial f

/-- The running sum of the keys. -/
def summed (source : Source) (key : KeyFinder) : Action Aggregate.Sum :=
  source.fold {} fun sum item i => do
    let k ← key item i
    Action.ofExcept (sum.add k)

/-- The least or the greatest key, null without any. -/
def extreme (source : Source) (c : Comparison) (key : KeyFinder) : Action Value :=
  source.fold .null fun current item i => do
    let k ← key item i
    Action.look fun s => Aggregate.extreme s c current k

end Source

namespace Collection

variable (caller : Caller)

/-- Buckets as a mapping. -/
def bucketEntries (buckets : Aggregate.Buckets Value) : Action Value :=
  Action.make (.dict (buckets.map fun (name, v) => (.str name, v)))

/-- The items in collections by the texts of their keys. -/
def groupBy (a : Address) (keyOrFn : Value) : Action Value := do
  let key ← keyOf keyOrFn
  let groups ← (← source a).grouped (key.find caller)
  bucketEntries (← groups.mapM fun (name, xs) => return (name, ← derived a xs))

/-- How many items have each text as their key. -/
def countBy (a : Address) (keyOrFn : Value) : Action Value := do
  let key ← keyOf keyOrFn
  let counts ← (← source a).counted (key.find caller)
  bucketEntries (counts.map fun (name, n) => (name, .int n))

/-- The items under their keys. -/
def keyBy (a : Address) (keyOrFn : Value) : Action Value := do
  let key ← keyOf keyOrFn
  Action.make (.dict (← (← source a).filed (key.find caller)))

/-- The items that satisfy a query, and those that do not. -/
def partition (a : Address) (spec : Value) : Action Value := do
  let e ← compile caller a spec
  let (passed, failed) ← (← source a).parted fun item i => e.test caller item i
  let passed ← derived a passed
  let failed ← derived a failed
  Action.make (.tuple [passed, failed])

/-- The last result of a callback that is given its previous result, an item and its index. -/
def reduce (a : Address) (f initial : Value) : Action Value := do
  (← source a).reduced (fun acc item i => Callback.call caller f 3 [acc, item, .int i]) initial

/-- The sum of the keys. -/
def sum (a : Address) (keyOrFn : Value) : Action Value := do
  let key ← keyOf keyOrFn
  (← (← source a).summed (key.draw caller)).result

/-- The average of the keys. -/
def avg (a : Address) (keyOrFn : Value) : Action Value := do
  let key ← keyOf keyOrFn
  (← (← source a).summed (key.draw caller)).average

/-- The least or the greatest of the keys. -/
def extreme (c : Comparison) (a : Address) (keyOrFn : Value) : Action Value := do
  let key ← keyOf keyOrFn
  (← source a).extreme c (key.draw caller)

/-- How many items there are, or how many satisfy a query. -/
def count (a : Address) (spec : Value) : Action Value := do
  match spec with
  | .null => return .int (← itemsOf a).length
  | _ =>
    let found ← through caller a .filter [spec] (filter caller a spec)
    return .int (← Action.iterate (← Action.attributeOf found "_items")).length

end Collection

end Recordset
