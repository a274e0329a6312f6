import Recordset.Collection.Visit
import Recordset.Value.Arithmetic
import Recordset.Value.Patch
set_option autoImplicit false

/-!
# Changing a collection

These methods change the collection they are called on.  An update by a patch changes a mapping in
place, so that every collection that shares the item sees it; a mapping that nobody can change is
replaced in this collection only.
-/

namespace Recordset.Collection

variable (caller : Caller)

/-- Drops the items that satisfy a query. -/
def delete (a : Address) (spec : Value) : Action Value := do
  let e ← compile caller a spec
  let kept ← fold a [] fun kept item i => do
    if ← e.test caller item i then return kept else return kept ++ [item]
  setItems a kept
  return .ref a

/-- The item that an update puts in the place of another. -/
def updated (patch item : Value) (index : Nat) : Action Value := do
  match (← get).store.entries? patch with
  | some es => Action.merge item es
  | none => Callback.call caller patch 2 [item, .int index]

/-- Whether an update without a query, or with a compiled one, is for an item. -/
def concerns (test : Option Expression) (item : Value) (index : Nat) : Action Bool :=
  match test with
  | none => pure true
  | some e => e.test caller item index

/-- Updates all items, or those that satisfy a query, by a patch or by a callback. -/
def update (a : Address) (args : List Value) : Action Value := do
  let (spec, patch) ← match args with
    | [patch] => pure (Value.null, patch)
    | [spec, patch] => pure (spec, patch)
    | _ => Action.refuse (.updateArguments args.length)
  let s := (← get).store
  if !s.isCallable patch && !s.isMapping patch then Action.refuse (.notAPatch (s.kind patch))
  else
    let test ← match spec with
      | .null => pure none
      | _ => do pure (some (← compile caller a spec))
    fold a () fun _ item i => do
      if ← concerns caller test item i then
        Action.assign (.ref a) (.int i) (← updated caller patch item i)
    return .ref a

/-- The paths that several arguments name; a list or a tuple names each of its elements. -/
def namedPaths (s : Store) (keys : List Value) : List Value :=
  keys.flatMap fun k => (s.sequence? k).getD [k]

/-- A copy of an item without the fields at several paths. -/
def withoutAll : List Value → Value → Action Value
  | [], item => pure item
  | path :: rest, item => do withoutAll rest (← Path.without item path)

/-- Drops fields from every item. -/
def forget (a : Address) (keys : List Value) : Action Value := do
  let paths := namedPaths (← get).store keys
  let changed ← fold a [] fun changed item _ => do
    return changed ++ [← withoutAll paths item]
  setItems a changed
  return .ref a

/-- Appends items. -/
def push (a : Address) (xs : List Value) : Action Value := do
  setItems a ((← itemsOf a) ++ xs)
  return .ref a

/-- Puts items in front. -/
def unshift (a : Address) (xs : List Value) : Action Value := do
  setItems a (xs ++ (← itemsOf a))
  return .ref a

/-- Takes the last item off; null when there is none. -/
def pop (a : Address) : Action Value := do
  let xs ← itemsOf a
  setItems a xs.dropLast
  return xs.getLast?.getD .null

/-- Takes the first item off; null when there is none. -/
def shift (a : Address) : Action Value := do
  let xs ← itemsOf a
  setItems a (xs.drop 1)
  return xs.head?.getD .null

/-- A value, or the bound when the bound is greater. -/
def atLeast (bound : Int) (v : Value) : Action Value := do
  if ← Action.look (Store.compare · .greater (.int bound) v) then return .int bound else return v

/-- A value, or the bound when the bound is less. -/
def atMost (bound : Int) (v : Value) : Action Value := do
  if ← Action.look (Store.compare · .less (.int bound) v) then return .int bound else return v

/-- Where a splice starts: counted from the end when negative, and within the items. -/
def spliceStart (length : Nat) (start : Value) : Action Value := do
  let start ←
    if ← Action.look (Store.compare · .less start (.int 0)) then do
      atLeast 0 (← Action.binary .add (.int length) start)
    else pure start
  atMost length start

/-- Where a splice ends. -/
def spliceEnd (length : Nat) (start count : Value) : Action Value := do
  match count with
  | .null => return .int length
  | _ => do Action.binary .add start (← atLeast 0 count)

/-- Takes so many items out from a place on, puts others there, and gives the ones taken out. -/
def splice (a : Address) (start count : Value) (new : List Value) : Action Value := do
  let xs ← itemsOf a
  let start ← spliceStart xs.length start
  let stop ← spliceEnd xs.length start count
  let low ← Action.ofExcept (sliceBound start)
  let high ← Action.ofExcept (sliceBound stop)
  setItems a (Slice.splice xs low high new)
  derived a (Slice.take xs low high)

end Recordset.Collection
