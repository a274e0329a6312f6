import Recordset.Collection.Request
import Recordset.Sorting.Basic
import Recordset.Value.Shown
set_option autoImplicit false

/-!
# Builtin functions

The functions that every callback can name.  A call with other numbers or kinds of arguments is a
fault.
-/

namespace Recordset.Builtin

/-- The fault of a text that is no whole number. -/
def ofReading (r : Except Text.IntegerFault Int) : Action Value :=
  match r with
  | .ok n => pure (.int n)
  | .error _ => Action.fault .value

/-- A value as a whole number. -/
def whole (v : Value) : Action Value :=
  match v with
  | .str t => ofReading (Text.readInteger t)
  | .bytes bs => ofReading (Text.readIntegerBytes bs)
  | .nan _ => Action.fault .value
  | .float x =>
    match Number.truncate x with
    | .ok n => pure (.int n)
    | .error .infinite => Action.fault .overflow
    | .error .notANumber => Action.fault .value
  | _ =>
    match v.index? with
    | some n => pure (.int n)
    | none => Action.fault .type

/-- Values with the keys that they are compared by. -/
abbrev Ranked := List (Value × Value)

/-- The first of some values whose key compares as asked with those of all before it. -/
def best (c : Comparison) (first : Value × Value) (rest : Ranked) : Action Value := do
  let found ← Action.look fun s => rest.foldlM (fun top next => do
    return if ← s.compare c next.1 top.1 then next else top) first
  return found.2

/-- Values with their keys: the values themselves, or what a function gives for them. -/
def ranked (caller : Caller) (key : Value) (vs : List Value) : Action Ranked :=
  match key with
  | .null => pure (vs.map fun v => (v, v))
  | f => vs.mapM fun v => do return (← caller f [v], v)

/-- The value among others that compares as asked with those before it. -/
def extreme (caller : Caller) (c : Comparison) (key : Value) (vs : List Value) : Action Value := do
  match ← ranked caller key vs with
  | [] => Action.fault .value
  | first :: rest => best c first rest

/-- The elements that a function of one or several arguments is about. -/
def candidates (args : List Value) : Action (List Value) :=
  match args with
  | [] => Action.fault .type
  | [v] => Action.iterate v
  | vs => pure vs

/-- The extreme of one or several arguments; a default is for one argument without elements. -/
def extremeOf (caller : Caller) (c : Comparison) (args : List Value)
    (named : List (String × Value)) : Action Value := do
  let key := (named.lookup "key").getD .null
  match args, named.lookup "default" with
  | _, none => do extreme caller c key (← candidates args)
  | [v], some default => do
    let vs ← Action.iterate v
    if vs.isEmpty then return default else extreme caller c key vs
  | _, some _ => Action.fault .type

/-- The sum of elements, added to a start that is no text. -/
def total (caller : Caller) (v start : Value) : Action Value := do
  match start with
  | .str _ | .bytes _ => Action.fault .type
  | _ => do (← Action.iterate v).foldlM (Request.joinTo caller) start

/-- The elements of a container in ascending order, or descending. -/
def ascending (caller : Caller) (v key backwards : Value) : Action Value := do
  let keyed ← ranked caller key (← Action.iterate v)
  let s := (← get).store
  let less : Sorting.Less (Value × Value) Error Id := fun x y => ExceptT.mk (pure (s.less x.1 y.1))
  match (Sorting.sortTowards less (s.truth backwards) keyed).run with
  | (pairs, none) => Action.make (.list (pairs.map (·.2)))
  | (_, some e) => throw e

/-- Whether a value is of a kind that a builtin function names. -/
def isOfKind (v : Value) : Builtin → Option Bool
  | str => some (v matches .str _)
  | bool => some v.isBool
  | int => some v.index?.isSome
  | _ => none

/-- The arguments of a builtin function that can be given by name. -/
def names : Builtin → List String
  | sum => ["start"]
  | max | min => ["key", "default"]
  | sorted => ["key", "reverse"]
  | _ => []

/-- Calls a builtin function. -/
def call (caller : Caller) (b : Builtin) (a : Arguments) : Action Value := do
  if a.named.any fun (name, _) => !(names b).contains name then Action.fault .type
  else
    let given (name : String) (default : Value) : Value := (a.named.lookup name).getD default
    match b, a.positional with
    | len, [v] => return .int (← Action.look (Store.length · v))
    | str, [] => return .str ""
    | str, [v] => return .str (← Action.look (Store.text · v))
    | abs, [v] =>
      match v.number? with
      | some n => Action.number n.abs
      | none => Action.fault .type
    | bool, [] => return .bool false
    | bool, [v] => return .bool ((← get).store.truth v)
    | int, [] => return .int 0
    | int, [v] => whole v
    | max, vs => extremeOf caller .greater vs a.named
    | min, vs => extremeOf caller .less vs a.named
    | sum, [v] => total caller v (given "start" (.int 0))
    | sum, [v, start] => if a.named.isEmpty then total caller v start else Action.fault .type
    | repr, [v] => return .str (← Action.look (Store.shown · v))
    | sorted, [v] => ascending caller v (given "key" .null) (given "reverse" (.bool false))
    | isInstance, [v, .builtin kind] =>
      match isOfKind v kind with
      | some b => return .bool b
      | none => Action.fault .type
    | _, _ => Action.fault .type

end Recordset.Builtin
