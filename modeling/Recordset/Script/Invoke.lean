import Recordset.Deferred.Execution
import Recordset.Script.Builtins
set_option autoImplicit false

/-!
# Calling methods by name

`invoke` finds the method of a name on any value: a request that every container answers, a method
of the value's kind, an attribute that can be called, or an extension.  `callWith` calls a value
with arguments by position and by name.
-/

namespace Recordset.Invoke

/-- A request, which takes its arguments by position only. -/
def request (caller : Caller) (r : Request) (v : Value) (args : Arguments) : Action Value :=
  if args.named.isEmpty then r.answer caller v args.positional else Action.fault .type

/-- The name of an attribute from the arguments of a request. -/
def attributeName (args : Arguments) : Action String :=
  match args with
  | ⟨[.str name], []⟩ => pure name
  | _ => Action.fault .type

/-- Whether a value is the one given as the only argument. -/
def isSame (v : Value) (args : Arguments) : Action Value :=
  match args with
  | ⟨[other], []⟩ => pure (.bool (v.same other))
  | _ => Action.fault .type

/-- The names that a value gives when it is iterated. -/
def nameList (v : Value) : Action (List String) := do
  let s := (← get).store
  let xs ← Action.iterate v
  if xs.all s.isKey then return xs.filterMap Value.str? else Action.fault .type

/-- Sorted names as a list. -/
def sortedNames (names : List String) : Action Value := do
  Action.make (.list ((Registry.sortNames names).map .str))

/-- Calls a method of a registry. -/
def onRegistry (a : Address) (name : String) (args : Arguments) : Action Value := do
  let s := (← get).store
  match Registry.methods.lookup name with
  | none => Action.fault .attribute
  | some signature =>
    match name, ← Action.ofExcept (signature.bind args) with
    | "register", [key, f] => do
      Registry.register a key f
      return .null
    | "reserve", [names] => do
      Registry.reserveAll a (← nameList names)
      return .null
    | "get", [key] =>
      match key with
      | .str t =>
        match Registry.lookup s a t with
        | some f => return f
        | none => Action.alongChain a (pure .null)
      | _ => if s.isKey key then return .null else Action.fault .type
    | "child", [reserved] => do
      let names ← if reserved.isMissing then pure [] else nameList reserved
      return .ref (← Registry.make (some a) names)
    | "names", _ => Action.alongChain a (sortedNames (Registry.names s a))
    | _, _ => Action.fault .type

/-- Calls a method of a builder. -/
def onBuilder (caller : Caller) (a : Address) (b : Builder) (name : String) (args : Arguments) :
    Action Value := do
  match Builder.ofName? name, Builder.others.lookup name with
  | some m, _ => do Action.make (.builder (← b.chain m args))
  | none, some signature =>
    match name, ← Action.ofExcept (signature.bind args) with
    | "explain", [format] => b.explain format
    | "run", [] => Builder.await caller a
    | _, _ => Action.fault .type
  | none, none => Action.fault .attribute

/-- Calls a method of a shared value, past all attributes that have been set on it. -/
def onCell (caller : Caller) (a : Address) (name : String) (args : Arguments) : Action Value := do
  match ← Action.cell a, Method.ofName? name with
  | .collection _, some m => Collection.invoke caller a m args
  | .builder b, _ => onBuilder caller a b name args
  | .registry _, _ => onRegistry a name args
  | _, _ => Action.fault .attribute

end Invoke

/-- Calls a value with arguments by position and by name. -/
def callWith (caller : Caller) (f : Value) (args : Arguments) : Action Value :=
  match f with
  | .builtin b => b.call caller args
  | .extension _ g receiver =>
    callWith caller g { args with positional := receiver :: args.positional }
  | .method _ a name => Invoke.onCell caller a name args
  | _ =>
    match args with
    | ⟨positional, []⟩ => caller f positional
    | ⟨[], [("context", context)]⟩ => caller f [context]
    | _ => Action.fault .type

namespace Invoke

/-- Calls what a value has under a name: an attribute, or the request with this special name. -/
def onAttribute (caller : Caller) (v : Value) (name : String) (args : Arguments) :
    Action Value := do
  match ← Action.attribute? v name, Request.ofSpecialName? name with
  | some f, _ => callWith caller f args
  | none, some r => request caller r v args
  | none, none => Action.lacking v name

/-- Calls the method of a name on a value, when it is no request. -/
def onValue (caller : Caller) (v : Value) (name : String) (args : Arguments) : Action Value := do
  let s := (← get).store
  match name, v, s.view v, args with
  | "attr", _, _, _ => do Action.attributeOf v (← attributeName args)
  | "is", _, _, _ => isSame v args
  | "append", .ref a, some (.list xs), ⟨[x], []⟩ => do
    Action.write a (.list (xs ++ [x]))
    return .null
  | "append", _, some (.list _), _ => Action.fault .type
  | "await", .ref a, some (.builder _), ⟨[], []⟩ => Builder.await caller a
  | "cancel", .ref a, some (.builder _), ⟨[], []⟩ => Builder.cancel caller a
  | "reserved", .ref a, some (.registry _), ⟨[], []⟩ =>
    Action.alongChain a (sortedNames (Registry.reservedNames s a))
  | "contexts", _, some (.executor (.recorder _ _ contexts)), ⟨[], []⟩ => do
    Action.make (.list (← contexts.mapM Context.describe))
  | _, _, _, _ => onAttribute caller v name args

end Invoke

/-- Calls the method of a name on a value. -/
def invoke (caller : Caller) (v : Value) (name : String) (args : Arguments) : Action Value :=
  match Request.ofName? name with
  | some r => Invoke.request caller r v args
  | none => Invoke.onValue caller v name args

end Recordset
