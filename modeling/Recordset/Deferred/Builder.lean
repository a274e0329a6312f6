import Recordset.Value.Equal
import Recordset.Value.Shown
set_option autoImplicit false

/-!
# Building a deferred query

A builder answers to many methods of a collection by a builder that has recorded one operation
more.  An argument that is left out is recorded only when one that is given follows it, and then as
null.
-/

namespace Recordset.Builder

/-- The name under which a method is recorded. -/
def recordedName : Method → String
  | .except => "not"
  | m => m.name

/-- Arguments without the missing ones at the end; those before become null. -/
def trim (args : List Value) : List Value :=
  ((args.reverse.dropWhile Value.isMissing).reverse).map fun v => if v.isMissing then .null else v

/-- The operation of some parts. -/
def operation (parts : List Value) : Action Operation := do
  return ⟨parts, ← Action.make (.tuple parts)⟩

/-- The builder with one operation more. -/
def record (b : Builder) (o : Operation) : Action Builder := do
  let operations := b.operations ++ [o]
  let shown ← Action.make (.tuple (operations.map Operation.shown))
  return { b with operations, shown, execution := none }

/-- Records a call of a method. -/
def chain (b : Builder) (m : Method) (args : Arguments) : Action Builder := do
  let values ← Action.ofExcept ((signature m).bind args)
  b.record (← operation (.str (recordedName m) :: trim values))

/-- Makes a builder; an executor has to be callable. -/
def make (executor validators : Value) (operations : List Operation) : Action Value := do
  let s := (← get).store
  if s.isCallable executor then
    let shown ← Action.make (.tuple (operations.map Operation.shown))
    Action.make (.builder { executor, validators, operations, shown })
  else Action.refuse (.notAnExecutor (s.kind executor))

/-- The names of custom operators, sorted. -/
def validatorNames (s : Store) (validators : Value) : List String :=
  (((s.entries? validators).getD []).filterMap (·.1.str?)).mergeSort fun a b => a ≤ b

/-- A summary in one line. -/
def summary (b : Builder) : Except Error String := do
  if b.operations.isEmpty then return "ops: <none>"
  else return "ops:" ++ (← Store.operationsShown b.operations)

/-- A recorded operation with its arguments written. -/
def describe (o : Operation) : Action Value := do
  let name ← Action.ofExcept o.name
  let written ← o.args.mapM fun v => Action.look (Store.shown · v)
  let args ← Action.make (.list (written.map .str))
  Action.make (.dict [(.str "op", name), (.str "args", args)])

/-- The name of an executor: that of a builtin function, that of a method behind the name of what it
is a method of, and otherwise that of its kind. -/
def executorName (s : Store) (v : Value) : String :=
  match v with
  | .builtin f => Store.builtinName f
  | .method _ a name => s.kind (.ref a) ++ "." ++ name
  | _ => s.kind v

/-- A summary as a mapping. -/
def details (b : Builder) : Action Value := do
  let s := (← get).store
  let names ← Action.make (.list ((validatorNames s b.validators).map .str))
  let operations ← Action.make (.list (← b.operations.mapM describe))
  Action.make (.dict [(.str "executor", .str (executorName s b.executor)),
    (.str "validators", names), (.str "operations", operations)])

/-- Describes the recorded operations without running them, as a mapping or in one line. -/
def explain (b : Builder) (format : Value) : Action Value := do
  if ← Action.look (Store.equal · format (.str "json")) then b.details
  else return .str (← Action.ofExcept b.summary)

end Recordset.Builder
