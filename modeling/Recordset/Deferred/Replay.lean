import Recordset.Collection.Perform
import Recordset.Deferred.Builder
import Recordset.Value.Copy
set_option autoImplicit false

/-!
# Executors

An executor is called with a context: the recorded operations, the custom operators and the
circumstances.  One over a list of items replays the operations one after another on a new
collection over a copy of the items.  The first operation that gives something other than a
collection is the last one: nothing may follow it.  A recording executor keeps each context it is
given, and answers as it was told to.
-/

namespace Recordset

namespace Context

/-- A context of recorded operations. -/
def make (shown validators : Value) (count : Nat) : Action Value := do
  let depth := Value.int count
  let metadata ← Action.make
    (.record .metadata [("operation_count", depth), ("chain_depth", depth)])
  Action.make (.record .context
    [("operations", shown), ("validators", validators), ("metadata", metadata)])

/-- The time zone in which the time of an execution is kept. -/
def timeZone (metadata : Value) : Action Value := do
  match (← get).store.view metadata with
  | some (.record .metadata _) => return .str "UTC"
  | _ => Action.lacking metadata "created_at"

/-- A context as a mapping. -/
def describe (context : Value) : Action Value := do
  let operations ← Action.attributeOf context "operations"
  let given ← Action.attributeOf context "validators"
  let names := Builder.validatorNames (← get).store given
  let validators ← if names.isEmpty then pure .null else Action.make (.list (names.map .str))
  let metadata ← Action.attributeOf context "metadata"
  let count ← Action.attributeOf metadata "operation_count"
  let depth ← Action.attributeOf metadata "chain_depth"
  Action.make (.dict [(.str "operations", operations), (.str "validators", validators),
    (.str "operation_count", count), (.str "chain_depth", depth),
    (.str "utc", ← timeZone metadata)])

end Context

namespace Executor

/-- The method that a recorded name stands for. -/
def methodName (name : String) : String := if name = "not" then Method.name .except else name

/-- The name and the arguments of a recorded operation. -/
def parts (operation : Value) : Action (Value × List Value) := do
  let s := (← get).store
  let name ← Action.ofExcept (s.item operation (.int 0))
  match s.view operation with
  | some (.dict _) | some (.frozen _) => Action.fault .type
  | _ => return (name, (← Action.ofExcept (s.elements operation)).drop 1)

/-- Carries out a recorded operation on a collection. -/
def perform (caller : Caller) (current name : Value) (args : List Value) : Action Value := do
  let unknown : Action Value := do
    Action.refuse (.unknownOperation (← Action.look (Store.text · name)))
  match name with
  | .str t => do
    let method := methodName t
    match ← Action.attribute? current method, Request.ofSpecialName? method with
    | some f, _ => if (← get).store.isCallable f then caller f args else unknown
    | none, some r => r.answer caller current args
    | none, none => unknown
  | _ => Action.fault .type

/-- Carries out operations from left to right; only the last one may give something other than a
collection. -/
def replay (caller : Caller) (current : Value) : List Value → Action Value
  | [] => return current
  | operation :: rest => do
    let (name, args) ← parts operation
    let next ← perform caller current name args
    match rest, (← get).store.collection? next with
    | [], _ => return next
    | _ :: _, some _ => replay caller next rest
    | after :: _, none => do
      let (following, _) ← parts after
      Action.refuse (.afterTerminal (← Action.look (Store.text · following))
        (← Action.look (Store.text · name)))

/-- The policy of the collections that an executor makes. -/
def policyOf (policy : Value) : Action (Option Address) := do
  let s := (← get).store
  match policy, s.view policy with
  | .ref a, some (.policy _) => return some a
  | _, _ => if s.truth policy then Action.fault .attribute else return none

/-- Replays the operations of a context over a copy of items. -/
def runOver (caller : Caller) (items policy context : Value) : Action Value := do
  let copies ← Action.deepCopy [items]
  let validators ← Action.attributeOf context "validators"
  let a ← Collection.construct (copies.headD .null) validators (← policyOf policy) none
  let operations ← Action.iterate (← Action.attributeOf context "operations")
  let result ← replay caller (.ref a) operations
  let _ ← Action.look (Store.length · items)
  Action.plain result

/-- The operations of a context as lists. -/
def echo (context : Value) : Action Value := do
  let operations ← Action.iterate (← Action.attributeOf context "operations")
  Action.make (.list (← operations.mapM fun o => do Action.make (.list (← Action.iterate o))))

/-- What a recording executor gives. -/
def behave (b : Behaviour) (value context : Value) : Action Value :=
  match b with
  | .echo => echo context
  | .give => pure value
  | .fail kind message => throw (.raised kind message)
  | .giveLater => Action.make (.work (.ok value))
  | .failLater kind message => Action.make (.work (.error (.raised kind message)))
  | .cancelLater => Action.make (.work (.error .cancelled))

/-- Calls an executor with a context, or with any other value that takes its place. -/
def call (caller : Caller) (a : Address) (e : Executor) (args : List Value) : Action Value := do
  match e, args with
  | .memory items policy, [context] => runOver caller items policy context
  | .recorder b value contexts, [context] => do
    Action.write a (.executor (.recorder b value (contexts ++ [context])))
    behave b value context
  | _, _ => Action.fault .type

end Executor

end Recordset
