import Recordset.Pattern.Reader
import Recordset.Policy.Make
import Recordset.Script.Invoke
import Recordset.Value.Observe
set_option autoImplicit false

/-!
# Evaluating callbacks

`Expr.eval` evaluates an expression with the arguments of a call, from left to right.  `apply`
calls any function with arguments; a callback that is given too few or too many is a fault.

Callbacks can call each other without end, so `apply` bounds the depth of calls.
-/

namespace Recordset

/-- The arguments of a call, and those of the call that the callback was made in, if there is
one. -/
structure Frame where
  args : List Value := []
  outer : Option (List Value) := none

namespace Frame

/-- An argument of the call; one that was not passed is null. -/
def arg (f : Frame) (i : Int) : Value :=
  ((Slice.place? f.args.length i).bind (f.args[·]?)).getD .null

/-- An argument of the enclosing call, which has to be there. -/
def outerArg (f : Frame) (i : Int) : Except Error Value :=
  itemAt (f.outer.getD []) (.int i)

end Frame

namespace Action

/-- Records what a value looks like now. -/
def record (v : Value) : Action Unit :=
  modify fun s => { s with log := s.store.observe v :: s.log }

/-- A set of values; each of them has to be able to be a key. -/
def makeSet (vs : List Value) : Action Value := do
  let s := (← get).store
  if vs.all s.isKey then make (.set (s.setOf vs)) else fault .type

/-- The entries of a mapping with these keys and values; each key has to be able to be one. -/
def makeEntries (keys values : List Value) : Action Entries := do
  let s := (← get).store
  if keys.all s.isKey then return Entries.ofList s (keys.zip values) else fault .type

/-- A collection over items with no operators, policy or extensions of its own. -/
def makeCollection (items : List Value) : Action Value := do
  return .ref (← Collection.construct (← make (.list items)) .null none none)

/-- An executor over the items that a value gives; a false value gives none. -/
def makeMemory (items policy : Value) : Action Value := do
  let items ← if (← get).store.truth items then iterate items else pure []
  make (.executor (.memory (← make (.list items)) policy))

end Action

namespace Expr

mutual
/-- The value of an expression. -/
def eval (caller : Caller) (frame : Frame) : Expr → Action Value
  | lit v => pure v
  | bound name => Action.lookup name
  | nan => Action.number (.float Number.notANumber)
  | pattern source ignoreCase =>
    match Pattern.compile? source ignoreCase with
    | some p => pure (.pattern p)
    | none => Action.fault .pattern
  | hostile => Action.make .hostile
  | unsteady => Action.make (.custom .unsteady [])
  | arg i => pure (frame.arg i)
  | args => Action.make (.list frame.args)
  | outer i => Action.ofExcept (frame.outerArg i)
  | get e path => do
    let v ← eval caller frame e
    let p ← eval caller frame path
    Path.resolve v p .null
  | item e key => do
    let v ← eval caller frame e
    let k ← eval caller frame key
    Action.look (Store.item · v k)
  | binary op left right => do
    let a ← eval caller frame left
    let b ← eval caller frame right
    match op with
    | .add => Request.joinTo caller a b
    | _ => Action.binary op a b
  | both left right => do
    let a ← eval caller frame left
    if ← Expression.truthOf a then eval caller frame right else return a
  | either left right => do
    let a ← eval caller frame left
    if ← Expression.truthOf a then return a else eval caller frame right
  | not e => do return .bool !(← Expression.truthOf (← eval caller frame e))
  | cond test yes no => do
    if ← Expression.truthOf (← eval caller frame test) then eval caller frame yes
    else eval caller frame no
  | length e => do
    let v ← eval caller frame e
    return .int (← Action.look (Store.length · v))
  | text e => do
    let v ← eval caller frame e
    return .str (← Action.look (Store.text · v))
  | list es => do Action.make (.list (← evalAll caller frame es))
  | tuple es => do Action.make (.tuple (← evalAll caller frame es))
  | set es => do Action.makeSet (← evalAll caller frame es)
  | iterator es => do Action.make (.iterator (← evalAll caller frame es))
  | collection es => do Action.makeCollection (← evalAll caller frame es)
  | dict keys values => do
    let ks ← evalAll caller frame keys
    let vs ← evalAll caller frame values
    Action.make (.dict (← Action.makeEntries ks vs))
  | frozen keys values => do
    let ks ← evalAll caller frame keys
    let vs ← evalAll caller frame values
    Action.make (.frozen (← Action.makeEntries ks vs))
  | object names values => do
    Action.make (.object (names.zip (← evalAll caller frame values)))
  | custom kind names values => do
    Action.make (.custom kind (names.zip (← evalAll caller frame values)))
  | log e => do
    let v ← eval caller frame e
    Action.record v
    return v
  | seq es => do return (← evalAll caller frame es).getLast?.getD .null
  | assign target key value => do
    let t ← eval caller frame target
    let k ← eval caller frame key
    let v ← eval caller frame value
    Action.assign t k v
    return v
  | raise kind message => throw (.raised kind message)
  | function enclosed shape body =>
    Action.make (.function (.closure shape body (if enclosed then some frame.args else none)))
  | memory items none => do Action.makeMemory (← eval caller frame items) .null
  | memory items (some (perPage, separator, direction, seed)) => do
    let items ← eval caller frame items
    let perPage ← eval caller frame perPage
    let separator ← eval caller frame separator
    let direction ← eval caller frame direction
    let seed ← eval caller frame seed
    Action.makeMemory items
      (← Action.make (.policy (← Policy.make perPage separator direction seed)))
  | recorder behaviour value => do
    Action.make (.executor (.recorder behaviour (← eval caller frame value) []))
  | call receiver method es => do
    let r ← eval caller frame receiver
    let vs ← evalAll caller frame es
    invoke caller r method ⟨vs, []⟩

/-- The values of several expressions. -/
def evalAll (caller : Caller) (frame : Frame) : List Expr → Action (List Value)
  | [] => return []
  | e :: es => do
    let v ← eval caller frame e
    let vs ← evalAll caller frame es
    return v :: vs
end

end Expr

namespace Function

/-- Calls the factory of a custom operator with a path and an operand. -/
def produce (caller : Caller) (check : Option Expr) (answer : FactoryAnswer)
    (path operand : Value) : Action Value := do
  let frame : Frame := { args := [path, operand] }
  match check with
  | some e => let _ ← e.eval caller frame
  | none => pure ()
  match answer with
  | .predicate body => Action.make (.function (.predicate body path operand))
  | .value e => e.eval caller frame

/-- Calls a function of the store. -/
def run (caller : Caller) (f : Function) (args : List Value) : Action Value :=
  match f, args with
  | .closure shape body outer, _ =>
    if shape.accepts args.length then body.eval caller { args, outer } else Action.fault .type
  | .factory check answer, [path, operand] => produce caller check answer path operand
  | .predicate body path operand, [v] => body.eval caller { args := [path, operand, v] }
  | _, _ => Action.fault .type

end Function

/-- The deepest nesting of calls. -/
def callDepth : Nat := 300

/-- Calls a function, within a bound on the depth of calls. -/
def applyAt : Nat → Caller
  | 0, _, _ => Action.fault .recursion
  | depth + 1, f, args => do
    let caller := applyAt depth
    match f with
    | .builtin b => b.call caller ⟨args, []⟩
    | .extension _ g receiver => caller g (receiver :: args)
    | .method _ a name => Invoke.onCell caller a name ⟨args, []⟩
    | .ref a =>
      match ← Action.cell a with
      | .function g => g.run caller args
      | .executor e => Executor.call caller a e args
      | _ => Action.fault .type
    | _ => Action.fault .type

/-- Calls a function. -/
def apply : Caller := applyAt callDepth

end Recordset
