import Recordset.Deferred.Replay
set_option autoImplicit false

/-!
# Running deferred queries

Whoever waits for a builder first starts its execution; all others share it.  An execution whose
executor ends the program is not kept, so that the next one who waits starts another; nor is one
whose executor fails with an error that can not be written, since the error is written to the log
before it is kept.  An executor that gives work, or another builder, leaves the execution pending
until that is done.

`fuel` bounds the chain of builders that wait for each other.
-/

namespace Recordset

namespace Execution

/-- How many turns work takes. -/
def workTurns : Nat := 2

/-- How many turns it takes to follow another execution. -/
def followTurns : Execution → Nat
  | settled _ => 1
  | pending n _ => n + 3

/-- The outcome of work: work can not announce the end of an iteration. -/
def workOutcome (o : Outcome) : Outcome :=
  o.mapError fun e => if e.endsIteration then .fault .runtime else e

/-- The execution that follows another one, or the failure to start that one. -/
def following (started : Except Error Execution) : Execution :=
  match started with
  | .ok e => pending e.followTurns e.outcome
  | .error e => pending 1 (.error e)

/-- The failure that an error of an executor leaves when it is not kept: the error itself when it
ends the program, the failure to write it, or the refusal of one that announces the end of an
iteration. -/
def unkept? (e : Error) : Option Error :=
  if e.isFinal then some e
  else
    match e.unwritten? with
    | some failure => some failure
    | none => if e.endsIteration then some (.fault .type) else none

end Execution

namespace Builder

/-- The builder in a cell. -/
def read (a : Address) : Action Builder := do
  match ← Action.cell a with
  | .builder b => return b
  | _ => Action.fault .attribute

/-- What the executor of a builder is told. -/
def context (b : Builder) : Action Value := Context.make b.shown b.validators b.operations.length

/-- Keeps the execution of a builder. -/
def keep (a : Address) (e : Execution) : Action Unit := do
  Action.write a (.builder { (← read a) with execution := some e })

/-- The execution that the result of an executor stands for. -/
def executionOf (follow : Address → Action Execution) (v : Value) : Action Execution := do
  match v, (← get).store.view v with
  | _, some (.work o) => return .pending Execution.workTurns (Execution.workOutcome o)
  | .ref a, some (.builder _) => return Execution.following (← ExceptT.lift (follow a).run)
  | _, _ => return .settled (.ok v)

/-- Starts an execution. -/
def start (caller : Caller) (follow : Address → Action Execution) (b : Builder) :
    Action Execution := do
  let _ ← Action.ofExcept b.summary
  let context ← b.context
  match ← ExceptT.lift (caller b.executor [context]).run with
  | .ok v => executionOf follow v
  | .error e =>
    match Execution.unkept? e with
    | some failure => throw failure
    | none => return .settled (.error e)

/-- The execution of a builder, started when there is none. -/
def ensureStartedAt (caller : Caller) : Nat → Address → Action Execution
  | 0, _ => Action.fault .recursion
  | fuel + 1, a => do
    let b ← read a
    match b.execution with
    | some e => return e
    | none => do
      let e ← start caller (ensureStartedAt caller fuel) b
      keep a e
      return e

/-- The longest chain of builders that wait for each other. -/
def chainLength : Nat := 300

/-- The execution of a builder, started when there is none. -/
def ensureStarted (caller : Caller) (a : Address) : Action Execution :=
  ensureStartedAt caller chainLength a

/-- Waits for the execution of a builder to end. -/
def settle (caller : Caller) (a : Address) : Action Outcome := do
  let e ← ensureStarted caller a
  keep a e.settle
  return e.outcome

/-- The result of a builder. -/
def await (caller : Caller) (a : Address) : Action Value := do
  Action.ofExcept (← settle caller a)

/-- Starts a builder and gives up waiting for it: the result is only there when it has settled
already.  The execution itself goes on. -/
def cancel (caller : Caller) (a : Address) : Action Value := do
  let e ← ensureStarted caller a
  keep a e.settle
  if e.isSettled then Action.ofExcept e.outcome else throw .cancelled

/-- Starts a builder among others; one that fails to start counts as settled, and is not kept. -/
def join (caller : Caller) (a : Address) : Action Execution := do
  match ← ExceptT.lift (ensureStarted caller a).run with
  | .ok e => return e
  | .error e => if e.endsProgram then throw e else return .settled (.error e)

/-- The failure of an execution. -/
def failure? (e : Execution) : Option Error :=
  match e.outcome with
  | .ok _ => none
  | .error x => some x

/-- The failure among executions that comes first: the one that takes the fewest turns. -/
def firstFailure? (es : List Execution) : Option Error :=
  (es.mergeSort fun d e => d.turns ≤ e.turns).findSome? failure?

/-- Keeps the outcome of a builder that has an execution. -/
def keepOutcome (a : Address) : Action Unit := do
  match (← read a).execution with
  | some e => keep a e.settle
  | none => return

/-- The results of several builders that run at the same time, or the failure that came first. -/
def gather (caller : Caller) (as : List Address) : Action Value := do
  let es ← as.mapM (join caller)
  for a in as do keepOutcome a
  match firstFailure? es with
  | some e => throw e
  | none => do Action.make (.list (es.filterMap fun e => e.outcome.toOption))

end Builder

end Recordset
