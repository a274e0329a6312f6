import Recordset.Collection.Method
set_option autoImplicit false

/-!
# Deferred queries: recorded operations and their execution

A builder records operations and runs none.  Handing the record to an executor starts one
execution, which is either settled at once or pending until its executor's own work is done.  A
builder keeps its execution, so that everyone who waits for it gets the one outcome.
-/

namespace Recordset

/-- A recorded operation: its parts are a name and arguments, unless the record was made by hand. -/
structure Operation where
  parts : List Value
  /-- the tuple that shows the parts -/
  shown : Value

namespace Operation

/-- The name of an operation. -/
def name (o : Operation) : Except Error Value :=
  match o.parts with
  | v :: _ => .ok v
  | [] => .error (.fault .index)

/-- The arguments of an operation. -/
def args (o : Operation) : List Value := o.parts.drop 1

/-- The name of an operation as a text. -/
def nameText (o : Operation) : Except Error String := do
  match ← o.name with
  | .str t => return t
  | _ => throw (.fault .type)

end Operation

/-- How an execution ends: with a value or with an error. -/
abbrev Outcome := Except Error Value

/-- An execution that has been started. -/
inductive Execution where
  /-- work that takes so many turns -/
  | pending (turns : Nat) (outcome : Outcome)
  | settled (outcome : Outcome)

namespace Execution

/-- How the execution ends. -/
def outcome : Execution → Outcome
  | pending _ o => o
  | settled o => o

/-- The execution after its pending work is done. -/
def settle (e : Execution) : Execution := settled e.outcome

/-- How many turns the outcome takes. -/
def turns : Execution → Nat
  | pending n _ => n
  | settled _ => 0

/-- Whether the outcome is there already. -/
def isSettled : Execution → Bool
  | pending _ _ => false
  | settled _ => true

@[simp] theorem outcome_settle (e : Execution) : e.settle.outcome = e.outcome := rfl

@[simp] theorem settle_settle (e : Execution) : e.settle.settle = e.settle := rfl

end Execution

/-- What a recording executor does once it has recorded its context. -/
inductive Behaviour where
  /-- gives the operations back as lists -/
  | echo
  /-- gives a value of its own -/
  | give
  | fail (kind message : String)
  /-- the same after a turn of the event loop -/
  | giveLater
  | failLater (kind message : String)
  | cancelLater
  deriving DecidableEq, Repr

/-- An executor. -/
inductive Executor where
  /-- replays the operations over a copy of the items of a list, under a policy or none -/
  | memory (items policy : Value)
  /-- has a value to give and keeps the contexts it was given, the latest last -/
  | recorder (behaviour : Behaviour) (value : Value) (contexts : List Value)

/-- A builder of a deferred query. -/
structure Builder where
  executor : Value
  validators : Value
  operations : List Operation
  /-- the tuple that shows the operations -/
  shown : Value
  execution : Option Execution := none

namespace Builder

/-- The methods that a builder records. -/
def methods : List Method :=
  [.select, .reject, .filter, .except, .first, .last, .find, .every, .each, .map, .chunk, .groupBy,
    .countBy, .sort, .reverse, .shuffle, .random, .slice, .unique, .sum, .max, .min, .count,
    .paginate, .update, .delete, .forget, .collect, .dump, .dumpExit, .stringify, .extend]

/-- The method of a name, if a builder records it. -/
def ofName? (name : String) : Option Method := methods.find? (·.name == name)

/-- The other methods of a builder, and their arguments. -/
def others : List (String × Signature) :=
  [("explain", { params := [Signature.optional "format" (.str "text")] }), ("run", {})]

/-- The arguments of a recorded method: the same as those of the method, an optional one missing
when it is left out. -/
def signature (m : Method) : Signature :=
  { m.signature with
    params := m.signature.params.map fun p =>
      { p with default := p.default.map fun _ => .missing } }

end Builder

end Recordset
