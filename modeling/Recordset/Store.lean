import Recordset.Collection.Basic
import Recordset.Datum
import Recordset.Extension.Basic
import Recordset.Script.Expr
set_option autoImplicit false

/-!
# The store

Values that have parts or can change live in cells.  A cell, once made, keeps its address for good
and its content changes only by `Store.write`; `Store.alloc` makes a new cell at the end and leaves
every other one alone.  Besides the cells the state of a session holds what it has printed, logged
and warned of.

An action runs on the state and either gives a result or fails; what it did to the state before it
failed stays done.
-/

namespace Recordset

/-- What a record that nobody can change tells. -/
inductive RecordKind where
  /-- what an executor is told -/
  | context
  /-- the circumstances of an execution -/
  | metadata
  deriving DecidableEq, Repr

/-- The content of a cell. -/
inductive Cell where
  | list (items : List Value)
  | tuple (items : List Value)
  /-- a set, its elements in the order in which they are visited -/
  | set (items : List Value)
  | dict (entries : Entries)
  /-- a mapping that nobody can change -/
  | frozen (entries : Entries)
  | object (fields : List (String × Value))
  /-- the items that an iterator has not given yet -/
  | iterator (rest : List Value)
  /-- something that fails when it is compared -/
  | hostile
  /-- something of a kind of its own -/
  | custom (kind : CustomKind) (fields : List (String × Value))
  | function (f : Function)
  | collection (c : Collection)
  | registry (r : Registry)
  | policy (p : Policy)
  | generator (g : Generator)
  | builder (b : Builder)
  | executor (e : Executor)
  | record (kind : RecordKind) (fields : List (String × Value))
  /-- work that somebody has begun and nobody waits for -/
  | work (outcome : Outcome)

/-- The cells made so far, and the attributes that have been set on values without fields of their
own. -/
structure Store where
  cells : Array Cell := #[]
  marks : List (Value × String × Value) := []

namespace Store

/-- How many cells there are. -/
def size (s : Store) : Nat := s.cells.size

/-- The content of a cell. -/
def cell? (s : Store) (a : Address) : Option Cell := s.cells[a.index]?

/-- The content of the cell that a value is. -/
def view (s : Store) : Value → Option Cell
  | .ref a => s.cell? a
  | _ => none

/-- Makes a new cell. -/
def alloc (s : Store) (c : Cell) : Address × Store :=
  (⟨s.size⟩, { s with cells := s.cells.push c })

/-- Changes the content of a cell. -/
def write (s : Store) (a : Address) (c : Cell) : Store :=
  { s with cells := s.cells.setIfInBounds a.index c }

/-- The attribute of a name that has been set on a value. -/
def mark? (s : Store) (v : Value) (name : String) : Option Value :=
  (s.marks.find? fun m => m.1.same v && m.2.1 == name).map (·.2.2)

/-- The attributes that have been set on a value, the first one first. -/
def marksOf (s : Store) (v : Value) : List (String × Value) :=
  (s.marks.reverse.filter fun m => m.1.same v).map (·.2)

/-- Sets an attribute on a value. -/
def setMark (s : Store) (v : Value) (name : String) (x : Value) : Store :=
  { s with marks := (v, name, x) :: s.marks }

/-- The nesting that a value without cycles can not exceed. -/
def depth (s : Store) : Nat := s.size + 2

theorem cell?_alloc (s : Store) (c : Cell) : (s.alloc c).2.cell? (s.alloc c).1 = some c := by
  simp [alloc, cell?, size]

theorem cell?_alloc_of_lt {s : Store} {a : Address} (c : Cell) (h : a.index < s.size) :
    (s.alloc c).2.cell? a = s.cell? a := by
  simp only [alloc, cell?]
  exact Array.getElem?_push_lt h |>.trans (Array.getElem?_eq_getElem h).symm

theorem cell?_write_of_ne {s : Store} {a b : Address} (c : Cell) (h : a ≠ b) :
    (s.write b c).cell? a = s.cell? a := by
  have hi : b.index ≠ a.index := fun e => h (by cases a; cases b; simp_all)
  simp [write, cell?, hi]

theorem cell?_write_of_lt {s : Store} {a : Address} (c : Cell) (h : a.index < s.size) :
    (s.write a c).cell? a = some c := by
  have : a.index < s.cells.size := h
  simp [write, cell?, this]

end Store

/-- The state of a session. -/
structure State where
  store : Store := {}
  /-- the next serial number -/
  serial : Nat := 0
  /-- what is bound to variables, the latest first -/
  «variables» : List (String × Value) := []
  /-- what callbacks have logged, the latest first -/
  log : List Datum := []
  /-- what has been printed -/
  printed : String := ""
  /-- the warnings, the latest first -/
  warnings : List String := []

/-- A computation on the state that may fail. -/
abbrev Action (α : Type) := ExceptT Error (StateM State) α

/-- A computation that only looks at the store and may fail. -/
abbrev Look (α : Type) := ReaderT Store (Except Error) α

namespace Action

/-- Looks at the store. -/
def look {α : Type} (f : Look α) : Action α := do
  match f (← get).store with
  | .ok a => pure a
  | .error e => throw e

/-- Fails with a fault. -/
def fault {α : Type} (f : Fault) : Action α := throw (.fault f)

/-- Fails with a refusal. -/
def refuse {α : Type} (r : Refusal) : Action α := throw (.refusal r)

/-- Goes on with a result, or fails. -/
def ofExcept {α : Type} : Except Error α → Action α
  | .ok a => pure a
  | .error e => throw e

/-- Makes a new cell. -/
def alloc (c : Cell) : Action Address := do
  let s ← get
  let (a, store) := s.store.alloc c
  set { s with store := store }
  return a

/-- Makes a new cell, as a value. -/
def make (c : Cell) : Action Value := return .ref (← alloc c)

/-- Changes the content of a cell. -/
def write (a : Address) (c : Cell) : Action Unit :=
  modify fun s => { s with store := s.store.write a c }

/-- The content of a cell. -/
def cell (a : Address) : Action Cell := do
  match (← get).store.cell? a with
  | some c => pure c
  | none => fault .type

/-- The content of the cell that a value is. -/
def view (v : Value) : Action (Option Cell) := return (← get).store.view v

/-- A serial number that has not been given before. -/
def serial : Action Nat := do
  let s ← get
  set { s with serial := s.serial + 1 }
  return s.serial

/-- A number as a value; each not-a-number gets a serial number of its own. -/
def number : Number → Action Value
  | .int n => pure (.int n)
  | .float x => do
    if x.isNaN then return .nan (← serial) else return .float x

/-- What is bound to a variable. -/
def lookup (name : String) : Action Value := do
  match (← get).variables.lookup name with
  | some v => return v
  | none => throw (.unbound name)

/-- Warns. -/
def warn (text : String) : Action Unit := modify fun s => { s with warnings := text :: s.warnings }

/-- Prints. -/
def print (text : String) : Action Unit := modify fun s => { s with printed := s.printed ++ text }

end Action

/-- How callbacks are called: a function and its arguments by position. -/
abbrev Caller := Value → List Value → Action Value

namespace State

/-- The policy of collections that are made without one. -/
def defaultPolicy : Address := ⟨0⟩

/-- The registry that every collection without one of its own extends. -/
def sharedRegistry : Address := ⟨1⟩

/-- The state at the start of a session. -/
def initial : State :=
  { store := { cells := #[.policy {}, .registry { reserved := builtinNames }] } }

end State

end Recordset
