import Recordset.Value.Hashed
set_option autoImplicit false

/-!
# Copies

`Action.deepCopy` copies a value with everything it holds, so that no change of the copy reaches
what was copied.  What two places shared they share in the copy as well: the copies made so far are
remembered by the addresses they were made from.  Values that nothing can change stay the same, and
so does a tuple all of whose parts do.  A mapping that nobody can change, work that has begun and a
builder whose execution has started refuse to be copied.
-/

namespace Recordset.Action

/-- The copies made so far. -/
abbrev Copies := List (Address × Value)

/-- An action that makes copies. -/
abbrev Copying (α : Type) := StateT Copies Action α

/-- Copies every value of a list. -/
def copyAll (copy : Value → Copying Value) : List Value → Copying (List Value)
  | [] => return []
  | v :: vs => do
    let w ← copy v
    let ws ← copyAll copy vs
    return w :: ws

/-- Copies the values of entries, and their keys. -/
def copyEntries (copy : Value → Copying Value) : Entries → Copying Entries
  | [] => return []
  | (k, v) :: es => do
    let k' ← copy k
    let v' ← copy v
    let rest ← copyEntries copy es
    return (k', v') :: rest

/-- Copies the values of named fields. -/
def copyFields (copy : Value → Copying Value) :
    List (String × Value) → Copying (List (String × Value))
  | [] => return []
  | (name, v) :: fs => do
    let v' ← copy v
    let rest ← copyFields copy fs
    return (name, v') :: rest

/-- The address of the copy of a shared value. -/
def copyAddress (copy : Value → Copying Value) (a : Address) : Copying Address := do
  match ← copy (.ref a) with
  | .ref b => return b
  | _ => return a

/-- The marks of a value set on its copy, with copies of what they say. -/
def copyMarks (copy : Value → Copying Value) (v w : Value) : Copying Unit := do
  for (name, x) in (← getThe State).store.marksOf v do
    let x ← copy x
    modifyThe State fun s => { s with store := s.store.setMark w name x }

/-- Makes the cell of a copy first and fills it after its parts are copied. -/
def copyInto (copy : Value → Copying Value) (a : Address) (empty : Cell) (fill : Copying Cell) :
    Copying Value := do
  let b ← Action.alloc empty
  modify ((a, .ref b) :: ·)
  let c ← fill
  Action.write b c
  copyMarks copy (.ref a) (.ref b)
  return .ref b

/-- Copies what a collection is made of. -/
def copyCollection (copy : Value → Copying Value) (c : Collection) : Copying Cell := do
  let list ← copyAddress copy c.list
  let validators ← copyAddress copy c.validators
  let policy ← copyAddress copy c.policy
  let registry ← copyAddress copy c.registry
  let generator ← copyAddress copy c.generator
  let fields ← copyFields copy c.fields
  return .collection { list, validators, policy, registry, generator, fields }

/-- Copies a registry with the registries that it extends. -/
def copyRegistry (copy : Value → Copying Value) (r : Registry) : Copying Cell := do
  let parent ← match r.parent with
    | some p => do pure (some (← copyAddress copy p))
    | none => pure none
  let table ← copyFields copy r.table
  return .registry { r with parent, table }

/-- Copies the settings of a policy. -/
def copyPolicy (copy : Value → Copying Value) (p : Policy) : Copying Cell := do
  let perPage ← copy p.perPage
  let separator ← copy p.separator
  let seed ← copy p.seed
  return .policy { p with perPage, separator, seed }

/-- The operations that a copied tuple of tuples shows. -/
def operationsShownBy (s : Store) (shown : Value) : List Operation :=
  ((s.sequence? shown).getD []).map fun o => ⟨(s.sequence? o).getD [], o⟩

/-- Copies a builder with what it has recorded. -/
def copyBuilder (copy : Value → Copying Value) (b : Builder) : Copying Cell := do
  let executor ← copy b.executor
  let validators ← copy b.validators
  let shown ← copy b.shown
  let operations := operationsShownBy (← getThe State).store shown
  return .builder { b with executor, validators, operations, shown }

/-- A copy of the executor in a cell. -/
def copyExecutor (copy : Value → Copying Value) (a : Address) : Executor → Copying Value
  | .memory items policy =>
    copyInto copy a (.executor (.memory items policy)) do
      return .executor (.memory (← copy items) (← copy policy))
  | .recorder behaviour value contexts =>
    copyInto copy a (.executor (.recorder behaviour value [])) do
      let value ← copy value
      return .executor (.recorder behaviour value (← copyAll copy contexts))

/-- A copy of the shared value in a cell. -/
def copyCell (copy : Value → Copying Value) (a : Address) : Cell → Copying Value
  | .list xs => copyInto copy a (.list []) do return .list (← copyAll copy xs)
  | .tuple xs => do
    let ys ← copyAll copy xs
    if (xs.zip ys).all fun (x, y) => x.same y then return .ref a
    else copyInto copy a (.tuple ys) do return .tuple ys
  | .set xs =>
    copyInto copy a (.set []) do
      let ys ← copyAll copy xs
      return .set ((← getThe State).store.setOf ys)
  | .dict es => copyInto copy a (.dict []) do return .dict (← copyEntries copy es)
  | .frozen _ | .work _ => throw (.fault .type)
  | .object fs => copyInto copy a (.object []) do return .object (← copyFields copy fs)
  | .iterator xs => copyInto copy a (.iterator []) do return .iterator (← copyAll copy xs)
  | .hostile => copyInto copy a .hostile (return .hostile)
  | .custom kind fs =>
    copyInto copy a (.custom kind []) do return .custom kind (← copyFields copy fs)
  | .collection c => copyInto copy a (.collection c) (copyCollection copy c)
  | .registry r => copyInto copy a (.registry r) (copyRegistry copy r)
  | .generator g => copyInto copy a (.generator g) (return .generator g)
  | .policy p => copyInto copy a (.policy p) (copyPolicy copy p)
  | .builder b =>
    if b.execution.isSome then throw (.fault .type)
    else copyInto copy a (.builder b) (copyBuilder copy b)
  | .executor e => copyExecutor copy a e
  | .record kind fields =>
    copyInto copy a (.record kind []) do return .record kind (← copyFields copy fields)
  | .function _ => return .ref a

/-- A copy of a value, within a bound on its nesting. -/
def copyAt : Nat → Value → Copying Value
  | 0, _ => throw (.fault .recursion)
  | fuel + 1, v =>
    match v with
    | .extension _ f receiver => do
      let f ← copyAt fuel f
      let receiver ← copyAt fuel receiver
      let w := Value.extension (← Action.serial) f receiver
      copyMarks (copyAt fuel) v w
      return w
    | .method _ a name => do
      if name = Method.extend.name then return v
      else return .method (← Action.serial) (← copyAddress (copyAt fuel) a) name
    | .ref a => do
      match (← get).find? (·.1 == a) with
      | some (_, w) => return w
      | none => copyCell (copyAt fuel) a (← Action.cell a)
    | _ => return v

/-- Copies of values that share among them what the values shared. -/
def deepCopy (vs : List Value) : Action (List Value) := do
  let fuel := (← get).store.depth
  return (← (copyAll (copyAt fuel) vs).run []).1

end Recordset.Action
