import Recordset.Value.Kind
set_option autoImplicit false

/-!
# Plain values

`Action.plain` rebuilds a value from lists and mappings alone: collections and tuples become lists,
mappings that nobody can change become mappings that can be.  Keys and all other values stay as
they are.
-/

namespace Recordset.Action

/-- The items of a list, a tuple or a collection. -/
def plainItems? (s : Store) (v : Value) : Option (List Value) :=
  match (s.collection? v).map Collection.items with
  | some xs => some xs
  | none => s.sequence? v

/-- Rebuilds every value of a list. -/
def plainAll (plain : Value → Action Value) : List Value → Action (List Value)
  | [] => return []
  | v :: vs => do
    let w ← plain v
    let ws ← plainAll plain vs
    return w :: ws

/-- Rebuilds the values of entries. -/
def plainEntries (plain : Value → Action Value) : Entries → Action Entries
  | [] => return []
  | (k, v) :: es => do
    let w ← plain v
    let rest ← plainEntries plain es
    return (k, w) :: rest

/-- Rebuilding entries rebuilds their values as a list and puts them under the keys again. -/
theorem plainEntries_eq (plain : Value → Action Value) (es : Entries) :
    plainEntries plain es = do
      let ws ← plainAll plain (es.map (·.2))
      return (es.map (·.1)).zip ws := by
  induction es with
  | nil => rfl
  | cons e es ih =>
    obtain ⟨k, v⟩ := e
    rw [plainEntries, ih, List.map_cons, List.map_cons, plainAll]
    simp only [bind_assoc, pure_bind, List.zip_cons_cons]

/-- A value rebuilt from lists and mappings alone, within a bound on its nesting. -/
def plainAt : Nat → Value → Action Value
  | 0, _ => fault .recursion
  | fuel + 1, v => do
    let s := (← get).store
    match s.entries? v, plainItems? s v with
    | some es, _ => do make (.dict (← plainEntries (plainAt fuel) es))
    | none, some xs => do make (.list (← plainAll (plainAt fuel) xs))
    | none, none => return v

/-- A value rebuilt from lists and mappings alone. -/
def plain (v : Value) : Action Value := do plainAt (← get).store.depth v

end Recordset.Action
