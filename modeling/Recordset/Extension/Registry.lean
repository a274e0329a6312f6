import Recordset.Path
import Recordset.Text.Identifier
import Recordset.Value.Shown
set_option autoImplicit false

/-!
# Registering extensions

A name can be registered when it is an identifier that does not start with an underscore and no
registry of the chain reserves it.  Names can be reserved as long as no registry of the chain has
an extension of such a name.  In a chain without an end nothing is found out.
-/

namespace Recordset.Registry

/-- A chain of registries, from the nearest one on. -/
def chainAt (s : Store) : Nat → Address → List Registry
  | 0, _ => []
  | fuel + 1, a =>
    match s.cell? a with
    | some (.registry r) =>
      r :: match r.parent with
        | some p => chainAt s fuel p
        | none => []
    | _ => []

/-- A chain of registries, from the nearest one on. -/
def chain (s : Store) (a : Address) : List Registry := chainAt s s.depth a

/-- The extension that a chain has under a name. -/
def lookup (s : Store) (a : Address) (name : String) : Option Value :=
  (chain s a).findSome? (·.get? name)

/-- The names that a chain reserves. -/
def reservedNames (s : Store) (a : Address) : List String := (chain s a).flatMap (·.reserved)

/-- The names of the extensions of a chain. -/
def names (s : Store) (a : Address) : List String := (chain s a).flatMap fun r => r.table.map (·.1)

/-- Sorted names, each once. -/
def sortNames (names : List String) : List String :=
  names.eraseDups.mergeSort fun a b => a ≤ b

/-- The registry in a cell. -/
def read (a : Address) : Action Registry := do
  match ← Action.cell a with
  | .registry r => return r
  | _ => Action.fault .attribute

/-- A name that an extension may have. -/
def isExtensionName (name : String) : Bool :=
  Text.isIdentifier name && name.toList.head? != some '_'

/-- Registers an extension, and warns when the local table had one of that name. -/
def register (a : Address) (name f : Value) : Action Unit := do
  let s := (← get).store
  let invalid : Action Unit := do
    Action.refuse (.invalidName (← Action.ofExcept (s.shown name)))
  match name with
  | .str t =>
    if !isExtensionName t then invalid
    else if !s.isCallable f then Action.refuse (.notCallable t (s.kind f))
    else
      Action.alongChain a do
        if (reservedNames s a).contains t then Action.refuse (.reservedName t)
        else
          let r ← read a
          if r.contains t then Action.warn ("Macro " ++ t ++ " redefined")
          Action.write a (.registry (r.insert t f))
  | _ => invalid

/-- A list of names as a message shows it. -/
def namesShown (names : List String) : String :=
  "[" ++ Store.commaSeparated (names.map Text.quoted) ++ "]"

/-- Reserves names; refused when the chain has extensions of such names. -/
def reserveAll (a : Address) (names : List String) : Action Unit := do
  Action.alongChain a do
    let s := (← get).store
    let clashes := sortNames (names.filter (Registry.names s a).contains)
    if clashes.isEmpty then
      let r ← read a
      Action.write a (.registry (r.reserve names))
    else Action.refuse (.reservedNames (namesShown clashes))

/-- Makes a registry that extends another one and reserves some names. -/
def make (parent : Option Address) (reserved : List String) : Action Address :=
  Action.alloc (.registry { parent, reserved })

end Recordset.Registry
