import Recordset.Collection.Visit
import Recordset.Extension.Registry
set_option autoImplicit false

/-!
# Making a collection

A new collection owns a list of its items, a copy of the custom operators, a registry of its own
that extends the given one or the shared one, and a source of random numbers of its own.  A registry
that is given for it has to keep the names of methods free, and reserves them from then on.
-/

namespace Recordset

namespace Generator

/-- The number that a text stands for as a seed. -/
def textSeed (cs : List Nat) : Nat := cs.foldl (fun n c => (n * 1000003 + c) % (1 <<< 64)) 7

/-- The source of random numbers of a seed.  A seed is a number, a text or a byte string; without
one the source starts anywhere. -/
def ofSeed? (seed : Value) : Option Generator :=
  match seed with
  | .null => some ⟨0⟩
  | .str t => some ⟨textSeed (t.toList.map Char.toNat)⟩
  | .bytes bs => some ⟨textSeed (bs.map UInt8.toNat)⟩
  | .float x => some ⟨x.toBits.toNat⟩
  | .nan serial => some ⟨serial⟩
  | v => v.index?.map fun n => ⟨n.natAbs % (1 <<< 64)⟩

end Generator

namespace Policy

/-- The policy in a cell. -/
def read (a : Address) : Action Policy := do
  match ← Action.cell a with
  | .policy p => return p
  | _ => Action.fault .attribute

/-- A new source of random numbers with the seed of a policy. -/
def newGenerator (p : Policy) : Action Address := do
  match Generator.ofSeed? p.seed with
  | some g => Action.alloc (.generator g)
  | none => Action.fault .type

end Policy

namespace Collection

/-- The key and the value of an entry that is given as a container of two. -/
def entryOf (v : Value) : Action (Value × Value) := do
  match ← Action.iterate v with
  | [key, x] => if (← get).store.isKey key then return (key, x) else Action.fault .type
  | _ => Action.fault .value

/-- A copy of the custom operators: those of a mapping or of a container of entries, none for a
value that counts as false. -/
def copyValidators (v : Value) : Action Address := do
  let s := (← get).store
  match s.entries? v with
  | some es => Action.alloc (.dict es)
  | none =>
    if s.truth v then
      let entries ← (← Action.iterate v).mapM entryOf
      Action.alloc (.dict (Entries.ofList (← get).store entries))
    else Action.alloc (.dict [])

/-- The registry of a new collection. -/
def newRegistry (given : Option Address) : Action Address := do
  match given with
  | some r => do
    Registry.reserveAll r builtinNames
    Registry.make (some r) builtinNames
  | none => Registry.make (some State.sharedRegistry) builtinNames

/-- Makes a collection. -/
def construct (items validators : Value) (policy registry : Option Address) : Action Address := do
  let items ← initialItems items
  let validators ← copyValidators validators
  let policy := policy.getD State.defaultPolicy
  let registry ← newRegistry registry
  let generator ← (← Policy.read policy).newGenerator
  let list ← Action.alloc (.list items)
  Action.alloc (.collection { list, validators, policy, registry, generator })

end Collection

end Recordset
