import Recordset.Collection.Method
set_option autoImplicit false

/-!
# Registries of extensions

An extension is a function that a collection answers to by a name of its own.  Registries form
chains: a name is looked up in the local table first and then in the parent's.  A name that a
registry of the chain reserves can not be registered.
-/

namespace Recordset

/-- A table of extensions, the names it reserves, and the registry it extends. -/
structure Registry where
  parent : Option Address := none
  reserved : List String := []
  table : List (String × Value) := []

namespace Registry

/-- The extension registered here under a name. -/
def get? (r : Registry) (name : String) : Option Value := (r.table.find? (·.1 == name)).map (·.2)

/-- Whether a name is registered here. -/
def contains (r : Registry) (name : String) : Bool := r.table.any (·.1 == name)

/-- Puts an extension under a name, in its place when the name is there already. -/
def insert (r : Registry) (name : String) (f : Value) : Registry :=
  if r.contains name then
    { r with table := r.table.map fun e => if e.1 == name then (name, f) else e }
  else { r with table := r.table ++ [(name, f)] }

/-- Reserves names. -/
def reserve (r : Registry) (names : List String) : Registry :=
  { r with reserved := r.reserved ++ names.filter fun n => !r.reserved.contains n }

/-- The methods of a registry, and their arguments. -/
def methods : List (String × Signature) :=
  [("register", { params := [Signature.required "name", Signature.required "fn"] }),
    ("reserve", { params := [Signature.required "names"] }),
    ("get", { params := [Signature.required "name"] }),
    ("child", { params := [Signature.optional "reserved" .missing] }),
    ("names", {})]

end Registry

end Recordset
