import Recordset.Policy
set_option autoImplicit false

/-!
# Collections

A collection keeps its items in a list and shares everything else with the collections derived
from it: the custom operators, the policy, the extensions and the source of random numbers.  The
list is a cell of its own, so whoever holds it sees what becomes of the items.
-/

namespace Recordset

/-- A collection. -/
structure Collection where
  /-- the list that holds the items -/
  list : Address
  /-- the custom operators, a mapping from names to factories -/
  validators : Address
  policy : Address
  registry : Address
  /-- the source of random numbers -/
  generator : Address
  /-- attributes that a patch has set -/
  fields : List (String × Value) := []
  /-- whether it has held items since a sort took them away -/
  grown : Bool := false

namespace Collection

/-- A collection over another list that shares the rest. -/
def derive (c : Collection) (list : Address) : Collection :=
  { c with list, fields := [], grown := false }

/-- A collection together with the items that its list holds at a moment. -/
structure Snapshot extends Collection where
  items : List Value

/-- The items of a collection at that moment. -/
def items (c : Snapshot) : List Value := c.items

end Collection

/-- A source of random numbers. -/
structure Generator where
  state : Nat
  deriving DecidableEq, Repr

namespace Generator

/-- The next number and the source after it. -/
def next (g : Generator) : Nat × Generator :=
  let state := (g.state * 6364136223846793005 + 1442695040888963407) % (1 <<< 64)
  (state >>> 33, ⟨state⟩)

/-- A number below `bound`, and the source after it. -/
def below (g : Generator) (bound : Nat) : Nat × Generator :=
  let (n, g) := g.next
  (n % bound, g)

end Generator

end Recordset
