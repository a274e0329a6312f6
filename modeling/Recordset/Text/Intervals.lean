set_option autoImplicit false

/-!
# Sets of code points as sorted bounds

A property of characters is kept as the sorted bounds of its intervals: a code point has the
property when an odd number of bounds are at most it.
-/

namespace Recordset.Text

/-- Membership in the union of the half-open intervals between consecutive bounds. -/
def inIntervals : List Nat → Nat → Bool
  | low :: high :: rest, n =>
    if n < low then false else if n < high then true else inIntervals rest n
  | _, _ => false

end Recordset.Text
