set_option autoImplicit false

/-!
# Positions and slices

A position counts from the start, or from the end when it is negative.  A slice takes what lies
between two positions, clamped to the list; with a step it takes every so many elements, backwards
when the step is negative.
-/

namespace Recordset.Slice

/-- The place of a position in a list of `n`; none outside of it. -/
def place? (n : Nat) (i : Int) : Option Nat :=
  let j := if i < 0 then i + n else i
  if 0 ≤ j ∧ j < n then some j.toNat else none

/-- A position counted from the start and clamped to the places between `low` and `high`. -/
def clamp (n : Nat) (low high i : Int) : Int :=
  let j := if i < 0 then i + n else i
  max low (min high j)

/-- A bound of a slice as a number of elements before it. -/
def bound (n : Nat) (i : Int) : Nat := (clamp n 0 n i).toNat

/-- The numbers of elements before the start and before the end of a slice. -/
def bounds (n : Nat) (start stop : Option Int) : Nat × Nat :=
  ((start.map (bound n)).getD 0, (stop.map (bound n)).getD n)

/-- The elements between two positions. -/
def take {α : Type} (xs : List α) (start stop : Option Int) : List α :=
  let (low, high) := bounds xs.length start stop
  (xs.take high).drop low

/-- The list with the elements between two positions replaced. -/
def splice {α : Type} (xs : List α) (start stop : Option Int) (new : List α) : List α :=
  let (low, high) := bounds xs.length start stop
  xs.take low ++ new ++ xs.drop (max low high)

/-- The places that a step visits from `i` on, while they are on the near side of `stop`. -/
def visit (step stop : Int) : Nat → Int → List Nat
  | 0, _ => []
  | fuel + 1, i =>
    if (0 < step ∧ i < stop) ∨ (step < 0 ∧ stop < i) then
      i.toNat :: visit step stop fuel (i + step)
    else []

/-- The elements that a step visits between two positions; the step is not zero. -/
def takeEvery {α : Type} (xs : List α) (start stop : Option Int) (step : Int) : List α :=
  let n := xs.length
  let (first, last) : Int × Int :=
    if 0 < step then
      ((start.map (clamp n 0 n)).getD 0, (stop.map (clamp n 0 n)).getD n)
    else
      ((start.map (clamp n (-1) ((n : Int) - 1))).getD ((n : Int) - 1),
        (stop.map (clamp n (-1) ((n : Int) - 1))).getD (-1))
  (visit step last (n + 1) first).filterMap fun i => xs[i]?

end Recordset.Slice
