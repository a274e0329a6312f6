set_option autoImplicit false

/-!
# Searching by comparisons that may fail

A search looks for the end of a leading part: the places from zero on that still belong to it, up to
the first that does not.  `bisect` halves the part of the list that is still open; `gallop` starts
from a guess and doubles its stride until it has passed the end.  Both ask about as few places as
they can, and which ones they ask about is part of what is promised: a question may have an effect,
may fail, or may be answered without any order behind the answers.
-/

namespace Recordset.Sorting

variable {ε : Type} {m : Type → Type} [Monad m]

/-- A comparison: whether the first element has to come before the second. -/
abbrev Less (α ε : Type) (m : Type → Type) := α → α → ExceptT ε m Bool

/-- A question about a place: whether it belongs to the leading part. -/
abbrev Leading (ε : Type) (m : Type → Type) := Nat → ExceptT ε m Bool

/-- The places at which an element does not have to come before those of a list. -/
def notBefore {α : Type} (less : Less α ε m) (x : α) (xs : Array α) : Leading ε m := fun i =>
  match xs[i]? with
  | some y => do return !(← less x y)
  | none => pure false

/-- The places of a list whose elements have to come before an element. -/
def isBefore {α : Type} (less : Less α ε m) (xs : Array α) (x : α) : Leading ε m := fun i =>
  match xs[i]? with
  | some y => less y x
  | none => pure false

/-- The end of the leading part when it lies between `low` and `high`. -/
def bisect (leading : Leading ε m) : Nat → Nat → Nat → ExceptT ε m Nat
  | 0, low, _ => pure low
  | fuel + 1, low, high =>
    if low < high then do
      let middle := low + (high - low) / 2
      if ← leading middle then bisect leading fuel (middle + 1) high
      else bisect leading fuel low middle
    else pure low

/-- Strides of 1, 3, 7, and so on while a question is answered with yes and the stride stays below
`limit`: the last stride that was, and the first that was not. -/
def stride (ask : Leading ε m) (limit : Nat) : Nat → Nat → Nat → ExceptT ε m (Nat × Nat)
  | 0, last, next => pure (last, min next limit)
  | fuel + 1, last, next =>
    if next < limit then do
      if ← ask next then stride ask limit fuel next (2 * next + 1) else return (last, next)
    else return (last, limit)

/-- The end of the leading part of `size` places, looked for from the place `guess` on. -/
def gallop (leading : Leading ε m) (size guess : Nat) : ExceptT ε m Nat := do
  if ← leading guess then
    let (last, next) ← stride (fun o => leading (guess + o)) (size - guess) size 0 1
    bisect leading size (guess + last + 1) (guess + next)
  else
    let (last, next) ← stride (fun o => do return !(← leading (guess - o))) (guess + 1) size 0 1
    bisect leading size (guess + 1 - next) (guess - last)

end Recordset.Sorting
