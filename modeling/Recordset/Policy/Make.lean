import Recordset.Value.Order
import Recordset.Value.Shown
set_option autoImplicit false

/-!
# Making policies

A policy is made from values, of which the page size and the direction are checked.
-/

namespace Recordset.Policy

/-- The direction that a value names, if it names one. -/
def directionNamed? (s : Store) (v : Value) : Except Error (Option Direction) :=
  match s.view v, v with
  | some .hostile, _ => .error (.fault .value)
  | _, .str t => .ok (Direction.ofText? t)
  | _, _ => .ok none

/-- Makes a policy; the page size has to be at least one and the direction one of the two. -/
def make (perPage separator direction seed : Value) : Action Policy := do
  if ← Action.look (Store.compare · .less perPage (.int 1)) then
    Action.refuse (.perPage (← Action.look (Store.text · perPage)))
  else
    match ← Action.look (directionNamed? · direction) with
    | some direction => return { perPage, separator, direction, seed }
    | none => Action.refuse (.sortDirection (← Action.look (Store.shown · direction)))

end Recordset.Policy
