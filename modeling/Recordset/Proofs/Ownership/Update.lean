import Recordset.Proofs.Ownership.Confined
set_option autoImplicit false

/-!
# Updates that patch no collection

An update patches items in place.  A patch of an item that is a collection sets attributes on it: it
can give it the list of another one, or a method of its own.  An update that refuses such patches
respects ownership.
-/

namespace Recordset

open Recordset.Action

namespace Collection

/-- Finds what comes in the place of an item, but refuses to patch an item that is a collection. -/
def spared (caller : Caller) (patch item : Value) (index : Nat) : Action Value := do
  let s := (← get).store
  if s.isMapping patch && (s.collection? item).isSome then Action.fault .runtime
  else updated caller patch item index

/-- Updates a collection, but patches no item that is a collection. -/
def updateSparing (caller : Caller) (a : Address) (args : List Value) : Action Value :=
  updateWith caller (spared caller) a args

variable {R : State → State → Prop} [State.Frame R] [State.Open R] {caller : Caller}
  (hcaller : ObeysCaller R caller)
include hcaller

/-- What comes in the place of an item is found without a patch of a collection. -/
theorem obeys_spared (patch item : Value) (index : Nat) :
    Obeys R (spared caller patch item index) := by
  refine obeys_get_bind fun s => ?_
  dsimp only
  split
  · exact obeys_fault _ s
  · rename_i hspared
    unfold updated
    refine obeysFrom_get_bind ?_
    split
    · rename_i es hes
      have hitem : s.store.collection? item = none := by
        simpa [Store.isMapping, hes] using hspared
      exact obeysFrom_merge hitem es
    · exact Callback.obeys_call hcaller _ _ _ s

theorem obeys_updateSparing (a : Address) (args : List Value) :
    Obeys R (updateSparing caller a args) :=
  obeys_updateWith hcaller (obeys_spared hcaller) a args

end Collection

end Recordset
