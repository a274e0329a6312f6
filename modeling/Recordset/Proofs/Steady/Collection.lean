import Recordset.Proofs.Obeys.Perform
import Recordset.Proofs.Steady.Value
set_option autoImplicit false

/-!
# Calls of collections are steady

Every method of a collection is steady when calls are, and so is every request to a container.
-/

namespace Recordset

open Recordset.Action

/-! ## What obeys every open relation -/

namespace Registry

@[grind ←]
theorem steady_register (a : Address) (name f : Value) : Steady (register a name f) :=
  obeys_register a name f

@[grind ←]
theorem steady_reserveAll (a : Address) (names : List String) : Steady (reserveAll a names) :=
  obeys_reserveAll a names

@[grind ←]
theorem steady_make (parent : Option Address) (reserved : List String) :
    Steady (make parent reserved) := obeys_make parent reserved

end Registry

@[grind ←]
theorem Policy.steady_make (perPage separator direction seed : Value) :
    Steady (make perPage separator direction seed) := obeys_make perPage separator direction seed

namespace Collection

@[grind ←]
theorem steady_construct (items validators : Value) (policy registry : Option Address) :
    Steady (construct items validators policy registry) :=
  obeys_construct items validators policy registry

end Collection

/-! ## Methods -/

section

variable {caller : Caller} (hcaller : SteadyCaller caller)
include hcaller

@[grind ←]
theorem Callback.steady_call (f : Value) (offered : Nat) (args : List Value) :
    Steady (Callback.call caller f offered args) := obeys_call hcaller f offered args

@[grind ←]
theorem Request.steady_joinTo (v other : Value) : Steady (joinTo caller v other) :=
  obeys_joinTo hcaller v other

namespace Collection

@[grind ←]
theorem steady_updated (patch item : Value) (index : Nat) :
    Steady (updated caller patch item index) := by
  unfold updated
  grind

@[grind ←]
theorem steady_update (a : Address) (args : List Value) : Steady (update caller a args) := by
  rw [update_eq_updateWith]
  exact obeys_updateWith hcaller (steady_updated hcaller) a args

@[grind ←]
theorem steady_perform (a : Address) (c : Call) : Steady (perform caller a c) := by
  obtain ⟨method, values⟩ := c
  by_cases hmethod : method = .update
  · subst hmethod
    exact steady_update hcaller a values
  · exact obeys_perform hcaller hmethod a

@[grind ←]
theorem steady_invoke (a : Address) (m : Method) (args : Arguments) :
    Steady (Collection.invoke caller a m args) := by
  unfold Collection.invoke
  grind

end Collection

@[grind ←]
theorem Request.steady_answer (r : Request) (v : Value) (args : List Value) :
    Steady (r.answer caller v args) := obeys_answer hcaller r v args

end

end Recordset
