import Mathlib.Data.Finset.Range
import Mathlib.Data.Finset.Card
import Mathlib.Logic.Relation
import Recordset.Store
set_option autoImplicit false

/-!
# Nesting without cycles is bounded by the store

Functions that walk into what a value holds are bounded by `Store.depth`.  A value without cycles
never exhausts it: whatever lies around a value is in a cell of its own, and there are no more cells
than the depth allows for.

`outer` is what holds and `inner` what is held, in whichever way a function walks.
-/

namespace Recordset

/-- All that a value holds is nested less deeply than a bound. -/
def NestsWithin (holds : Value → Value → Prop) : Nat → Value → Prop
  | 0, _ => False
  | bound + 1, outer => ∀ inner, holds outer inner → NestsWithin holds bound inner

namespace NestsWithin

variable {holds : Value → Value → Prop}

theorem mono {bound more : Nat} (hle : bound ≤ more) :
    ∀ {v : Value}, NestsWithin holds bound v → NestsWithin holds more v := by
  induction bound generalizing more with
  | zero => intro v h; exact h.elim
  | succ bound ih =>
    intro v h
    cases more with
    | zero => omega
    | succ more => exact fun inner hinner => ih (by omega) (h inner hinner)

/-- Nothing lies inside of itself, where nesting ends. -/
theorem irrefl_of_acc {v : Value} (h : Acc (fun inner outer => holds outer inner) v) :
    ¬ Relation.TransGen holds v v := by
  induction h with
  | intro v _ ih =>
    intro hcycle
    obtain ⟨w, hvw, hwv⟩ := Relation.TransGen.head'_iff.mp hcycle
    exact ih w hvw (Relation.TransGen.tail' hwv hvw)

/-- What is left of the bound, and the cells that a walk has come through, are together as many as
the depth.  A cell that a walk comes through twice would lie inside of itself. -/
theorem of_seen {s : Store}
    (hcell : ∀ outer inner, holds outer inner → ∃ a : Address, outer = .ref a ∧ a.index < s.size) :
    ∀ (bound : Nat) (v : Value) (seen : Finset Nat),
      Acc (fun inner outer => holds outer inner) v →
      (∀ i ∈ seen, i < s.size ∧ Relation.TransGen holds (.ref ⟨i⟩) v) →
      s.size < bound + seen.card → NestsWithin holds bound v := by
  intro bound
  induction bound with
  | zero =>
    intro v seen _ hseen hcount
    have hsubset : seen ⊆ Finset.range s.size := fun i hi =>
      Finset.mem_range.mpr (hseen i hi).1
    have hcard := Finset.card_le_card hsubset
    rw [Finset.card_range] at hcard
    omega
  | succ bound ih =>
    intro v seen hacc hseen hcount inner hinner
    obtain ⟨a, rfl, ha⟩ := hcell v inner hinner
    have hfresh : a.index ∉ seen := fun hmem => irrefl_of_acc hacc (hseen a.index hmem).2
    refine ih inner (insert a.index seen) (hacc.inv hinner) ?_ ?_
    · intro i hi
      rcases Finset.mem_insert.mp hi with rfl | hi
      · exact ⟨ha, .single hinner⟩
      · exact ⟨(hseen i hi).1, (hseen i hi).2.tail hinner⟩
    · rw [Finset.card_insert_of_notMem hfresh]
      omega

/-- A value without cycles is nested less deeply than the depth of its store. -/
theorem of_acc {s : Store}
    (hcell : ∀ outer inner, holds outer inner → ∃ a : Address, outer = .ref a ∧ a.index < s.size)
    {v : Value} (hacc : Acc (fun inner outer => holds outer inner) v) :
    NestsWithin holds s.depth v := by
  refine of_seen hcell s.depth v ∅ hacc ?_ ?_
  · intro i hi
    exact absurd hi (Finset.notMem_empty i)
  · rw [Finset.card_empty, Store.depth]
    omega

end NestsWithin

end Recordset
