import Recordset.Proofs.Collection.Visit
import Recordset.Proofs.Ownership.Confined
set_option autoImplicit false

/-!
# Sorting a copy changes nothing

A sorted collection is made by sorting a copy in place.  What the sort changes belongs to the copy,
which is new, so that all that was there before is as it was.
-/

namespace Recordset

open Recordset.Action

/-- A change that is confined to a new collection over a new list leaves alone what was there
before. -/
theorem State.Extends.of_confined {s t u : State} {b : Address} {d : Collection}
    (hst : s.Extends t) (htu : Confined b t u) (hd : t.store.cell? b = some (.collection d))
    (hb : s.store.size ≤ b.index) (hlist : s.store.size ≤ d.list.index) : s.Extends u := by
  have hspares := htu.spares hd
  refine ⟨fun a c hc => ?_, hspares.marks.trans hst.marks⟩
  have hlt : a.index < s.store.size := Store.index_lt_of_cell? hc
  obtain ⟨e, he, hce⟩ := hst.cells a c hc
  have hold : ¬t.store.BelongsTo a b := by
    rintro (rfl | ⟨d', hd', rfl⟩)
    · exact absurd hlt (Nat.not_lt.mpr hb)
    · rw [hd] at hd'
      cases hd'
      exact absurd hlt (Nat.not_lt.mpr hlist)
  obtain ⟨f, hf, hef⟩ := hspares.cells he hold
  exact ⟨f, hf, hce.trans hef⟩

namespace Collection

variable {caller : Caller} {a : Address} {c : Collection} {s : State}

/-- A copy of a collection that no patch has given another method. -/
theorem execute_clone (hc : s.store.cell? a = some (.collection c)) (hfields : c.fields = []) :
    (through caller a .clone [] (clone caller a)).execute s =
      (derived a (s.store.items c)).execute s := by
  have hown : ∀ m : Method, c.fields.lookup m.name = none := fun m => by rw [hfields]; rfl
  rw [execute_through hc (hown _)]
  unfold clone
  rw [execute_through hc (hown _)]
  unfold collect itemsOf
  dsimp only
  rw [bind_assoc, execute_bind_of_ok (execute_read hc), bind_assoc, execute_get_bind, pure_bind]

variable (hcaller : ObeysCaller State.Gentle caller)
include hcaller

/-- Where collections own their lists, a sorted collection is made without a change. -/
theorem extends_sorted (howns : s.store.OwnsLists) (hc : s.store.cell? a = some (.collection c))
    (key : Value) (direction : Direction) :
    s.Extends ((sorted caller a key direction).execute s).2 := by
  let list := (s.store.alloc (.list (s.store.items c))).2
  let t : State := { s with store := (list.alloc (.collection (c.derive ⟨s.store.size⟩))).2 }
  have hcopy : (through caller a .clone [] (clone caller a)).execute s =
      (.ok (.ref ⟨list.size⟩), t) := by
    rw [execute_clone hc (howns.unpatched hc), execute_derived hc]
  have hb : t.store.cell? ⟨list.size⟩ = some (.collection (c.derive ⟨s.store.size⟩)) :=
    list.cell?_alloc _
  have hst : s.Extends t := State.Frame.collect s _ _ rfl rfl
  have hlist : s.store.size ≤ list.size := (s.grows_alloc _).extends.evolves.size_le
  unfold sorted
  rw [execute_bind_of_ok hcopy, execute_get_bind]
  have hview : t.store.view (.ref ⟨list.size⟩) =
    some (.collection (c.derive ⟨s.store.size⟩)) := hb
  rw [hview]
  have hsort : State.Confined ⟨list.size⟩ t
      ((through caller ⟨list.size⟩ .sort [key, .str direction.text]
        (sort caller ⟨list.size⟩ key (.str direction.text))).execute t).2 :=
    obeys_through (obeysCaller_of_gentle hcaller)
      (obeys_sort (obeysCaller_of_gentle hcaller) _ _) _ _ _ t
  exact hst.of_confined hsort hb hlist (Nat.le_refl _)

end Collection

end Recordset
