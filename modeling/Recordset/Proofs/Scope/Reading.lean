import Recordset.Proofs.Equality
import Recordset.Proofs.Query.PlainData
import Recordset.Proofs.Scope.Agree
set_option autoImplicit false

/-!
# Looking at the values of a scope

Stores that are the same on a scope show the same of its values: their kinds, elements and entries,
how they compare, hash and are written.  What is looked up in them is in the scope again.
-/

namespace Recordset

open Recordset.Action

namespace Scope

variable {sc : Scope} {s t : Store} {v w : Value}

/-! ## Cells -/

theorem Closed.view (h : sc.Closed s) (hv : sc.Has v) : sc.Has (s.view v) := by
  cases v with
  | ref a => exact fun c hc => h.cells hv hc
  | _ => exact has_none sc

/-- What the cell of a value of the scope holds is in the scope. -/
theorem Closed.has_of_view (h : sc.Closed s) (hv : sc.Has v) {c : Cell} (hc : s.view v = some c) :
    sc.Has c := h.view hv c hc

theorem Closed.items (h : sc.Closed s) {c : Collection} (hc : sc.Has c) : sc.Has (s.items c) := by
  unfold Store.items
  split
  · rename_i xs hxs
    exact h.cells hc.1 hxs
  · exact has_nil sc

theorem Closed.entries? (h : sc.Closed s) (hv : sc.Has v) : sc.Has (s.entries? v) := by
  intro es hes
  rcases Store.view_of_entries? hes with hview | hview
  · exact has_cell_dict.mp (h.has_of_view hv hview)
  · exact has_cell_frozen.mp (h.has_of_view hv hview)

theorem Closed.sequence? (h : sc.Closed s) (hv : sc.Has v) : sc.Has (s.sequence? v) := by
  unfold Store.sequence?
  split
  · rename_i xs hview
    exact has_some.mpr (has_cell_list.mp (h.has_of_view hv hview))
  · rename_i xs hview
    exact has_some.mpr (has_cell_tuple.mp (h.has_of_view hv hview))
  · exact has_none sc

theorem Closed.collection? (h : sc.Closed s) (hv : sc.Has v) : sc.Has (s.collection? v) := by
  unfold Store.collection?
  split
  · rename_i c hview
    have hc : sc.Has c := has_cell_collection.mp (h.has_of_view hv hview)
    exact has_some.mpr ⟨hc, h.items hc⟩
  · exact has_none sc

theorem Closed.mark? (h : sc.Closed s) (hv : sc.Has v) (name : String) :
    sc.Has (s.mark? v name) := by
  rw [Store.mark?_eq]
  exact ((h.marks hv).reverse.find? _).option_map fun _ hm => has_snd hm

theorem Closed.plainItems? {s : State} (h : sc.Closed s.store) (hv : sc.Has v) :
    sc.Has (plainItems? s.store v) := by
  unfold Action.plainItems?
  have hc := h.collection? hv
  cases hfound : s.store.collection? v with
  | none => exact h.sequence? hv
  | some c =>
    rw [hfound] at hc
    exact has_some.mpr (has_snapshot_iff.mp (has_some.mp hc)).2

section

variable (h : sc.SameStore s t) (hv : sc.Has v)
include h

theorem SameStore.depth : s.depth = t.depth := congrArg (· + 2) h.size

theorem SameStore.items {c : Collection} (hc : sc.Has c) : s.items c = t.items c := by
  unfold Store.items
  rw [h.cells hc.1]

include hv

theorem SameStore.view : s.view v = t.view v := by
  cases v with
  | ref a => exact h.cells hv
  | _ => rfl

/-- The items of a collection that a value of the scope is. -/
theorem SameStore.items_of_view {c : Collection} (hc : t.view v = some (.collection c)) :
    s.items c = t.items c :=
  h.items (has_cell_collection.mp (h.closed.has_of_view hv hc))

theorem SameStore.mark? (name : String) : s.mark? v name = t.mark? v name := by
  rw [Store.mark?_eq, Store.mark?_eq, h.marks hv]

theorem SameStore.kind : s.kind v = t.kind v := by
  cases v with
  | ref a => simp only [Store.kind, h.cells hv]
  | _ => rfl

theorem SameStore.comparedKind : s.comparedKind v = t.comparedKind v := by
  unfold Store.comparedKind
  rw [h.kind hv]

theorem SameStore.entries? : s.entries? v = t.entries? v := by
  unfold Store.entries?
  rw [h.view hv]

theorem SameStore.isMapping : s.isMapping v = t.isMapping v := by
  unfold Store.isMapping
  rw [h.entries? hv]

theorem SameStore.sequence? : s.sequence? v = t.sequence? v := by
  unfold Store.sequence?
  rw [h.view hv]

theorem SameStore.unreadable? : s.unreadable? v = t.unreadable? v := by
  unfold Store.unreadable?
  rw [h.view hv]

theorem SameStore.collection? : s.collection? v = t.collection? v := by
  unfold Store.collection?
  rw [h.view hv]
  split
  · rename_i c hc
    rw [h.items_of_view hv hc]
  · rfl

theorem SameStore.plainItems? : Action.plainItems? s v = Action.plainItems? t v := by
  unfold Action.plainItems?
  rw [h.collection? hv, h.sequence? hv]

theorem SameStore.isCallable : s.isCallable v = t.isCallable v := by
  cases v with
  | ref a => simp only [Store.isCallable, h.view hv]
  | _ => rfl

theorem SameStore.isIterable : s.isIterable v = t.isIterable v := by
  cases v with
  | ref a => simp only [Store.isIterable, h.view hv]
  | _ => rfl

theorem SameStore.isKeyKind : s.isKeyKind v = t.isKeyKind v := by
  unfold Store.isKeyKind
  rw [h.view hv]

theorem SameStore.truth : s.truth v = t.truth v := by
  cases v with
  | ref a =>
    simp only [Store.truth, h.view hv]
    split
    case h_6 c hc => rw [h.items_of_view hv hc]
    all_goals rfl
  | _ => rfl

theorem SameStore.length : s.length v = t.length v := by
  cases v with
  | ref a =>
    simp only [Store.length, h.view hv]
    split
    case h_6 c hc => rw [h.items_of_view hv hc]
    all_goals rfl
  | _ => rfl

theorem SameStore.elements : s.elements v = t.elements v := by
  cases v with
  | ref a =>
    simp only [Store.elements, h.view hv]
    split
    case h_7 c hc => rw [h.items_of_view hv hc]
    all_goals rfl
  | _ => rfl

end

end Scope

end Recordset
