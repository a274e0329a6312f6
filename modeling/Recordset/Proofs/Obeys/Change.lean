import Recordset.Proofs.Obeys.Collection
import Recordset.Proofs.Obeys.Sorting
set_option autoImplicit false

/-!
# Methods that change their own collection obey

A relation lets a collection be changed when the list that the collection holds its items in can be
filled with others, and when the collection can note whether it has grown (`State.Owner`).  The
methods that put, drop or order items do no more than that to the collection that they are called
on, besides what calls do.
-/

namespace Recordset

open Recordset.Action

/-- A base that lets one collection be changed.  Its list may be filled some time after it has been
looked up. -/
class State.Owner (R : State → State → Prop) [State.Base R] (a : Address) : Prop where
  fill : ∀ {s t : State} {c : Collection} {ys : List Value} (xs : List Value), R s t →
    s.store.cell? a = some (.collection c) → t.store.cell? c.list = some (.list ys) →
    R t { t with store := t.store.write c.list (.list xs) }
  grow : ∀ {s : State} {c : Collection} (grown : Bool), s.store.cell? a = some (.collection c) →
    R s { s with store := s.store.write a (.collection { c with grown }) }

namespace Collection

section

variable {R : State → State → Prop} [State.Base R]

@[grind ←]
theorem obeys_policyDirection (a : Address) : Obeys R (policyDirection a) := by
  unfold policyDirection
  grind

@[grind ←]
theorem obeys_withoutAll (paths : List Value) : ∀ item, Obeys R (withoutAll paths item) := by
  induction paths with
  | nil => exact fun item => obeys_pure item
  | cons path rest ih =>
    intro item
    unfold withoutAll
    grind

@[grind ←]
theorem obeys_atLeast (bound : Int) (v : Value) : Obeys R (atLeast bound v) := by
  unfold atLeast
  grind

@[grind ←]
theorem obeys_atMost (bound : Int) (v : Value) : Obeys R (atMost bound v) := by
  unfold atMost
  grind

@[grind ←]
theorem obeys_spliceStart (length : Nat) (start : Value) : Obeys R (spliceStart length start) := by
  unfold spliceStart
  grind

@[grind ←]
theorem obeys_spliceEnd (length : Nat) (start count : Value) :
    Obeys R (spliceEnd length start count) := by
  unfold spliceEnd
  grind

variable {caller : Caller} (hcaller : ObeysCaller R caller)
include hcaller

@[grind ←]
theorem obeys_directionOf (a : Address) (v : Value) : Obeys R (directionOf caller a v) := by
  unfold directionOf
  grind

theorem obeys_before (cmp x y : Value) : Obeys R (before caller cmp x y) := by
  unfold before
  grind

@[grind ←]
theorem obeys_sortKey (key : Key) (item : Value) : Obeys R (sortKey caller key item) := by
  unfold sortKey
  grind

end

variable {R : State → State → Prop} [State.Base R] {a : Address} [State.Owner R a]

/-! ## Putting items into the list -/

/-- The list that a collection has had is filled. -/
theorem obeysFrom_fillList {s t : State} {c : Collection} (hst : R s t)
    (hc : s.store.cell? a = some (.collection c)) (xs : List Value) :
    ObeysFrom R t (fillList c.list xs) := by
  unfold fillList
  refine obeysFrom_cell_bind fun cell hcell => ?_
  cases cell with
  | list ys =>
    unfold ObeysFrom
    rw [execute_write]
    exact State.Owner.fill xs hst hc hcell
  | _ => exact obeysFrom_idle rfl

omit [State.Base R] [State.Owner R a] in
/-- No collection is changed by what fills a list. -/
theorem execute_fillList {s t : State} {b : Address} {xs : List Value} {d : Collection}
    (h : (fillList b xs).execute s = (.ok (), t)) (hd : s.store.cell? a = some (.collection d)) :
    t.store.cell? a = some (.collection d) := by
  unfold fillList at h
  obtain ⟨cell, u, hcell, hrest⟩ := execute_bind_ok h
  obtain ⟨hb, rfl⟩ := execute_cell_ok hcell
  cases cell with
  | list ys =>
    rw [execute_write] at hrest
    cases hrest
    refine (Store.cell?_write_of_ne _ ?_).trans hd
    rintro rfl
    rw [hd] at hb
    cases hb
  | _ => cases hrest

/-- A collection notes whether it has grown. -/
theorem obeysFrom_grow {s : State} {c : Collection} (hc : s.store.cell? a = some (.collection c))
    (grown : Bool) : ObeysFrom R s (write a (.collection { c with grown })) := by
  unfold ObeysFrom
  rw [execute_write]
  exact State.Owner.grow grown hc

@[grind ←]
theorem obeys_setItems (xs : List Value) : Obeys R (setItems a xs) := by
  unfold setItems
  refine obeys_read_bind fun c s hc => ?_
  refine obeysFrom_bind_of_related (obeysFrom_fillList (State.Base.idle rfl) hc xs) ?_
  exact fun _ t hrun _ => obeysFrom_grow (execute_fillList hrun hc) _

theorem obeysFrom_assign {s : State} {c : Collection}
    (hc : s.store.cell? a = some (.collection c)) (key v : Value) :
    ObeysFrom R s (assign (.ref a) key v) := by
  unfold assign
  refine obeysFrom_cell_bind fun cell hcell => ?_
  obtain rfl : cell = .collection c := Option.some.inj (hcell.symm.trans hc)
  refine obeysFrom_get_bind (obeysFrom_ofExcept_bind fun ys => ?_)
  exact obeysFrom_fillList (State.Base.idle rfl) hc ys

theorem obeysFrom_remove {s : State} {c : Collection}
    (hc : s.store.cell? a = some (.collection c)) (key : Value) :
    ObeysFrom R s (remove (.ref a) key) := by
  unfold remove
  refine obeysFrom_cell_bind fun cell hcell => ?_
  obtain rfl : cell = .collection c := Option.some.inj (hcell.symm.trans hc)
  refine obeysFrom_get_bind (obeysFrom_ofExcept_bind fun ys => ?_)
  exact obeysFrom_fillList (State.Base.idle rfl) hc ys

@[grind ←]
theorem obeys_forget (keys : List Value) : Obeys R (forget a keys) := by
  unfold forget
  grind

@[grind ←]
theorem obeys_push (xs : List Value) : Obeys R (push a xs) := by
  unfold push
  grind

@[grind ←]
theorem obeys_unshift (xs : List Value) : Obeys R (unshift a xs) := by
  unfold unshift
  grind

@[grind ←]
theorem obeys_pop : Obeys R (pop a) := by
  unfold pop
  grind

@[grind ←]
theorem obeys_shift : Obeys R (shift a) := by
  unfold shift
  grind

@[grind ←]
theorem obeys_splice [State.Deriver R a] (start count : Value) (new : List Value) :
    Obeys R (splice a start count new) := by
  unfold splice
  grind

@[grind ←]
theorem obeys_shuffle : Obeys R (shuffle a) := by
  unfold shuffle
  grind

section

variable {caller : Caller} (hcaller : ObeysCaller R caller)
include hcaller

@[grind ←]
theorem obeys_delete (spec : Value) : Obeys R (delete caller a spec) := by
  unfold delete
  grind

/-! ## Ordering the items -/

@[grind ←]
theorem obeys_sortComparing (cmp : Value) (direction : Direction) :
    Obeys R (sortComparing caller a cmp direction) := by
  unfold sortComparing
  refine obeys_read_bind fun c s hc => obeysFrom_itemsOf_bind fun items => ?_
  refine obeysFrom_bind_of_related (obeysFrom_fillList (State.Base.idle rfl) hc []) ?_
  intro _ t ht hst
  refine obeysFrom_bind_of_related (obeysFrom_grow (execute_fillList ht hc) false) ?_
  intro _ u _ htu
  have hsorted := Sorting.obeysRun_sortTowards (obeys_before hcaller cmp) (direction == .desc) items
  refine obeysFrom_bind_of_related (obeys_lift hsorted u) fun r v _ huv => ?_
  -- the list that is filled at the end is the one that was emptied before the sort
  have hsv : R s v := State.Base.trans hst (State.Base.trans htu huv)
  refine obeysFrom_read_bind fun changed hv => obeysFrom_get_bind ?_
  refine obeysFrom_bind_of_related (obeysFrom_fillList hsv hc r.1) fun _ w hw _ => ?_
  refine obeysFrom_bind (obeysFrom_grow (execute_fillList hw hv) c.grown) fun _ => ?_
  grind

@[grind ←]
theorem obeys_sortByKey (key : Key) (direction : Direction) :
    Obeys R (sortByKey caller a key direction) := by
  unfold sortByKey
  grind

@[grind ←]
theorem obeys_sort (keyOrCmp direction : Value) :
    Obeys R (sort caller a keyOrCmp direction) := by
  unfold sort
  grind

end

end Collection

section

variable {R : State → State → Prop} [State.Base R] [∀ a, State.Owner R a] {caller : Caller}
  (hcaller : ObeysCaller R caller)
include hcaller

/-- A copy is sorted by its own method. -/
@[grind ←]
theorem Collection.obeys_sorted (a : Address) [State.Deriver R a] (key : Value)
    (direction : Direction) : Obeys R (sorted caller a key direction) := by
  unfold sorted
  refine obeys_bind (obeys_through hcaller (obeys_clone hcaller a) _ _ _) fun copy => ?_
  refine obeys_bind obeys_get fun s => ?_
  split
  · exact obeys_through hcaller (obeys_sort hcaller key _) _ _ _
  · exact obeys_callMethod hcaller _ _ _

end

end Recordset
