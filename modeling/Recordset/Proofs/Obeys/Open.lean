import Recordset.Proofs.Obeys.Change
set_option autoImplicit false

/-!
# Patches and assignments obey

A relation is open when lists, mappings, objects, registries and executors can be changed at will,
attributes can be set, and every collection can be changed by its own methods (`State.Open`).
Patches of values that are no collections themselves obey it, and so do assignments to what a
container holds.
-/

namespace Recordset

open Recordset.Action

/-- Whether a cell has entries or fields that a patch can change. -/
def Cell.hasFields : Cell → Bool
  | .dict _ | .object _ | .custom _ _ | .registry _ | .executor _ => true
  | _ => false

/-- A frame that lets all be changed but what a collection keeps for itself. -/
class State.Open (R : State → State → Prop) [State.Frame R] : Prop where
  revise : ∀ {s : State} {a : Address} {c d : Cell}, s.store.cell? a = some c → c.Becomes d →
    c.hasFields = true → R s { s with store := s.store.write a d }
  /-- no attribute is set on a record -/
  mark : ∀ {s : State} {v : Value} (name : String) (x : Value),
    (∀ a, v.same (.ref a) = true →
      ∀ kind fields, s.store.cell? a ≠ some (.record kind fields)) →
    R s { s with store := s.store.setMark v name x }
  assign : ∀ {s : State} {a : Address} {xs : List Value} (ys : List Value),
    s.store.cell? a = some (.list xs) → R s { s with store := s.store.write a (.list ys) }
  grow : ∀ {s : State} {a : Address} {c : Collection} (grown : Bool),
    s.store.cell? a = some (.collection c) →
    R s { s with store := s.store.write a (.collection { c with grown }) }

/-- A value is no collection: it is not shared, or its cell is there and holds something else. -/
def Store.IsPlain (s : Store) (v : Value) : Prop :=
  ∀ a, v = .ref a → ∃ c, s.cell? a = some c ∧ c.isCollection = false

/-- What is no collection becomes none. -/
theorem State.Evolves.isPlain {s t : State} (h : s.Evolves t) {v : Value}
    (hv : s.store.IsPlain v) : t.store.IsPlain v := by
  intro a ha
  obtain ⟨c, hc, hplain⟩ := hv a ha
  obtain ⟨d, hd, hcd⟩ := h.cells a c hc
  refine ⟨d, hd, ?_⟩
  cases hcd with
  | collection c d => cases hplain
  | _ => exact hplain

/-- What can have attributes is no collection unless it is seen to be one. -/
theorem Store.isPlain_of_hasAttributes {s : Store} {v : Value} (hv : s.collection? v = none)
    (h : Action.hasAttributes s v = true) : s.IsPlain v := by
  rintro a rfl
  cases hc : s.cell? a with
  | none => simp [Action.hasAttributes, Store.view, hc] at h
  | some c =>
    cases c with
    | collection c => simp [Store.collection?, Store.view, hc] at hv
    | _ => exact ⟨_, rfl, rfl⟩

section

variable {R : State → State → Prop} [State.Frame R] [State.Open R]

instance (a : Address) : State.Owner R a where
  fill xs _ _ hlist := State.Open.assign xs hlist
  grow grown hc := State.Open.grow grown hc

/-! ## Patches -/

namespace Action

theorem obeysFrom_revise {s : State} {a : Address} {c d : Cell} (hc : s.store.cell? a = some c)
    (hcd : c.Becomes d) (hfields : c.hasFields = true) : ObeysFrom R s (write a d) := by
  unfold ObeysFrom
  rw [execute_write]
  exact State.Open.revise hc hcd hfields

/-- An attribute can be set on a value that is not shared. -/
theorem obeys_setMark {v : Value} (hv : ∀ a, v.same (.ref a) = false) (name : String)
    (x : Value) : Obeys R (setMark v name x) :=
  fun _ => State.Open.mark name x fun a h => absurd h (by simp [hv a])

/-- An attribute can be set on a shared value that is no record. -/
theorem obeysFrom_setMark {s : State} {a : Address} {c : Cell} (hc : s.store.cell? a = some c)
    (hkind : ∀ kind fields, c ≠ .record kind fields) (name : String) (x : Value) :
    ObeysFrom R s (setMark (.ref a) name x) := by
  refine State.Open.mark name x fun b hb kind fields hrecord => ?_
  obtain rfl : a = b := by simpa [Value.same] using hb
  rw [hc] at hrecord
  exact hkind kind fields (Option.some.inj hrecord)

omit [State.Open R] in
theorem obeysFrom_setMarkUnless {s : State} {v : Value} {name : String} {x : Value}
    (h : ObeysFrom R s (setMark v name x)) (fixed : List String) :
    ObeysFrom R s (setMarkUnless fixed v name x) := by
  unfold setMarkUnless
  split
  · exact obeys_fault _ s
  · exact h

theorem obeysFrom_setParent {s : State} {a : Address} {r : Registry}
    (hr : s.store.cell? a = some (.registry r)) (x : Value) : ObeysFrom R s (setParent a r x) := by
  unfold setParent
  refine obeysFrom_get_bind ?_
  split
  · exact obeysFrom_revise hr (.registry r _) rfl
  · exact obeysFrom_revise hr (.registry r _) rfl
  · exact obeysFrom_setMark hr (by simp) _ _

theorem obeysFrom_setExecutorAttribute {s : State} {a : Address} {e : Executor}
    (he : s.store.cell? a = some (.executor e)) (name : String) (x : Value) :
    ObeysFrom R s (setExecutorAttribute a e name x) := by
  unfold setExecutorAttribute
  split
  · exact obeysFrom_revise he (.executor _ _) rfl
  · exact obeysFrom_revise he (.executor _ _) rfl
  · exact obeysFrom_setMark he (by simp) name x

theorem obeysFrom_setCellAttribute {s : State} {a : Address} {c : Cell}
    (hc : s.store.cell? a = some c) (hplain : c.isCollection = false) (name : String) (x : Value) :
    ObeysFrom R s (setCellAttribute a name x) := by
  unfold setCellAttribute
  refine obeysFrom_cell_bind fun d hd => ?_
  obtain rfl : d = c := Option.some.inj (hd.symm.trans hc)
  cases d with
  | object fs => exact obeysFrom_revise hc (.object fs _) rfl
  | custom kind fs =>
    dsimp only
    split
    · exact obeys_fault _ s
    · exact obeysFrom_revise hc (.custom kind fs _) rfl
  | collection c => cases hplain
  | policy p => exact obeys_fault _ s
  | record kind fields => exact obeys_fault _ s
  | registry r =>
    dsimp only
    split
    · exact obeysFrom_setParent hc x
    · exact obeysFrom_setMarkUnless (obeysFrom_setMark hc (by simp) name x) _
  | builder b => exact obeysFrom_setMarkUnless (obeysFrom_setMark hc (by simp) name x) _
  | executor e => exact obeysFrom_setExecutorAttribute hc name x
  | _ => exact obeysFrom_setMark hc (by simp) name x

/-- Attributes can be set on values that are no collections. -/
theorem obeysFrom_setAttribute {s : State} {v : Value} (hv : s.store.IsPlain v) (name : String)
    (x : Value) : ObeysFrom R s (setAttribute v name x) := by
  unfold setAttribute
  cases v with
  | ref a =>
    obtain ⟨c, hc, hplain⟩ := hv a rfl
    exact obeysFrom_setCellAttribute hc hplain name x
  | builtin b => exact obeys_fault _ s
  | extension serial f receiver =>
    exact obeysFrom_setMarkUnless (obeys_setMark (fun _ => rfl) name x s) _
  | method serial a method =>
    dsimp only
    split
    · exact obeys_setMark (fun _ => rfl) name x s
    · exact obeys_fault _ s
  | _ => exact obeys_setMark (fun _ => rfl) name x s

theorem obeysFrom_setAttributes {v : Value} (patch : Entries) :
    ∀ {s : State}, s.store.IsPlain v → ObeysFrom R s (setAttributes v patch) := by
  induction patch with
  | nil => exact fun {s} _ => obeys_pure _ s
  | cons e rest ih =>
    intro s hv
    obtain ⟨k, x⟩ := e
    unfold setAttributes
    cases k with
    | str name =>
      refine obeysFrom_bind_of_related (obeysFrom_setAttribute hv name x) fun _ t _ ht => ?_
      exact ih ((State.Frame.evolves ht).isPlain hv)
    | _ => exact obeys_fault _ s

/-- Values that are no collections can be patched. -/
theorem obeysFrom_merge {s : State} {v : Value} (hv : s.store.collection? v = none)
    (patch : Entries) : ObeysFrom R s (merge v patch) := by
  unfold merge
  refine obeysFrom_get_bind ?_
  dsimp only
  split
  · rename_i a es hview
    exact obeysFrom_bind (obeysFrom_revise hview (.dict es _) rfl) fun _ => obeys_pure _
  · exact obeys_make rfl s
  · split
    · rename_i hattributes
      have hplain := Store.isPlain_of_hasAttributes hv hattributes
      exact obeysFrom_bind (obeysFrom_setAttributes patch hplain) fun _ => obeys_pure _
    · exact obeys_refuse _ s

/-! ## Assignments -/

theorem obeysFrom_writeList {s : State} {a : Address} {xs : List Value}
    (hxs : s.store.cell? a = some (.list xs)) (ys : List Value) :
    ObeysFrom R s (write a (.list ys)) := by
  unfold ObeysFrom
  rw [execute_write]
  exact State.Open.assign ys hxs

@[grind ←]
theorem obeys_fillList (list : Address) (xs : List Value) : Obeys R (fillList list xs) := by
  unfold fillList
  refine obeys_cell_bind fun c s hc => ?_
  cases c with
  | list ys => exact obeysFrom_writeList hc xs
  | _ => exact obeys_fault _ s

@[grind ←]
theorem obeys_assign (target key v : Value) : Obeys R (assign target key v) := by
  unfold assign
  cases target with
  | ref a =>
    refine obeys_cell_bind fun c s hc => ?_
    cases c with
    | list xs => exact obeysFrom_ofExcept_bind fun ys => obeysFrom_writeList hc ys
    | collection d =>
      exact obeysFrom_get_bind (obeysFrom_ofExcept_bind fun ys => obeys_fillList d.list ys s)
    | dict es =>
      refine obeysFrom_get_bind ?_
      dsimp only
      split
      · exact obeysFrom_revise hc (.dict es _) rfl
      · exact obeys_fault _ s
    | _ => exact obeys_fault _ s
  | _ => exact obeys_fault _

@[grind ←]
theorem obeys_remove (target key : Value) : Obeys R (remove target key) := by
  unfold remove
  cases target with
  | ref a =>
    refine obeys_cell_bind fun c s hc => ?_
    cases c with
    | list xs => exact obeysFrom_ofExcept_bind fun ys => obeysFrom_writeList hc ys
    | collection d =>
      exact obeysFrom_get_bind (obeysFrom_ofExcept_bind fun ys => obeys_fillList d.list ys s)
    | dict es =>
      refine obeysFrom_get_bind ?_
      dsimp only
      split
      · split
        · exact obeysFrom_revise hc (.dict es _) rfl
        · exact obeys_fault _ s
      · exact obeys_fault _ s
    | _ => exact obeys_fault _ s
  | _ => exact obeys_fault _

end Action

end

end Recordset
