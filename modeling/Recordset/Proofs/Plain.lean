import Mathlib.Logic.Relation
import Recordset.Proofs.Made
import Recordset.Proofs.Nesting
import Recordset.Proofs.Ownership.Basic
import Recordset.Value.Plain
set_option autoImplicit false

/-!
# What plain values are made of

A value lies in another one when list elements, tuple elements and the values under keys lead to it
(`Store.LiesIn`).  In a value that has been rebuilt there is no collection, no tuple and no
read-only mapping (`Action.plain_unwraps`): a rebuilt container is a new list or a new mapping, and
what has not been rebuilt was no container.  A value in which nesting ends is rebuilt
(`Action.plain_ok`).
-/

namespace Recordset

/-! ## Containers -/

/-- Whether a value with this cell is a container, in whose place another one is given. -/
def Cell.isContainer : Cell → Bool
  | .list _ | .tuple _ | .dict _ | .frozen _ | .collection _ => true
  | _ => false

/-- Whether a value with this cell is a container of a kind that no rebuilt one has. -/
def Cell.isWrapper : Cell → Bool
  | .tuple _ | .frozen _ | .collection _ => true
  | _ => false

namespace Store

/-- The elements of a list or a tuple, and the values of a mapping. -/
def inside (s : Store) (v : Value) : List Value :=
  match s.entries? v with
  | some es => es.map (·.2)
  | none => (s.sequence? v).getD []

/-- Elements and values under keys lead from one value to another. -/
def LiesIn (s : Store) (outer inner : Value) : Prop :=
  Relation.ReflTransGen (fun v w => w ∈ s.inside v) outer inner

/-- What a container is rebuilt from: the elements, the items or the values. -/
def content (s : Store) (v : Value) : List Value :=
  match s.entries? v with
  | some es => es.map (·.2)
  | none => (Action.plainItems? s v).getD []

/-- What a value is rebuilt from is rebuilt itself, and so on; at some point there is nothing more
to rebuild. -/
def NestingEnds (s : Store) (v : Value) : Prop :=
  Acc (fun inner outer => inner ∈ s.content outer) v

section

variable {s : Store} {v : Value} {es : Entries} {xs : List Value}

theorem entries?_of_no_container (hv : ∀ c, s.view v = some c → c.isContainer = false) :
    s.entries? v = none := by
  unfold entries?
  cases hc : s.view v with
  | none => rfl
  | some c =>
    cases c with
    | dict | frozen => cases hv _ hc
    | _ => rfl

theorem plainItems?_of_no_container (hv : ∀ c, s.view v = some c → c.isContainer = false) :
    Action.plainItems? s v = none := by
  unfold Action.plainItems? collection? sequence?
  cases hc : s.view v with
  | none => rfl
  | some c =>
    cases c with
    | list | tuple | collection => cases hv _ hc
    | _ => rfl

theorem entries?_of_plainItems (hxs : Action.plainItems? s v = some xs) : s.entries? v = none := by
  cases hes : s.entries? v with
  | none => rfl
  | some es =>
    rcases view_of_entries? hes with hc | hc <;>
      simp [Action.plainItems?, collection?, sequence?, hc] at hxs

theorem plainItems?_of_list {a : Address} (hxs : s.cell? a = some (.list xs)) :
    Action.plainItems? s (.ref a) = some xs := by
  simp [Action.plainItems?, collection?, sequence?, view, hxs]

theorem content_of_entries (hes : s.entries? v = some es) : s.content v = es.map (·.2) := by
  unfold content
  rw [hes]

theorem content_of_plainItems (hxs : Action.plainItems? s v = some xs) : s.content v = xs := by
  unfold content
  rw [entries?_of_plainItems hxs, hxs]
  rfl

theorem mem_content_of_entries (hes : s.entries? v = some es) {e : Value × Value} (he : e ∈ es) :
    e.2 ∈ s.content v := by
  rw [content_of_entries hes]
  exact List.mem_map_of_mem he

theorem mem_content_of_plainItems (hxs : Action.plainItems? s v = some xs) {x : Value}
    (hx : x ∈ xs) : x ∈ s.content v := by
  rwa [content_of_plainItems hxs]

/-- What is no container is rebuilt from nothing. -/
theorem content_of_no_container (hv : ∀ c, s.view v = some c → c.isContainer = false) :
    s.content v = [] := by
  unfold content
  rw [entries?_of_no_container hv, plainItems?_of_no_container hv]
  rfl

/-- Nesting that ends is bounded by the store. -/
theorem NestingEnds.nestsWithin (h : s.NestingEnds v) :
    NestsWithin (fun outer inner => inner ∈ s.content outer) s.depth v := by
  refine NestsWithin.of_acc (fun outer inner hinner => ?_) h
  cases hc : s.view outer with
  | none =>
    rw [content_of_no_container (by simp [hc])] at hinner
    cases hinner
  | some c =>
    cases outer with
    | ref a => exact ⟨a, rfl, index_lt_of_cell? hc⟩
    | _ => cases hc

end

end Store

namespace Action

/-- A value is rebuilt within the depth of the store. -/
theorem execute_plain (s : State) (v : Value) :
    (plain v).execute s = (plainAt s.store.depth v).execute s := by
  unfold plain
  rw [execute_get_bind]

/-- A value that is not rebuilt is no container. -/
theorem isContainer_of_not_rebuilt {s : Store} {v : Value} {c : Cell} (hc : s.view v = some c)
    (hentries : s.entries? v = none) (hitems : plainItems? s v = none) : c.isContainer = false := by
  cases c with
  | list | tuple => simp [plainItems?, Store.collection?, Store.sequence?, hc] at hitems
  | dict | frozen => simp [Store.entries?, hc] at hentries
  | collection => simp [plainItems?, Store.collection?, hc] at hitems
  | _ => rfl

end Action

/-- The cell of a known value is as it was. -/
theorem State.Later.view_of_knows {s t : State} {v : Value} (h : s.Later t)
    (hv : s.store.Knows v) : t.store.view v = s.store.view v := by
  cases v with
  | ref a => exact h.cell? hv
  | _ => rfl

/-- The entries of a known mapping are as they were. -/
theorem State.Later.entries?_of_knows {s t : State} {v : Value} (h : s.Later t)
    (hv : s.store.Knows v) : t.store.entries? v = s.store.entries? v := by
  unfold Store.entries?
  rw [h.view_of_knows hv]

/-! ## What rebuilding makes -/

namespace State

/-- A value is no container that has been made by a certain moment. -/
def Bare (s : State) (v : Value) : Prop := ∀ c, s.store.view v = some c → c.isContainer = false

/-- A list or a mapping that holds none of the containers from before. -/
def IsRebuilt (s : State) : Cell → Prop
  | .list xs => ∀ x ∈ xs, s.Bare x
  | .dict es => ∀ e ∈ es, s.Bare e.2
  | _ => False

/-- Since a certain moment nothing has been made but such lists and mappings. -/
structure Rebuilt (s t : State) : Prop where
  later : s.Later t
  cells : ∀ (a : Address) (c : Cell), s.store.size ≤ a.index → t.store.cell? a = some c →
    s.IsRebuilt c

variable {s t : State} {v x : Value} {c : Cell}

theorem Rebuilt.refl (s : State) : s.Rebuilt s :=
  ⟨.refl s, fun _ _ ha hc => absurd (Store.index_lt_of_cell? hc) (Nat.not_lt.mpr ha)⟩

/-- What is made later than a certain moment is no container from before. -/
theorem bare_of_size_le {a : Address} (ha : s.store.size ≤ a.index) : s.Bare (.ref a) :=
  fun _ hc => absurd (Store.index_lt_of_cell? hc) (Nat.not_lt.mpr ha)

theorem Rebuilt.alloc (h : s.Rebuilt t) (hc : s.IsRebuilt c) :
    s.Rebuilt { t with store := (t.store.alloc c).2 } := by
  refine ⟨h.later.trans (t.later_alloc c), fun a d ha hd => ?_⟩
  rcases Store.cell?_alloc_eq_some.mp hd with hold | ⟨-, rfl⟩
  · exact h.cells a d ha hold
  · exact hc

/-- A value that was no container is still none, or it has been rebuilt. -/
theorem Rebuilt.cell (h : s.Rebuilt t) (hv : s.Bare v) (hc : t.store.view v = some c) :
    c.isContainer = false ∨ s.IsRebuilt c := by
  cases v with
  | ref a =>
    by_cases ha : a.index < s.store.size
    · exact .inl (hv c ((h.later.cell? ha).symm.trans hc))
    · exact .inr (h.cells a c (Nat.not_lt.mp ha) hc)
  | _ => cases hc

theorem Rebuilt.bare_of_mem_inside (h : s.Rebuilt t) (hv : s.Bare v)
    (hx : x ∈ t.store.inside v) : s.Bare x := by
  cases hc : t.store.view v with
  | none =>
    simp only [Store.inside, Store.entries?, Store.sequence?, hc] at hx
    cases hx
  | some c =>
    simp only [Store.inside, Store.entries?, Store.sequence?, hc] at hx
    rcases h.cell hv hc with hnone | hrebuilt
    · -- nothing lies in what is no container
      cases c with
      | list | tuple | dict | frozen | collection => cases hnone
      | _ => cases hx
    · cases c with
      | list xs => exact hrebuilt x hx
      | dict es =>
        obtain ⟨e, he, rfl⟩ := List.mem_map.mp hx
        exact hrebuilt e he
      | _ => exact hrebuilt.elim

theorem Rebuilt.bare_of_liesIn (h : s.Rebuilt t) (hv : s.Bare v) (hx : t.store.LiesIn v x) :
    s.Bare x := by
  induction hx with
  | refl => exact hv
  | tail _ hstep ih => exact h.bare_of_mem_inside ih hstep

/-- Nothing that lies in a rebuilt value is a collection, a tuple or a read-only mapping. -/
theorem Rebuilt.isWrapper_of_liesIn (h : s.Rebuilt t) (hv : s.Bare v) (hx : t.store.LiesIn v x)
    (hc : t.store.view x = some c) : c.isWrapper = false := by
  rcases h.cell (h.bare_of_liesIn hv hx) hc with hnone | hrebuilt
  · cases c <;> first | rfl | cases hnone
  · cases c <;> first | rfl | exact hrebuilt.elim

end State

namespace Action

section

variable {s : State}

/-- An action that succeeds makes nothing but rebuilt containers, and its result has a property. -/
def Rebuilds {α : Type} (s : State) (P : α → Prop) (x : Action α) : Prop :=
  ∀ t a u, s.Rebuilt t → x.execute t = (.ok a, u) → s.Rebuilt u ∧ P a

theorem rebuilds_pure {α : Type} {P : α → Prop} {a : α} (ha : P a) :
    Rebuilds s P (pure a : Action α) := by
  intro t b u ht hrun
  cases hrun
  exact ⟨ht, ha⟩

theorem rebuilds_bind {α β : Type} {P : α → Prop} {Q : β → Prop} {x : Action α}
    {f : α → Action β} (hx : Rebuilds s P x) (hf : ∀ a, P a → Rebuilds s Q (f a)) :
    Rebuilds s Q (x >>= f) := by
  intro t b w ht hrun
  obtain ⟨a, u, hfirst, hrest⟩ := execute_bind_ok hrun
  obtain ⟨hu, ha⟩ := hx t a u ht hfirst
  exact hf a ha u b w hu hrest

theorem rebuilds_make {c : Cell} (hc : s.IsRebuilt c) : Rebuilds s s.Bare (make c) := by
  intro t v u ht hrun
  cases hrun
  exact ⟨ht.alloc hc, State.bare_of_size_le ht.later.size_le⟩

theorem rebuilds_plainAll {plain : Value → Action Value}
    (hplain : ∀ v, Rebuilds s s.Bare (plain v)) (vs : List Value) :
    Rebuilds s (fun ws => ∀ w ∈ ws, s.Bare w) (plainAll plain vs) := by
  induction vs with
  | nil => exact rebuilds_pure fun w hw => nomatch hw
  | cons v vs ih =>
    unfold plainAll
    refine rebuilds_bind (hplain v) fun w hw => rebuilds_bind ih fun ws hws => ?_
    exact rebuilds_pure (List.forall_mem_cons.mpr ⟨hw, hws⟩)

theorem rebuilds_plainEntries {plain : Value → Action Value}
    (hplain : ∀ v, Rebuilds s s.Bare (plain v)) (es : Entries) :
    Rebuilds s (fun fs : Entries => ∀ f ∈ fs, s.Bare f.2) (plainEntries plain es) := by
  rw [plainEntries_eq]
  refine rebuilds_bind (rebuilds_plainAll hplain _) fun ws hws => ?_
  exact rebuilds_pure fun f hf => hws f.2 (List.of_mem_zip hf).2

/-- Rebuilding gives a new list, a new mapping, or what was no container. -/
theorem rebuilds_plainAt (fuel : Nat) : ∀ v, Rebuilds s s.Bare (plainAt fuel v) := by
  induction fuel with
  | zero =>
    intro v t a u _ hrun
    cases hrun
  | succ fuel ih =>
    intro v t a u ht hrun
    unfold plainAt at hrun
    rw [execute_get_bind] at hrun
    dsimp only at hrun
    split at hrun
    · exact rebuilds_bind (rebuilds_plainEntries ih _)
        (fun fs hfs => rebuilds_make (show s.IsRebuilt (.dict fs) from hfs)) t a u ht hrun
    · exact rebuilds_bind (rebuilds_plainAll ih _)
        (fun ws hws => rebuilds_make (show s.IsRebuilt (.list ws) from hws)) t a u ht hrun
    · rename_i hentries hitems
      cases hrun
      refine ⟨ht, fun c hc => ?_⟩
      have hthere : t.store.view v = some c := by
        cases v with
        | ref b => exact ht.later.grows.cells b c hc
        | _ => cases hc
      exact isContainer_of_not_rebuilt hthere hentries hitems

/-- In a value that has been rebuilt there is no collection, no tuple and no read-only mapping, and
rebuilding it has changed nothing. -/
theorem plain_unwraps {v w : Value} {t : State} (hrun : (plain v).execute s = (.ok w, t)) :
    s.Later t ∧
      ∀ x c, t.store.LiesIn w x → t.store.view x = some c → c.isWrapper = false := by
  rw [execute_plain] at hrun
  obtain ⟨hrebuilt, hw⟩ := rebuilds_plainAt s.store.depth v s w t (.refl s) hrun
  exact ⟨hrebuilt.later, fun x c hx hc => hrebuilt.isWrapper_of_liesIn hw hx hc⟩

end

/-! ## Nesting that ends -/

section

variable {s t : State} {v : Value}

/-- The items of a known collection, list or tuple are as they were. -/
theorem plainItems?_later (hclosed : s.store.Closed) (ht : s.Later t) (hv : s.store.Knows v) :
    plainItems? t.store v = plainItems? s.store v := by
  unfold plainItems? Store.collection? Store.sequence?
  rw [ht.view_of_knows hv]
  cases hview : s.store.view v with
  | none => rfl
  | some c =>
    cases c with
    | collection d =>
      have hlist : s.store.Knows (.ref d.list) := by
        cases v with
        | ref a => exact hclosed.knows hview (by simp [Cell.parts])
        | _ => cases hview
      have hitems : t.store.items d = s.store.items d := by
        unfold Store.items
        rw [show t.store.cell? d.list = _ from ht.cell? hlist]
      simp only [hitems]
    | _ => rfl

/-- What a known container is rebuilt from is known. -/
theorem knows_of_mem_plainItems (hclosed : s.store.Closed) {xs : List Value}
    (hxs : plainItems? s.store v = some xs) {x : Value} (hx : x ∈ xs) : s.store.Knows x := by
  cases v with
  | ref a =>
    cases hcell : s.store.cell? a with
    | none => simp [plainItems?, Store.collection?, Store.sequence?, Store.view, hcell] at hxs
    | some c =>
      cases c with
      | list ys | tuple ys =>
        simp only [plainItems?, Store.collection?, Store.sequence?, Store.view, hcell,
          Option.map_none, Option.some.injEq] at hxs
        subst hxs
        exact hclosed.knows hcell hx
      | collection d =>
        simp only [plainItems?, Store.collection?, Store.view, hcell, Option.map_some,
          Option.some.injEq] at hxs
        subst hxs
        simp only [Store.items] at hx
        split at hx
        · rename_i ys hlist
          exact hclosed.knows hlist hx
        · cases hx
      | _ => simp [plainItems?, Store.collection?, Store.sequence?, Store.view, hcell] at hxs
  | _ => simp [plainItems?, Store.collection?, Store.sequence?, Store.view] at hxs

theorem plainAll_ok {plain : Value → Action Value} (vs : List Value)
    (hplain : ∀ v ∈ vs, ∀ t, s.Later t → ∃ w u, (plain v).execute t = (.ok w, u) ∧ s.Later u)
    (ht : s.Later t) : ∃ ws u, (plainAll plain vs).execute t = (.ok ws, u) ∧ s.Later u := by
  induction vs generalizing t with
  | nil => exact ⟨[], t, rfl, ht⟩
  | cons v vs ih =>
    obtain ⟨w, u, hw, hu⟩ := hplain v List.mem_cons_self t ht
    obtain ⟨ws, x, hws, hx⟩ := ih (fun y hy => hplain y (List.mem_cons_of_mem v hy)) hu
    refine ⟨w :: ws, x, ?_, hx⟩
    rw [plainAll, execute_bind_of_ok hw, execute_bind_of_ok hws]
    rfl

theorem plainEntries_ok {plain : Value → Action Value} (es : Entries)
    (hplain : ∀ e ∈ es, ∀ t, s.Later t → ∃ w u, (plain e.2).execute t = (.ok w, u) ∧ s.Later u)
    (ht : s.Later t) : ∃ fs u, (plainEntries plain es).execute t = (.ok fs, u) ∧ s.Later u := by
  have hvalues : ∀ v ∈ es.map (·.2), ∀ t, s.Later t →
      ∃ w u, (plain v).execute t = (.ok w, u) ∧ s.Later u :=
    List.forall_mem_map.mpr hplain
  obtain ⟨ws, u, hws, hu⟩ := plainAll_ok _ hvalues ht
  refine ⟨(es.map (·.1)).zip ws, u, ?_, hu⟩
  rw [plainEntries_eq, execute_bind_of_ok hws]
  rfl

/-- A known value is rebuilt within any bound that its nesting keeps to. -/
theorem plainAt_ok (hclosed : s.store.Closed) (bound : Nat) :
    ∀ (v : Value) (t : State), s.store.Knows v → s.Later t →
      NestsWithin (fun outer inner => inner ∈ s.store.content outer) bound v →
      ∃ w u, (plainAt bound v).execute t = (.ok w, u) ∧ s.Later u := by
  induction bound with
  | zero => exact fun v t _ _ hnests => hnests.elim
  | succ bound ih =>
    intro v t hv ht hnests
    rw [plainAt, execute_get_bind]
    dsimp only
    rw [ht.entries?_of_knows hv, plainItems?_later hclosed ht hv]
    cases hes : s.store.entries? v with
    | some es =>
      have hinner : ∀ e ∈ es, ∀ t, s.Later t →
          ∃ w u, (plainAt bound e.2).execute t = (.ok w, u) ∧ s.Later u := by
        intro e he t ht
        exact ih e.2 t (hclosed.knows_entry hes he).2 ht
          (hnests e.2 (Store.mem_content_of_entries hes he))
      obtain ⟨fs, u, hfs, hu⟩ := plainEntries_ok es hinner ht
      dsimp only
      rw [execute_bind_of_ok hfs]
      exact ⟨_, _, rfl, hu.trans (u.later_alloc _)⟩
    | none =>
      cases hxs : plainItems? s.store v with
      | some xs =>
        have hinner : ∀ x ∈ xs, ∀ t, s.Later t →
            ∃ w u, (plainAt bound x).execute t = (.ok w, u) ∧ s.Later u := by
          intro x hx t ht
          exact ih x t (knows_of_mem_plainItems hclosed hxs hx) ht
            (hnests x (Store.mem_content_of_plainItems hxs hx))
        obtain ⟨ws, u, hws, hu⟩ := plainAll_ok xs hinner ht
        dsimp only
        rw [execute_bind_of_ok hws]
        exact ⟨_, _, rfl, hu.trans (u.later_alloc _)⟩
      | none => exact ⟨v, t, rfl, ht⟩

/-- A known value in which nesting ends is rebuilt. -/
theorem plain_ok (hclosed : s.store.Closed) (hv : s.store.Knows v)
    (hends : s.store.NestingEnds v) : ∃ w t, (plain v).execute s = (.ok w, t) := by
  obtain ⟨w, t, hrun, -⟩ := plainAt_ok hclosed s.store.depth v s hv (.refl s) hends.nestsWithin
  exact ⟨w, t, (execute_plain s v).trans hrun⟩

end

end Action

end Recordset
