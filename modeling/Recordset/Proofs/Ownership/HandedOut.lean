import Recordset.Collection.Perform
import Recordset.Proofs.Collection.Visit
import Recordset.Proofs.Ownership.Basic
set_option autoImplicit false

/-!
# Lists that are handed out

The methods that give the items as a list, or as plain values, give a new list that no collection
keeps its items in, and neither does one in any other list that they make on the way.
-/

namespace Recordset

open Recordset.Action

/-- The methods that give a list. -/
def Method.listing : List Method := [.all, .toJson, .toList]

/-- Every collection of a state has been there before. -/
def State.Adds (s t : State) : Prop :=
  ∀ (a : Address) (c : Collection), t.store.cell? a = some (.collection c) →
    s.store.cell? a = some (.collection c)

namespace Action

variable {s : State}

theorem keeps_plainAll {P : State → Prop} {plain : Value → Action Value}
    (hplain : ∀ v, Keeps P (plain v)) (vs : List Value) : Keeps P (plainAll plain vs) := by
  induction vs with
  | nil => exact keeps_pure _
  | cons v vs ih =>
    unfold plainAll
    exact keeps_bind (hplain v) fun w => keeps_bind ih fun ws => keeps_pure _

theorem keeps_plainEntries {P : State → Prop} {plain : Value → Action Value}
    (hplain : ∀ v, Keeps P (plain v)) (es : Entries) : Keeps P (plainEntries plain es) := by
  rw [plainEntries_eq]
  exact keeps_bind (keeps_plainAll hplain _) fun ws => keeps_pure _

theorem adds_make {c : Cell} (hc : c.isCollection = false) : Keeps s.Adds (make c) := by
  intro t h a d hd
  rcases Store.cell?_alloc_eq_some.mp hd with hold | ⟨-, rfl⟩
  · exact h a d hold
  · cases hc

/-- Plain values are rebuilt without making a collection. -/
theorem adds_plainAt (fuel : Nat) : ∀ v, Keeps s.Adds (plainAt fuel v) := by
  induction fuel with
  | zero => exact fun v t h => h
  | succ fuel ih =>
    intro v
    unfold plainAt
    refine keeps_bind (fun t h => h) fun t => ?_
    dsimp only
    split
    · exact keeps_bind (keeps_plainEntries ih _) fun es => adds_make rfl
    · exact keeps_bind (keeps_plainAll ih _) fun ws => adds_make rfl
    · exact keeps_pure _

end Action

namespace State

variable {s t : State}

/-- A list is new, and so is every other list that has been made since; all of them are loose. -/
structure HandsOut (s : State) (v : Value) (t : State) : Prop where
  list : ∃ b xs, v = .ref b ∧ s.store.size ≤ b.index ∧ t.store.cell? b = some (.list xs)
  loose : ∀ {b : Address} {xs : List Value}, s.store.size ≤ b.index →
    t.store.cell? b = some (.list xs) → t.store.Loose b

/-- A new list is handed out when no collection has been made. -/
theorem handsOut_of_list {u : State} (howns : s.store.OwnsLists)
    (hsize : s.store.size ≤ u.store.size) (hadds : s.Adds u) (xs : List Value) :
    s.HandsOut (.ref ⟨u.store.size⟩) { u with store := (u.store.alloc (.list xs)).2 } := by
  refine ⟨⟨_, xs, rfl, hsize, u.store.cell?_alloc _⟩, fun {b ys} hb hys => ⟨⟨ys, hys⟩, ?_⟩⟩
  intro a c hc
  rcases Store.cell?_alloc_eq_some.mp hc with hold | ⟨-, hcell⟩
  · obtain ⟨zs, hzs⟩ := howns.list (hadds a c hold)
    rintro rfl
    exact absurd (Store.index_lt_of_cell? hzs) (Nat.not_lt.mpr hb)
  · cases hcell

end State

namespace Collection

variable {caller : Caller} {a : Address} {c : Collection} {s t : State} {v : Value}

theorem handsOut_toList (howns : s.store.OwnsLists) (hc : s.store.cell? a = some (.collection c))
    (hrun : (toList a).execute s = (.ok v, t)) : s.HandsOut v t := by
  obtain ⟨xs, u, hitems, hmake⟩ := execute_bind_ok hrun
  obtain ⟨ys, hys⟩ := howns.list hc
  rw [execute_itemsOf ⟨hc, hys⟩] at hitems
  cases hitems
  cases hmake
  exact State.handsOut_of_list howns (Nat.le_refl _) (fun _ _ h => h) xs

theorem handsOut_toJson (howns : s.store.OwnsLists) (hc : s.store.cell? a = some (.collection c))
    (hrun : (toJson a).execute s = (.ok v, t)) : s.HandsOut v t := by
  unfold toJson plain Store.depth at hrun
  rw [execute_get_bind, plainAt, execute_get_bind] at hrun
  have hentries : s.store.entries? (.ref a) = none := by simp [Store.entries?, Store.view, hc]
  have hitems : plainItems? s.store (.ref a) = some (s.store.items c) := by
    simp [plainItems?, Store.collection?, Store.view, hc, Collection.items]
  dsimp only at hrun
  rw [hentries, hitems] at hrun
  obtain ⟨ws, u, hplain, hmake⟩ := execute_bind_ok hrun
  cases hmake
  have hevolves : s.Evolves u := (obeys_plainAll (obeys_plainAt _) _).of_execute hplain
  have hadds : Keeps s.Adds (plainAll (plainAt (s.store.size + 1)) (s.store.items c)) :=
    keeps_plainAll (adds_plainAt _) _
  have hu : s.Adds u := by
    have hleft := hadds s fun _ _ h => h
    rwa [hplain] at hleft
  exact State.handsOut_of_list howns hevolves.size_le hu ws

/-- The methods that give a list give a new one. -/
theorem handsOut_perform (howns : s.store.OwnsLists) (hc : s.store.cell? a = some (.collection c))
    {call : Call} (hcall : call.method ∈ Method.listing)
    (hrun : (perform caller a call).execute s = (.ok v, t)) : s.HandsOut v t := by
  obtain ⟨method, values⟩ := call
  simp only [Method.listing, List.mem_cons, List.not_mem_nil, or_false] at hcall
  rcases hcall with rfl | rfl | rfl
  · have hown : c.fields.lookup Method.toList.name = none := by rw [howns.unpatched hc]; rfl
    exact handsOut_toList howns hc ((execute_through hc hown _ _).symm.trans hrun)
  · exact handsOut_toJson howns hc hrun
  · exact handsOut_toList howns hc hrun

end Collection

end Recordset
