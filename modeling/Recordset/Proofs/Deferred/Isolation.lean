import Mathlib
import Recordset.Proofs.Scope.Given
import Recordset.Proofs.Scope.Session
set_option autoImplicit false

/-!
# Isolated runs

Builders can share what they have recorded, and the executor with its items.  Runs of builders are
isolated, in some order, when each gives what it gives alone and leaves all that builders have been
given as it was (`State.Isolated`).  So it is exactly when no run changes, alone, what builders have
been given: `State.isolated_iff`.

Alone means: in the state at the start, in which no builder has been awaited, with as many cells
and serial numbers taken as the runs before took.  These cells are reached from nowhere.  They only
see to it that what the run makes has the same addresses, by which values without an order of their
own are printed in the order in which they were made.
-/

namespace Recordset.State

open Recordset.Action Recordset.Builder

/-! ## Runs one after another -/

/-- What awaiting a builder comes to, and the state that it leaves. -/
def awaited (s : State) (a : Address) : Outcome × State := (await apply a).execute s

/-- The state after some builders have been awaited, one after another. -/
def after (s : State) (as : List Address) : State := as.foldl (fun s a => (s.awaited a).2) s

/-- A state with more cells, which nothing holds, and more serial numbers taken. -/
def idle (s : State) (cells serials : Nat) : State :=
  { s with
    store := { s.store with cells := s.store.cells ++ Array.replicate cells (.tuple []) }
    serial := s.serial + serials }

/-- What awaiting a builder comes to in a state in which as many cells and serial numbers are taken
as in a later one. -/
def awaitedAlone (s t : State) (a : Address) : Outcome × State :=
  (s.idle (t.store.size - s.store.size) (t.serial - s.serial)).awaited a

/-- In a state that builders have been made in, each of some that are awaited one after another
gives what it gives alone, and leaves what all have been given as it was. -/
def Isolated (s : State) (bs : Set Address) (order : List Address) : Prop :=
  ∀ front a back, order = front ++ a :: back →
    ((s.after front).awaited a).1 = (s.awaitedAlone (s.after front) a).1 ∧
    seen ((s.after front).awaited a) = seen (s.awaitedAlone (s.after front) a) ∧
    Keeps (s.given bs) s (s.after (front ++ [a]))

variable {s t : State} {bs : Set Address} {a : Address}

theorem after_concat (s : State) (front : List Address) (a : Address) :
    s.after (front ++ [a]) = ((s.after front).awaited a).2 := List.foldl_concat ..

/-- Awaiting a builder of a scope comes to the same in states that agree on it. -/
theorem twin_awaited {sc : Scope} (h : sc.Agree s t) (ha : sc.Has a) :
    sc.Twin s t sc.Has (s.awaited a) (t.awaited a) :=
  within_await (within_apply sc) ha s t h

/-- Builders of a scope that are awaited change no cell outside. -/
theorem paces_after {sc : Scope} (h : sc.Agree s s) {front : List Address} (hfront : sc.Has front) :
    sc.Agree (s.after front) (s.after front) ∧ sc.Paces s s (s.after front) (s.after front) := by
  induction front using List.reverseRecOn with
  | nil => exact ⟨h, .refl s s⟩
  | append_singleton front a ih =>
    obtain ⟨hfront, hlast⟩ := Scope.has_append.mp hfront
    obtain ⟨hagree, hpaces⟩ := ih hfront
    have htwin := twin_awaited hagree (Scope.has_cons.mp hlast).1
    rw [after_concat]
    exact ⟨htwin.agree, hpaces.trans htwin.paces⟩

/-! ## Idle cells -/

theorem size_idle (s : State) (cells serials : Nat) :
    (s.idle cells serials).store.size = s.store.size + cells := by
  show (s.store.cells ++ Array.replicate cells (Cell.tuple [])).size = _
  rw [Array.size_append, Array.size_replicate]
  rfl

theorem cell?_idle (cells serials : Nat) (ha : a.index < s.store.size) :
    (s.idle cells serials).store.cell? a = s.store.cell? a :=
  Array.getElem?_append_left ha

section

variable (hs : s.Sound) (hbs : ∀ b ∈ bs, b.index < s.store.size)
include hs hbs

theorem index_lt_of_given (ha : a ∈ s.given bs) : a.index < s.store.size :=
  Given.isThere hs hbs ha

theorem keeps_idle {own : Set Address} (hown : own ⊆ bs) (cells serials : Nat) :
    Keeps (s.given bs ∪ own) s (s.idle cells serials) := by
  refine ⟨fun a ha => cell?_idle cells serials ?_, [], rfl, by simp⟩
  rcases ha with hgiven | hmem
  · exact index_lt_of_given hs hbs hgiven
  · exact hbs a (hown hmem)

/-! ## One run after others -/

/-- The state after some builders have been awaited comes after the one at the start, and a builder
that is not among them is as it was. -/
theorem after_builders {front : List Address} (hfront : ∀ b ∈ front, b ∈ bs) :
    s.store.size ≤ (s.after front).store.size ∧ s.serial ≤ (s.after front).serial ∧
      (s.after front).variables = s.variables ∧
      ∀ b ∈ bs, b ∉ s.given bs → b ∉ front →
        (s.after front).store.cell? b = s.store.cell? b := by
  have hown : {b | b ∈ front} ⊆ bs := hfront
  have hagree := agree_scopeOf hs hbs hown (.refl _ s) le_rfl le_rfl (.refl _ s) rfl rfl rfl rfl
  have hhas : (s.scopeOf bs {b | b ∈ front} s.store.size s.serial).Has front :=
    fun b hb => .inr (.inl hb)
  obtain ⟨hafter, hpaces⟩ := paces_after hagree hhas
  refine ⟨hpaces.left.size_le, hpaces.left.serial_le, hafter.bound_left, ?_⟩
  intro b hb hgiven hfront
  refine hpaces.left.cells fun hhas => ?_
  rcases hhas with h | h | h
  · exact hgiven h
  · exact hfront h
  · exact absurd (hbs b hb) (Nat.not_lt.mpr h)

end

/-- Of two runs that were made side by side, the one after others keeps what was given exactly when
the other one does. -/
theorem keeps_iff_of_paces {sc : Scope} {D : Set Address} {r u w : State}
    (hr : r.store.marks = s.store.marks) (ht : Keeps D s t) (hD : ∀ a ∈ D, sc.Has a)
    (hagree : sc.Agree u w) (hpaces : sc.Paces r t u w) : Keeps D s w ↔ Keeps D s u := by
  have hmade : ∀ v, u.IsMade v ↔ w.IsMade v := by
    intro v
    cases v <;> simp only [IsMade, hagree.size, hagree.serial]
  have hlater : ∀ v, t.IsMade v → w.IsMade v := by
    have hsize := hpaces.right.size_le
    have hserial := hpaces.right.serial_le
    intro v hv
    cases v with
    | ref a => exact Nat.lt_of_lt_of_le hv hsize
    | extension serial f receiver => exact Nat.lt_of_lt_of_le hv hserial
    | method serial a name => exact Nat.lt_of_lt_of_le hv hserial
    | _ => trivial
  obtain ⟨older, hmarks, holder⟩ := ht.marks
  obtain ⟨new, hu, hw, -⟩ := hpaces.marks
  rw [hr] at hu
  rw [hmarks, ← List.append_assoc] at hw
  constructor
  · rintro ⟨hcells, new', hw', hnew⟩
    obtain rfl : new ++ older = new' := List.append_cancel_right (hw.symm.trans hw')
    refine ⟨fun a ha => (hagree.cells (hD a ha)).trans (hcells a ha), new, hu, fun m hm => ?_⟩
    exact (hnew m (List.mem_append_left _ hm)).imp_right (hmade m.1).mpr
  · rintro ⟨hcells, new', hu', hnew⟩
    obtain rfl : new = new' := List.append_cancel_right (hu.symm.trans hu')
    refine ⟨fun a ha => (hagree.cells (hD a ha)).symm.trans (hcells a ha), _, hw, fun m hm => ?_⟩
    rcases List.mem_append.mp hm with hm | hm
    · exact (hnew m hm).imp_right (hmade m.1).mp
    · exact (holder m hm).imp_right (hlater m.1)

/-- What is seen after runs that were made side by side is the same. -/
theorem seen_eq_of_twin {sc : Scope} {l r : Outcome × State} (h : sc.Twin s t sc.Has l r) :
    seen r = seen l := by
  unfold seen
  rw [h.result]
  cases hr : r.1 with
  | error e => rfl
  | ok v => exact congrArg Except.ok (h.agree.observe (h.holds v hr)).symm

section

variable (hs : s.Sound) (hbs : ∀ b ∈ bs, b.index < s.store.size)
include hs hbs

/-- A run after others that left what builders have been given as it was comes to what it comes to
alone, and leaves that as it was exactly when it does so alone. -/
theorem awaited_after {front : List Address} (hfront : ∀ b ∈ front, b ∈ bs) (ha : a ∈ bs)
    (hnew : a ∉ front) (hkeeps : Keeps (s.given bs) s (s.after front)) :
    ((s.after front).awaited a).1 = (s.awaitedAlone (s.after front) a).1 ∧
      seen ((s.after front).awaited a) = seen (s.awaitedAlone (s.after front) a) ∧
      (Keeps (s.given bs) s ((s.after front).awaited a).2 ↔
        Keeps (s.given bs) s (s.awaitedAlone (s.after front) a).2) := by
  obtain ⟨hsize, hserial, hbound, hcells⟩ := after_builders hs hbs hfront
  unfold awaitedAlone
  generalize s.after front = t at *
  have hown : {a} ⊆ bs := Set.singleton_subset_iff.mpr ha
  have ht : Keeps (s.given bs ∪ {a}) s t := by
    refine ⟨fun b hb => ?_, hkeeps.marks⟩
    by_cases hgiven : b ∈ s.given bs
    · exact hkeeps.cells b hgiven
    · obtain rfl : b = a := hb.resolve_left hgiven
      exact hcells b ha hgiven hnew
  have hsizes : (s.idle (t.store.size - s.store.size) (t.serial - s.serial)).store.size =
      t.store.size := by
    rw [size_idle]
    exact Nat.add_sub_cancel' hsize
  have hserials : s.serial + (t.serial - s.serial) = t.serial := Nat.add_sub_cancel' hserial
  have hagree := agree_scopeOf hs hbs hown ht hsize hserial (keeps_idle hs hbs hown _ _) hsizes
    hserials hbound rfl
  have htwin := twin_awaited hagree (a := a) (.inr (.inl rfl))
  refine ⟨htwin.result.symm, seen_eq_of_twin htwin, ?_⟩
  have hidle : (s.idle (t.store.size - s.store.size) (t.serial - s.serial)).store.marks =
    s.store.marks := rfl
  exact keeps_iff_of_paces hidle hkeeps (fun _ hb => Scope.has_ref.mp (has_of_given hb))
    htwin.agree htwin.paces

/-! ## Runs in some order -/

/-- Runs of builders are isolated exactly when each of them alone leaves what builders have been
given as it was. -/
theorem isolated_iff {order : List Address} (hsub : ∀ b ∈ order, b ∈ bs) (hnodup : order.Nodup) :
    s.Isolated bs order ↔ ∀ front a back, order = front ++ a :: back →
      Keeps (s.given bs) s (s.awaitedAlone (s.after front) a).2 := by
  have hsplit : ∀ {front a back}, order = front ++ a :: back →
      (∀ b ∈ front, b ∈ bs) ∧ a ∈ bs ∧ a ∉ front := by
    rintro front a back rfl
    refine ⟨fun b hb => hsub b (List.mem_append_left _ hb), hsub a (by simp), fun ha => ?_⟩
    exact (List.nodup_append.mp hnodup).2.2 a ha a List.mem_cons_self rfl
  constructor
  · intro h front a back horder
    obtain ⟨hfront, ha, hnew⟩ := hsplit horder
    have hkeeps : Keeps (s.given bs) s (s.after front) := by
      induction front using List.reverseRecOn with
      | nil => exact .refl _ s
      | append_singleton front b _ =>
        exact (h front b (a :: back) (by rw [horder, List.append_assoc]; rfl)).2.2
    have hlast := (h front a back horder).2.2
    rw [after_concat] at hlast
    exact (awaited_after hs hbs hfront ha hnew hkeeps).2.2.mp hlast
  · intro h
    -- what has been given is kept by the runs so far, whatever comes after them
    have hkeeps : ∀ front back, order = front ++ back →
        Keeps (s.given bs) s (s.after front) := by
      intro front
      induction front using List.reverseRecOn with
      | nil => exact fun _ _ => .refl _ s
      | append_singleton front a ih =>
        intro back horder
        have horder : order = front ++ a :: back := by rw [horder, List.append_assoc]; rfl
        obtain ⟨hfront, ha, hnew⟩ := hsplit horder
        rw [after_concat]
        exact (awaited_after hs hbs hfront ha hnew (ih _ horder)).2.2.mpr (h front a back horder)
    intro front a back horder
    obtain ⟨hfront, ha, hnew⟩ := hsplit horder
    obtain ⟨hresult, hseen, -⟩ :=
      awaited_after hs hbs hfront ha hnew (hkeeps front (a :: back) horder)
    refine ⟨hresult, hseen, hkeeps _ back ?_⟩
    rw [horder, List.append_assoc]
    rfl

end

/-! ### Two records that share a list -/

/-- A value is a common one, or one of some cells. -/
def isAmong (D : List Address) : Value → Bool
  | .ref a => D.contains a
  | v => v.isCommon

/-- Where no attribute has been set, and cells hold nothing but common values and some of the cells,
others have not been given. -/
theorem given_subset {D : List Address} (hmarks : s.store.marks = [])
    (hcells : ∀ c ∈ s.store.cells.toList, ∀ v ∈ c.holds s.variables, isAmong D v = true)
    (hpolicy : defaultPolicy ∈ D) (hregistry : sharedRegistry ∈ D) : s.given bs ⊆ {a | a ∈ D} := by
  have hpart : ∀ {b : Address} {v : Value}, s.PointsTo (.ref b) v → isAmong D v = true := by
    intro b v h
    cases h with
    | part hc hv => exact hcells _ (Array.mem_toList_iff.mpr (Array.mem_of_getElem? hc)) v hv
    | mark hm _ =>
      rw [hmarks] at hm
      cases hm
  rintro a ⟨w, hw, hreach⟩
  have hamong : isAmong D (.ref a) = true := by
    refine hreach.invariant (P := fun v => isAmong D v = true) (fun x y hx hxy => ?_) ?_
    · cases hxy with
      | part hc hv => exact hpart (.part hc hv)
      | mark hm _ =>
        rw [hmarks] at hm
        cases hm
      | function | receiver | method => cases hx
    · cases hw with
      | held _ h => exact hpart h
      | policy => exact List.contains_iff_mem.mpr hpolicy
      | registry => exact List.contains_iff_mem.mpr hregistry
      | common hcommon =>
        cases w with
        | ref => cases hcommon
        | _ => exact hcommon
  exact List.contains_iff_mem.mp hamong

/-- A query that makes a collection of a list that is there, with more recorded after that. -/
def listing (more : List Operation) (shown : Address) : Builder where
  executor := .ref ⟨3⟩
  validators := .null
  operations := ⟨[.str "collect", .ref ⟨5⟩], .ref ⟨6⟩⟩ :: more
  shown := .ref shown

/-- An executor over an empty list, and three queries that share a list of one record: one for its
items, one that updates them, and one for the first of them. -/
def listings : State where
  store := { cells := State.initial.store.cells ++ #[
    .list [],
    .executor (.memory (.ref ⟨2⟩) .null),
    .dict [(.str "n", .int 1)],
    .list [.ref ⟨4⟩],
    .tuple [.str "collect", .ref ⟨5⟩],
    .tuple [.ref ⟨6⟩],
    .builder (listing [] ⟨7⟩),
    .dict [(.str "n", .int 2)],
    .tuple [.str "update", .ref ⟨9⟩],
    .tuple [.ref ⟨6⟩, .ref ⟨10⟩],
    .builder (listing [⟨[.str "update", .ref ⟨9⟩], .ref ⟨10⟩⟩] ⟨11⟩),
    .tuple [.str "first"],
    .tuple [.ref ⟨6⟩, .ref ⟨13⟩],
    .builder (listing [⟨[.str "first"], .ref ⟨13⟩⟩] ⟨14⟩)] }

/-- The cells of what the queries share. -/
def listed : List Address :=
  [⟨0⟩, ⟨1⟩, ⟨2⟩, ⟨3⟩, ⟨4⟩, ⟨5⟩, ⟨6⟩, ⟨7⟩, ⟨9⟩, ⟨10⟩, ⟨11⟩, ⟨13⟩, ⟨14⟩]

/-- What the queries share is as it was in a state that has the cells and no attributes. -/
theorem keeps_listings {D : Set Address} (h : listings.given D ⊆ {a | a ∈ listed})
    (ht : (listed.map t.store.cell?, t.store.marks) = (listed.map listings.store.cell?, [])) :
    Keeps (listings.given D) listings t := by
  obtain ⟨hcells, hmarks⟩ := Prod.mk.inj ht
  exact ⟨fun a ha => List.map_inj_left.mp hcells a (h ha), [], hmarks, by simp⟩

/-- The query for the first item and the one for all are isolated. -/
theorem isolated_listings : listings.Isolated {⟨8⟩, ⟨12⟩, ⟨15⟩} [⟨15⟩, ⟨8⟩] := by
  have hsound : listings.Sound := ⟨by decide +kernel, by decide +kernel, by decide +kernel⟩
  have hbs : ∀ b ∈ ({⟨8⟩, ⟨12⟩, ⟨15⟩} : Set Address), b.index < listings.store.size := by
    rintro b (rfl | rfl | rfl) <;> decide +kernel
  have hgiven : listings.given {⟨8⟩, ⟨12⟩, ⟨15⟩} ⊆ {a | a ∈ listed} :=
    given_subset rfl (by decide +kernel) (by decide) (by decide)
  refine (isolated_iff hsound hbs (by simp) (by decide)).mpr fun front a back horder => ?_
  cases front with
  | nil =>
    obtain ⟨rfl, -⟩ := List.cons.inj horder
    exact keeps_listings hgiven (by cbv)
  | cons b front =>
    obtain ⟨rfl, hrest⟩ := List.cons.inj horder
    cases front with
    | nil =>
      obtain ⟨rfl, -⟩ := List.cons.inj hrest
      exact keeps_listings hgiven (by cbv)
    | cons c front => cases front <;> cases hrest

/-- The query for all items gives the updated record after the query that updates it, and alone the
record as it was: what has been recorded is no copy, and the update changes it. -/
theorem not_isolated_listings : ¬ listings.Isolated {⟨8⟩, ⟨12⟩, ⟨15⟩} [⟨12⟩, ⟨8⟩] := by
  have hseen : (seen ((listings.after [⟨12⟩]).awaited ⟨8⟩),
      seen (listings.awaitedAlone (listings.after [⟨12⟩]) ⟨8⟩)) =
      (.ok (.list [.dict [(.str "n", .int 2)]]), .ok (.list [.dict [(.str "n", .int 1)]])) := by cbv
  obtain ⟨hafter, halone⟩ := Prod.mk.inj hseen
  intro h
  have hsame := (h [⟨12⟩] ⟨8⟩ [] rfl).2.1
  rw [hafter, halone] at hsame
  simp at hsame

end Recordset.State
