import Recordset.Proofs.Obeys.Perform
import Recordset.Proofs.Ownership.Basic
set_option autoImplicit false

/-!
# Changes that are confined to one collection

A cell belongs to a collection when it is the collection itself or its list.  A change is confined
to a collection (`State.Confined`) when it leaves all other cells as they are, but for what passes,
and sets no attribute on anything.  Where collections own their lists, so that no other collection
and no loose list is among the cells that belong to it, the methods that change a collection are
confined to it.

What changes nothing but what passes is the least frame (`State.Gentle`); callbacks that do so obey
every frame.
-/

namespace Recordset

open Recordset.Action

namespace State

variable {s t u : State}

/-! ## What changes nothing -/

instance : Frame Extends where
  evolves h := h.evolves
  trans := Extends.trans
  idle h := ⟨fun _ c hc => ⟨c, h ▸ hc, .same c⟩, by rw [h]⟩
  alloc s c _ := (s.grows_alloc c).extends
  collect s xs c _ _ := ((s.grows_alloc (.list xs)).trans (grows_alloc _ (.collection c))).extends
  pass {s a c d} hc hcd := by
    refine ⟨fun b e he => ?_, rfl⟩
    by_cases hba : b = a
    · subst hba
      rw [hc] at he
      cases he
      exact ⟨d, (Store.cell?_write_eq_some hc).mpr (.inr ⟨rfl, rfl⟩), hcd⟩
    · exact ⟨e, (Store.cell?_write_eq_some hc).mpr (.inl ⟨hba, he⟩), .same e⟩

/-- What happens while nothing is changed: cells are made, and collections over lists of their own,
and what passes is used up.  This is the least frame. -/
inductive Gentle : State → State → Prop where
  | idle {s t : State} (h : t.store = s.store) : Gentle s t
  | alloc (s : State) (c : Cell) (hc : c.isCollection = false) :
    Gentle s { s with store := (s.store.alloc c).2 }
  | collect (s : State) (xs : List Value) (c : Collection) (hlist : c.list = ⟨s.store.size⟩)
    (hfields : c.fields = []) :
    Gentle s { s with store := ((s.store.alloc (.list xs)).2.alloc (.collection c)).2 }
  | pass {s : State} {a : Address} {c d : Cell} (hc : s.store.cell? a = some c)
    (hcd : c.Stays d) : Gentle s { s with store := s.store.write a d }
  | trans {s t u : State} (hst : Gentle s t) (htu : Gentle t u) : Gentle s u

/-- What is gentle is allowed by every frame. -/
theorem Gentle.related {R : State → State → Prop} [Frame R] (h : s.Gentle t) : R s t := by
  induction h with
  | idle h => exact Frame.idle h
  | alloc s c hc => exact Frame.alloc s c hc
  | collect s xs c hlist hfields => exact Frame.collect s xs c hlist hfields
  | pass hc hcd => exact Frame.pass hc hcd
  | trans _ _ hst htu => exact Frame.trans hst htu

instance : Frame Gentle where
  evolves h := h.related
  trans := .trans
  idle := .idle
  alloc := .alloc
  collect := .collect
  pass := .pass

end State

/-- Calls that change nothing obey every frame. -/
theorem Action.obeysCaller_of_gentle {R : State → State → Prop} [State.Frame R] {caller : Caller}
    (hcaller : ObeysCaller State.Gentle caller) : ObeysCaller R caller :=
  fun f args s => (hcaller f args s).related

/-! ## What is confined to a collection -/

/-- A cell is a collection, or the list of the collection. -/
def Store.BelongsTo (s : Store) (b a : Address) : Prop :=
  b = a ∨ ∃ c, s.cell? a = some (.collection c) ∧ c.list = b

namespace State

variable {a : Address} {s t u : State}

/-- All that does not belong to a collection is as it was. -/
structure Spares (a : Address) (s t : State) : Prop where
  cells : ∀ {b : Address} {c : Cell}, s.store.cell? b = some c → ¬s.store.BelongsTo b a →
    ∃ d, t.store.cell? b = some d ∧ c.Stays d
  marks : t.store.marks = s.store.marks

theorem Extends.spares (h : s.Extends t) : Spares a s t :=
  ⟨fun {b c} hc _ => h.cells b c hc, h.marks⟩

/-- While collections keep to their lists, what belongs to a collection is the same. -/
theorem Respects.belongsTo (h : s.Respects t) {c : Collection}
    (hc : s.store.cell? a = some (.collection c)) {b : Address} (hb : t.store.BelongsTo b a) :
    s.store.BelongsTo b a := by
  rcases hb with rfl | ⟨d, hd, rfl⟩
  · exact .inl rfl
  · obtain ⟨d', hd', hlist⟩ := h.kept hc
    rw [hd] at hd'
    cases hd'
    exact .inr ⟨c, hc, hlist.symm⟩

theorem Spares.trans (hst : Spares a s t) (htu : Spares a t u) (h : s.Respects t)
    {c : Collection} (hc : s.store.cell? a = some (.collection c)) : Spares a s u := by
  refine ⟨fun {b d} hd hb => ?_, htu.marks.trans hst.marks⟩
  obtain ⟨e, he, hde⟩ := hst.cells hd hb
  obtain ⟨f, hf, hef⟩ := htu.cells he fun hbelongs => hb (h.belongsTo hc hbelongs)
  exact ⟨f, hf, hde.trans hef⟩

/-- A cell that belongs to a collection can be written. -/
theorem spares_write {b : Address} {c d : Cell} (hc : s.store.cell? b = some c)
    (hb : s.store.BelongsTo b a) : Spares a s { s with store := s.store.write b d } := by
  refine ⟨fun {x e} he hx => ⟨e, ?_, .same e⟩, rfl⟩
  have hne : x ≠ b := by
    rintro rfl
    exact hx hb
  exact (Store.cell?_write_eq_some hc).mpr (.inl ⟨hne, he⟩)

/-- A state comes after another one in which all collections have kept to their lists and nothing
has changed but a collection, if it is one. -/
structure Confined (a : Address) (s t : State) : Prop where
  respects : s.Respects t
  spares : ∀ {c : Collection}, s.store.cell? a = some (.collection c) → Spares a s t

theorem confined_of_extends (h : s.Respects t) (hextends : s.Extends t) : Confined a s t :=
  ⟨h, fun _ => hextends.spares⟩

instance (a : Address) : Frame (Confined a) where
  evolves h := h.respects.evolves
  trans hst htu := by
    refine ⟨hst.respects.trans htu.respects, fun {c} hc => ?_⟩
    obtain ⟨d, hd, -⟩ := hst.respects.kept hc
    exact (hst.spares hc).trans (htu.spares hd) hst.respects hc
  idle h := confined_of_extends (Frame.idle h) (Frame.idle h)
  alloc s c hc := confined_of_extends (Frame.alloc s c hc) (Frame.alloc s c hc)
  collect s xs c hlist hfields :=
    confined_of_extends (Frame.collect s xs c hlist hfields) (Frame.collect s xs c hlist hfields)
  pass hc hcd := confined_of_extends (Frame.pass hc hcd) (Frame.pass hc hcd)

instance (a : Address) : Owner (Confined a) a where
  fill xs hst hc hlist := by
    obtain ⟨d, hd, hcd⟩ := hst.respects.kept hc
    exact ⟨Open.assign xs hlist, fun _ => spares_write hlist (.inr ⟨d, hd, hcd⟩)⟩
  grow grown hc := ⟨Open.grow grown hc, fun _ => spares_write hc (.inl rfl)⟩

/-! ## What a confined change leaves alone -/

/-- Another collection keeps its items. -/
theorem Spares.collection (h : Spares a s t) (howns : s.store.OwnsLists) {c : Collection}
    (hc : s.store.cell? a = some (.collection c)) {b : Address} {d : Collection} (hba : b ≠ a)
    (hd : s.store.cell? b = some (.collection d)) :
    t.store.cell? b = some (.collection d) ∧ t.store.items d = s.store.items d := by
  have hown : ¬s.store.BelongsTo b a := by
    rintro (rfl | ⟨e, he, hlist⟩)
    · exact hba rfl
    · obtain ⟨xs, hxs⟩ := howns.list he
      rw [hlist, hd] at hxs
      cases hxs
  have hlist : ¬s.store.BelongsTo d.list a := by
    rintro (heq | ⟨e, he, hlist⟩)
    · obtain ⟨xs, hxs⟩ := howns.list hd
      rw [heq, hc] at hxs
      cases hxs
    · exact hba (howns.apart hd he hlist.symm)
  obtain ⟨xs, hxs⟩ := howns.list hd
  obtain ⟨e, he, hde⟩ := h.cells hd hown
  obtain ⟨f, hf, hxf⟩ := h.cells hxs hlist
  cases hde
  cases hxf
  exact ⟨he, by simp [Store.items, hxs, hf]⟩

/-- A loose list keeps its items. -/
theorem Spares.loose (h : Spares a s t) {c : Collection}
    (hc : s.store.cell? a = some (.collection c)) {b : Address} (hb : s.store.Loose b)
    {xs : List Value} (hxs : s.store.cell? b = some (.list xs)) :
    t.store.cell? b = some (.list xs) := by
  have hfree : ¬s.store.BelongsTo b a := by
    rintro (rfl | ⟨d, hd, hlist⟩)
    · rw [hc] at hxs
      cases hxs
    · exact hb.free hd hlist
  obtain ⟨d, hd, hstays⟩ := h.cells hxs hfree
  cases hstays
  exact hd

end State

end Recordset
