import Recordset.Proofs.Obeys.Open
set_option autoImplicit false

/-!
# Collections own their lists

In a store where collections own their lists, each of them keeps its items in a list that no other
one keeps its items in, and no patch has set an attribute on one (`Store.OwnsLists`).  A list that
no collection keeps its items in is loose (`Store.Loose`).

`State.Respects` relates a state to later ones in which all collections keep to their lists: those
that were there have the same list, those that are new have a new one.  It is an open relation, so
that most of what can happen respects ownership.
-/

namespace Recordset

/-! ## Cells of a changed store -/

namespace Store

variable {s : Store} {a b : Address} {c d : Cell}

theorem index_lt_of_cell? (h : s.cell? a = some c) : a.index < s.size :=
  (Array.getElem?_eq_some_iff.mp h).1

/-- The cells after one has been made are those from before and the new one. -/
theorem cell?_alloc_eq_some :
    (s.alloc c).2.cell? a = some d ↔ s.cell? a = some d ∨ (a = ⟨s.size⟩ ∧ c = d) := by
  have hnew : s.cell? ⟨s.size⟩ = none := Array.getElem?_eq_none (Nat.le_refl _)
  constructor
  · intro h
    by_cases ha : a = ⟨s.size⟩
    · subst ha
      rw [show (⟨s.size⟩ : Address) = (s.alloc c).1 from rfl, cell?_alloc] at h
      exact .inr ⟨rfl, Option.some.inj h⟩
    · refine .inl ?_
      have hlt : a.index < s.size + 1 := by simpa [alloc, size] using index_lt_of_cell? h
      have hne : a.index ≠ s.size := fun e => ha (by cases a; simp_all)
      rwa [cell?_alloc_of_lt c (by omega)] at h
  · rintro (h | ⟨rfl, rfl⟩)
    · rwa [cell?_alloc_of_lt c (index_lt_of_cell? h)]
    · exact s.cell?_alloc c

/-- The cells after one has been written are the others from before and the written one. -/
theorem cell?_write_eq_some (hc : s.cell? b = some c) {e : Cell} :
    (s.write b d).cell? a = some e ↔ (a ≠ b ∧ s.cell? a = some e) ∨ (a = b ∧ d = e) := by
  by_cases hab : a = b
  · subst hab
    rw [cell?_write_of_lt d (index_lt_of_cell? hc)]
    simp
  · rw [cell?_write_of_ne d hab]
    simp [hab]

/-! ## Ownership -/

/-- Every collection keeps its items in a list of its own, and has no attributes of a patch. -/
structure OwnsLists (s : Store) : Prop where
  list : ∀ {a : Address} {c : Collection}, s.cell? a = some (.collection c) →
    ∃ xs, s.cell? c.list = some (.list xs)
  apart : ∀ {a b : Address} {c d : Collection}, s.cell? a = some (.collection c) →
    s.cell? b = some (.collection d) → c.list = d.list → a = b
  unpatched : ∀ {a : Address} {c : Collection}, s.cell? a = some (.collection c) → c.fields = []

/-- A list in which no collection keeps its items. -/
structure Loose (s : Store) (b : Address) : Prop where
  list : ∃ xs, s.cell? b = some (.list xs)
  free : ∀ {a : Address} {c : Collection}, s.cell? a = some (.collection c) → c.list ≠ b

/-- The collections after one has been made over a new list are those from before and the new
one. -/
theorem collection_of_collect {xs : List Value} {e f : Collection}
    (h : ((s.alloc (.list xs)).2.alloc (.collection e)).2.cell? a = some (.collection f)) :
    s.cell? a = some (.collection f) ∨ (a = ⟨(s.alloc (.list xs)).2.size⟩ ∧ e = f) := by
  rcases cell?_alloc_eq_some.mp h with hold | ⟨ha, hef⟩
  · rcases cell?_alloc_eq_some.mp hold with hold | ⟨-, hcell⟩
    · exact .inl hold
    · cases hcell
  · exact .inr ⟨ha, by cases hef; rfl⟩

/-- No collection keeps its items in a list that is still to be made. -/
theorem OwnsLists.list_ne_new (howns : s.OwnsLists) {e : Collection}
    (he : s.cell? a = some (.collection e)) : e.list ≠ ⟨s.size⟩ := by
  intro heq
  obtain ⟨xs, hxs⟩ := howns.list he
  have hlt := index_lt_of_cell? hxs
  rw [heq] at hlt
  exact Nat.lt_irrefl _ hlt

/-- A collection over a list that has been made for it owns the list. -/
theorem OwnsLists.collect (howns : s.OwnsLists) (xs : List Value) {e : Collection}
    (hlist : e.list = ⟨s.size⟩) (hfields : e.fields = []) :
    ((s.alloc (.list xs)).2.alloc (.collection e)).2.OwnsLists := by
  have hkept : ∀ {b : Address} {ys : List Value}, s.cell? b = some (.list ys) →
      ((s.alloc (.list xs)).2.alloc (.collection e)).2.cell? b = some (.list ys) := fun h =>
    cell?_alloc_eq_some.mpr (.inl (cell?_alloc_eq_some.mpr (.inl h)))
  refine ⟨?_, ?_, ?_⟩
  · intro b f hf
    rcases collection_of_collect hf with hf | ⟨-, rfl⟩
    · obtain ⟨ys, hys⟩ := howns.list hf
      exact ⟨ys, hkept hys⟩
    · exact ⟨xs, cell?_alloc_eq_some.mpr (.inl (hlist ▸ s.cell?_alloc (.list xs)))⟩
  · intro b b' f g hf hg hfg
    rcases collection_of_collect hf with hf | ⟨rfl, rfl⟩ <;>
      rcases collection_of_collect hg with hg | ⟨rfl, rfl⟩
    · exact howns.apart hf hg hfg
    · exact absurd (hfg.trans hlist) (howns.list_ne_new hf)
    · exact absurd (hfg.symm.trans hlist) (howns.list_ne_new hg)
    · rfl
  · intro b f hf
    rcases collection_of_collect hf with hf | ⟨-, rfl⟩
    · exact howns.unpatched hf
    · exact hfields

end Store

theorem Cell.Becomes.of_collection {c : Cell} {d : Collection} (h : c.Becomes (.collection d)) :
    ∃ e, c = .collection e := by
  cases h <;> exact ⟨_, rfl⟩

namespace State

/-- A state comes after another one in which all collections have kept to their lists. -/
structure Respects (s t : State) : Prop where
  evolves : s.Evolves t
  kept : ∀ {a : Address} {c : Collection}, s.store.cell? a = some (.collection c) →
    ∃ d, t.store.cell? a = some (.collection d) ∧ d.list = c.list
  fresh : ∀ {a : Address} {d : Collection}, t.store.cell? a = some (.collection d) →
    (∃ c, s.store.cell? a = some (.collection c)) ∨ s.store.size ≤ d.list.index
  owns : s.store.OwnsLists → t.store.OwnsLists

variable {s t u : State}

theorem Respects.trans (hst : s.Respects t) (htu : t.Respects u) : s.Respects u := by
  refine ⟨hst.evolves.trans htu.evolves, ?_, ?_, fun h => htu.owns (hst.owns h)⟩
  · intro a c hc
    obtain ⟨d, hd, hcd⟩ := hst.kept hc
    obtain ⟨e, he, hde⟩ := htu.kept hd
    exact ⟨e, he, hde.trans hcd⟩
  · intro a e he
    rcases htu.fresh he with ⟨d, hd⟩ | hnew
    · rcases hst.fresh hd with hold | hnew
      · exact .inl hold
      · obtain ⟨e', he', hlist⟩ := htu.kept hd
        rw [he] at he'
        cases he'
        exact .inr (hlist ▸ hnew)
    · exact .inr (Nat.le_trans hst.evolves.size_le hnew)

/-- All collections keep to their lists when none is made, given another list or patched. -/
theorem respects_of_origin (h : s.Evolves t)
    (horigin : ∀ {a : Address} {d : Collection}, t.store.cell? a = some (.collection d) →
      ∃ c, s.store.cell? a = some (.collection c) ∧ d.list = c.list ∧ d.fields = c.fields) :
    s.Respects t := by
  refine ⟨h, ?_, ?_, fun howns => ⟨?_, ?_, ?_⟩⟩
  · intro a c hc
    obtain ⟨d, hd⟩ := h.collection hc
    obtain ⟨c', hc', hlist, -⟩ := horigin hd
    rw [hc] at hc'
    cases hc'
    exact ⟨d, hd, hlist⟩
  · intro a d hd
    obtain ⟨c, hc, -⟩ := horigin hd
    exact .inl ⟨c, hc⟩
  · intro a d hd
    obtain ⟨c, hc, hlist, -⟩ := horigin hd
    obtain ⟨xs, hxs⟩ := howns.list hc
    exact hlist ▸ h.list hxs
  · intro a b d e hd he hde
    obtain ⟨c, hc, hcd, -⟩ := horigin hd
    obtain ⟨f, hf, hfe, -⟩ := horigin he
    exact howns.apart hc hf (hcd.symm.trans (hde.trans hfe))
  · intro a d hd
    obtain ⟨c, hc, -, hfields⟩ := horigin hd
    exact hfields.trans (howns.unpatched hc)

theorem respects_of_store (h : t.store = s.store) : s.Respects t :=
  respects_of_origin (evolves_of_store h) fun hd => ⟨_, h ▸ hd, rfl, rfl⟩

theorem respects_alloc (s : State) {c : Cell} (hc : c.isCollection = false) :
    s.Respects { s with store := (s.store.alloc c).2 } := by
  refine respects_of_origin (s.evolves_alloc c) fun {a d} hd => ?_
  rcases Store.cell?_alloc_eq_some.mp hd with hold | ⟨-, rfl⟩
  · exact ⟨d, hold, rfl, rfl⟩
  · cases hc

/-- A collection keeps to its list when its cell is written with one that has the same. -/
theorem respects_write {a : Address} {c d : Cell} (hc : s.store.cell? a = some c)
    (hcd : c.Becomes d)
    (hkept : ∀ e f, c = .collection e → d = .collection f →
      f.list = e.list ∧ f.fields = e.fields) :
    s.Respects { s with store := s.store.write a d } := by
  refine respects_of_origin (evolves_write hc hcd) fun {b f} hf => ?_
  rcases (Store.cell?_write_eq_some hc).mp hf with ⟨-, hold⟩ | ⟨rfl, rfl⟩
  · exact ⟨f, hold, rfl, rfl⟩
  · obtain ⟨e, rfl⟩ := hcd.of_collection
    exact ⟨e, hc, hkept e f rfl rfl⟩

/-- A collection over a list that has been made for it leaves the others their lists. -/
theorem respects_collect (s : State) (xs : List Value) {c : Collection}
    (hlist : c.list = ⟨s.store.size⟩) (hfields : c.fields = []) :
    s.Respects
      { s with store := ((s.store.alloc (.list xs)).2.alloc (.collection c)).2 } := by
  let t : State := { s with store := (s.store.alloc (.list xs)).2 }
  have hevolves := (s.evolves_alloc (.list xs)).trans (t.evolves_alloc (.collection c))
  refine ⟨hevolves, ?_, ?_, fun howns => howns.collect xs hlist hfields⟩
  · intro a d hd
    have hfirst : t.store.cell? a = some (.collection d) := Store.cell?_alloc_eq_some.mpr (.inl hd)
    exact ⟨d, Store.cell?_alloc_eq_some.mpr (.inl hfirst), rfl⟩
  · intro a d hd
    rcases Store.collection_of_collect hd with hd | ⟨-, rfl⟩
    · exact .inl ⟨d, hd⟩
    · exact .inr (Nat.le_of_eq (congrArg Address.index hlist).symm)

instance : Frame Respects where
  evolves h := h.evolves
  trans := Respects.trans
  idle := respects_of_store
  alloc s _ hc := s.respects_alloc hc
  collect s xs _ hlist hfields := s.respects_collect xs hlist hfields
  pass hc hcd := respects_write hc hcd.becomes fun e f he hf => by
    subst he hf
    cases hcd
    exact ⟨rfl, rfl⟩

instance : Open Respects where
  revise hc hcd hfields := respects_write hc hcd fun e f he _ => by
    subst he
    cases hfields
  mark name x hv :=
    respects_of_origin (evolves_setMark hv name x) fun hd => ⟨_, hd, rfl, rfl⟩
  assign ys hxs := respects_write hxs (.list _ ys) fun e f he _ => by cases he
  grow grown hc := respects_write hc (.collection _ _) fun e f he hf => by
    cases he
    cases hf
    exact ⟨rfl, rfl⟩

/-- A loose list stays loose as long as collections keep to their lists. -/
theorem Respects.loose (h : s.Respects t) {b : Address} (hb : s.store.Loose b) :
    t.store.Loose b := by
  obtain ⟨xs, hxs⟩ := hb.list
  refine ⟨h.evolves.list hxs, fun {a d} hd => ?_⟩
  rcases h.fresh hd with ⟨c, hc⟩ | hnew
  · obtain ⟨d', hd', hlist⟩ := h.kept hc
    rw [hd] at hd'
    cases hd'
    exact hlist ▸ hb.free hc
  · rintro rfl
    exact absurd (Store.index_lt_of_cell? hxs) (Nat.not_lt.mpr hnew)

end State

end Recordset
