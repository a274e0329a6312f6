import Recordset.Proofs.Evolves
set_option autoImplicit false

/-!
# States that only grow

A state grows into another one when cells have been made and none has been changed
(`State.Grows`).  It is extended when besides only passing things have been used up: what an
iterator has left, a source of random numbers, the names in a registry, work that is kept
(`State.Extends`).  Lists, mappings, objects and collections are as they were in both cases.
-/

namespace Recordset

/-- What the content of a cell can be later when nothing that holds items or fields has changed. -/
inductive Cell.Stays : Cell → Cell → Prop where
  | same (c : Cell) : Stays c c
  | iterator (xs ys : List Value) : Stays (.iterator xs) (.iterator ys)
  | registry (r q : Registry) : Stays (.registry r) (.registry q)
  | generator (g h : Generator) : Stays (.generator g) (.generator h)
  | executor (e f : Executor) : Stays (.executor e) (.executor f)
  | builder (b : Builder) (e : Option Execution) :
    Stays (.builder b) (.builder { b with execution := e })

theorem Cell.Stays.becomes {c d : Cell} (h : c.Stays d) : c.Becomes d := by
  cases h <;> constructor

theorem Cell.Stays.trans {c d e : Cell} (hcd : c.Stays d) (hde : d.Stays e) : c.Stays e := by
  cases hcd with
  | same => exact hde
  | builder b x => cases hde <;> exact .builder b _
  | _ => cases hde <;> constructor

namespace State

/-- A state comes after another one in which cells have been made and none has been changed. -/
structure Grows (s t : State) : Prop where
  cells : ∀ a c, s.store.cell? a = some c → t.store.cell? a = some c
  marks : t.store.marks = s.store.marks

/-- A state comes after another one, and nothing that holds items or fields has been changed. -/
structure Extends (s t : State) : Prop where
  cells : ∀ a c, s.store.cell? a = some c → ∃ d, t.store.cell? a = some d ∧ c.Stays d
  marks : t.store.marks = s.store.marks

variable {s t u : State}

theorem Grows.refl (s : State) : s.Grows s := ⟨fun _ _ h => h, rfl⟩

theorem Grows.trans (hst : s.Grows t) (htu : t.Grows u) : s.Grows u :=
  ⟨fun a c h => htu.cells a c (hst.cells a c h), htu.marks.trans hst.marks⟩

theorem Grows.extends (h : s.Grows t) : s.Extends t :=
  ⟨fun a c hc => ⟨c, h.cells a c hc, .same c⟩, h.marks⟩

theorem grows_alloc (s : State) (c : Cell) : s.Grows { s with store := (s.store.alloc c).2 } :=
  ⟨fun _ _ h => (Store.cell?_alloc_of_lt c (Array.getElem?_eq_some_iff.mp h).1).trans h, rfl⟩

theorem Extends.refl (s : State) : s.Extends s := (Grows.refl s).extends

theorem Extends.trans (hst : s.Extends t) (htu : t.Extends u) : s.Extends u := by
  refine ⟨fun a c hc => ?_, htu.marks.trans hst.marks⟩
  obtain ⟨d, hd, hcd⟩ := hst.cells a c hc
  obtain ⟨e, he, hde⟩ := htu.cells a d hd
  exact ⟨e, he, hcd.trans hde⟩

/-- A list is as it was. -/
theorem Extends.list (h : s.Extends t) {a : Address} {xs : List Value}
    (ha : s.store.cell? a = some (.list xs)) : t.store.cell? a = some (.list xs) := by
  obtain ⟨d, hd, hstays⟩ := h.cells a _ ha
  cases hstays
  exact hd

/-- A collection is as it was. -/
theorem Extends.collection (h : s.Extends t) {a : Address} {c : Collection}
    (ha : s.store.cell? a = some (.collection c)) : t.store.cell? a = some (.collection c) := by
  obtain ⟨d, hd, hstays⟩ := h.cells a _ ha
  cases hstays
  exact hd

theorem Extends.evolves (h : s.Extends t) : s.Evolves t := by
  constructor
  · intro a c hc
    obtain ⟨d, hd, hstays⟩ := h.cells a c hc
    exact ⟨d, hd, hstays.becomes⟩
  · intro a kind fields _ name
    simp only [Store.mark?, h.marks]

end State

end Recordset
