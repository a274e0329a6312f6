import Recordset.Proofs.Action
import Recordset.Script.Eval
set_option autoImplicit false

/-!
# How states evolve

A cell, once made, stays of its kind, and one that nobody can change keeps its content: a tuple, a
set, a read-only mapping, a policy, a function, a record.  A builder keeps all but its execution.
No attribute can be set on a record.  `Cell.Becomes` says so of one cell and `State.Evolves` of all
cells of a state.
-/

namespace Recordset

/-! ## Cells -/

/-- What the content of a cell can be later. -/
inductive Cell.Becomes : Cell → Cell → Prop where
  | same (c : Cell) : Becomes c c
  | list (xs ys : List Value) : Becomes (.list xs) (.list ys)
  | dict (es fs : Entries) : Becomes (.dict es) (.dict fs)
  | object (fs gs : List (String × Value)) : Becomes (.object fs) (.object gs)
  | custom (kind : CustomKind) (fs gs : List (String × Value)) :
    Becomes (.custom kind fs) (.custom kind gs)
  | iterator (xs ys : List Value) : Becomes (.iterator xs) (.iterator ys)
  | collection (c d : Collection) : Becomes (.collection c) (.collection d)
  | registry (r q : Registry) : Becomes (.registry r) (.registry q)
  | generator (g h : Generator) : Becomes (.generator g) (.generator h)
  | executor (e f : Executor) : Becomes (.executor e) (.executor f)
  /-- a builder keeps its record -/
  | builder (b : Builder) (e : Option Execution) :
    Becomes (.builder b) (.builder { b with execution := e })

theorem Cell.Becomes.trans {c d e : Cell} (hcd : c.Becomes d) (hde : d.Becomes e) :
    c.Becomes e := by
  cases hcd with
  | same => exact hde
  | builder b x => cases hde <;> exact .builder b _
  | _ => cases hde <;> constructor

/-! ## States -/

namespace State

/-- A state can come after another one: every cell has become what it can become, and no attribute
has been set on a record. -/
structure Evolves (s t : State) : Prop where
  cells : ∀ a c, s.store.cell? a = some c → ∃ d, t.store.cell? a = some d ∧ c.Becomes d
  marks : ∀ a kind fields, s.store.cell? a = some (.record kind fields) →
    ∀ name, t.store.mark? (.ref a) name = s.store.mark? (.ref a) name

theorem Evolves.refl (s : State) : s.Evolves s := ⟨fun _ c h => ⟨c, h, .same c⟩, by intros; rfl⟩

/-- A record stays as it is. -/
theorem Evolves.record {s t : State} (h : s.Evolves t) {a : Address} {kind : RecordKind}
    {fields : List (String × Value)} (ha : s.store.cell? a = some (.record kind fields)) :
    t.store.cell? a = some (.record kind fields) := by
  obtain ⟨d, hd, hbecomes⟩ := h.cells a _ ha
  cases hbecomes
  exact hd

theorem Evolves.trans {s t u : State} (hst : s.Evolves t) (htu : t.Evolves u) : s.Evolves u := by
  constructor
  · intro a c hc
    obtain ⟨d, hd, hcd⟩ := hst.cells a c hc
    obtain ⟨e, he, hde⟩ := htu.cells a d hd
    exact ⟨e, he, hcd.trans hde⟩
  · intro a kind fields hc name
    rw [htu.marks a kind fields (hst.record hc) name, hst.marks a kind fields hc name]

/-- What is not in the store can change at will. -/
theorem evolves_of_store {s t : State} (h : t.store = s.store) : s.Evolves t := by
  constructor
  · intro a c hc
    exact ⟨c, h ▸ hc, .same c⟩
  · intro a kind fields _ name
    rw [h]

theorem evolves_alloc (s : State) (c : Cell) :
    s.Evolves { s with store := (s.store.alloc c).2 } := by
  constructor
  · intro a d hd
    exact ⟨d, (Store.cell?_alloc_of_lt c (Array.getElem?_eq_some_iff.mp hd).1).trans hd, .same d⟩
  · intros
    rfl

/-- A cell can be written with what it can become. -/
theorem evolves_write {s : State} {a : Address} {c d : Cell} (hc : s.store.cell? a = some c)
    (hcd : c.Becomes d) : s.Evolves { s with store := s.store.write a d } := by
  constructor
  · intro b e he
    by_cases hba : b = a
    · subst hba
      rw [hc] at he
      cases he
      exact ⟨d, Store.cell?_write_of_lt d (Array.getElem?_eq_some_iff.mp hc).1, hcd⟩
    · exact ⟨e, (Store.cell?_write_of_ne d hba).trans he, .same e⟩
  · intros
    rfl

/-- An attribute can be set on a value that is no record. -/
theorem evolves_setMark {s : State} {v : Value}
    (hv : ∀ a, v.same (.ref a) = true → ∀ kind fields, s.store.cell? a ≠ some (.record kind fields))
    (name : String) (x : Value) :
    s.Evolves { s with store := s.store.setMark v name x } := by
  constructor
  · intro a c hc
    exact ⟨c, hc, .same c⟩
  · intro a kind fields hc key
    have hother : v.same (.ref a) = false :=
      Bool.eq_false_iff.mpr fun hsame => hv a hsame kind fields hc
    simp [Store.mark?, Store.setMark, hother]

/-- Cells stay once they are made. -/
theorem Evolves.size_le {s t : State} (h : s.Evolves t) : s.store.size ≤ t.store.size := by
  refine Nat.le_of_not_lt fun hlt => ?_
  obtain ⟨d, hd, -⟩ := h.cells ⟨t.store.size⟩ s.store.cells[t.store.size]
    (Array.getElem?_eq_getElem hlt)
  exact absurd (Array.getElem?_eq_some_iff.mp hd).1 (Nat.lt_irrefl _)

/-- A tuple stays as it is. -/
theorem Evolves.tuple {s t : State} (h : s.Evolves t) {a : Address} {xs : List Value}
    (ha : s.store.cell? a = some (.tuple xs)) : t.store.cell? a = some (.tuple xs) := by
  obtain ⟨d, hd, hbecomes⟩ := h.cells a _ ha
  cases hbecomes
  exact hd

/-- A list stays a list. -/
theorem Evolves.list {s t : State} (h : s.Evolves t) {a : Address} {xs : List Value}
    (ha : s.store.cell? a = some (.list xs)) : ∃ ys, t.store.cell? a = some (.list ys) := by
  obtain ⟨d, hd, hbecomes⟩ := h.cells a _ ha
  cases hbecomes <;> exact ⟨_, hd⟩

/-- A collection stays one. -/
theorem Evolves.collection {s t : State} (h : s.Evolves t) {a : Address} {c : Collection}
    (ha : s.store.cell? a = some (.collection c)) :
    ∃ d, t.store.cell? a = some (.collection d) := by
  obtain ⟨d, hd, hbecomes⟩ := h.cells a _ ha
  cases hbecomes <;> exact ⟨_, hd⟩

/-- An iterator stays one. -/
theorem Evolves.iterator {s t : State} (h : s.Evolves t) {a : Address} {xs : List Value}
    (ha : s.store.cell? a = some (.iterator xs)) :
    ∃ ys, t.store.cell? a = some (.iterator ys) := by
  obtain ⟨d, hd, hbecomes⟩ := h.cells a _ ha
  cases hbecomes <;> exact ⟨_, hd⟩

/-- A builder keeps its record. -/
theorem Evolves.builder {s t : State} (h : s.Evolves t) {a : Address} {b : Builder}
    (ha : s.store.cell? a = some (.builder b)) :
    ∃ e, t.store.cell? a = some (.builder { b with execution := e }) := by
  obtain ⟨d, hd, hbecomes⟩ := h.cells a _ ha
  cases hbecomes with
  | same => exact ⟨b.execution, hd⟩
  | builder _ e => exact ⟨e, hd⟩

end State

end Recordset
