import Recordset.Proofs.Steady.Known
set_option autoImplicit false

/-!
# What has been made by a certain moment

A value has been made when its cell is there, and when its serial number has been given; of an
extension this is also asked of what it has been given (`State.Made`).  A state is whole when all
that its cells hold, and all that attributes have been set on or to, has been made.

A state comes later than another one when it has grown from it and serial numbers have not been
taken back (`State.Later`).  What had been made is then still what it was.
-/

namespace Recordset

/-- The values that a cell holds, or that an attribute of its value can give. -/
def Cell.contents : Cell → List Value
  | .collection c =>
    [.ref c.list, .ref c.validators, .ref c.policy, .ref c.registry, .ref c.generator] ++
      c.fields.map (·.2)
  | .registry r => r.table.map (·.2)
  | .builder b => [b.executor, b.validators, b.shown]
  | .executor (.memory items settings) => [items, settings]
  | c => c.parts

theorem Value.same_refl (v : Value) : v.same v = true := by
  cases v <;> first | rfl | exact beq_self_eq_true _

theorem Value.same_comm (v w : Value) : v.same w = w.same v := by
  cases v <;> cases w <;> first | exact Bool.beq_comm | rfl

namespace State

/-- A value has been made by a certain moment. -/
def Made (s : State) : Value → Prop
  | .ref a => a.index < s.store.size
  | .method serial _ _ => serial < s.serial
  | .extension serial f receiver => serial < s.serial ∧ s.Made f ∧ s.Made receiver
  | _ => True

instance decidableMade (s : State) : DecidablePred s.Made
  | .ref a => inferInstanceAs (Decidable (a.index < s.store.size))
  | .method serial _ _ => inferInstanceAs (Decidable (serial < s.serial))
  | .extension serial f receiver =>
    have := decidableMade s f
    have := decidableMade s receiver
    inferInstanceAs (Decidable (serial < s.serial ∧ s.Made f ∧ s.Made receiver))
  | .null | .missing | .bool _ | .int _ | .float _ | .nan _ | .str _ | .bytes _ | .pattern _
  | .builtin _ => inferInstanceAs (Decidable True)

/-- What has been made is known. -/
theorem Made.knows {s : State} {v : Value} (h : s.Made v) : s.store.Knows v := by
  cases v with
  | ref a => exact h
  | _ => trivial

/-- All that is in a state has been made, and the registry that every collection shares is there. -/
structure Whole (s : State) : Prop where
  cells : ∀ c ∈ s.store.cells.toList, ∀ v ∈ c.contents, s.Made v
  marks : ∀ m ∈ s.store.marks, s.Made m.1 ∧ s.Made m.2.2
  shared : sharedRegistry.index < s.store.size

/-- A state comes after another one that it has grown from. -/
structure Later (s t : State) : Prop where
  grows : s.Grows t
  serial : s.serial ≤ t.serial

variable {s t u : State} {v w : Value} {a : Address} {c : Cell}

theorem Later.refl (s : State) : s.Later s := ⟨.refl s, Nat.le_refl _⟩

theorem Later.trans (hst : s.Later t) (htu : t.Later u) : s.Later u :=
  ⟨hst.grows.trans htu.grows, Nat.le_trans hst.serial htu.serial⟩

theorem Later.extends (h : s.Later t) : s.Extends t := h.grows.extends

theorem Later.size_le (h : s.Later t) : s.store.size ≤ t.store.size :=
  h.grows.extends.evolves.size_le

theorem later_alloc (s : State) (c : Cell) : s.Later { s with store := (s.store.alloc c).2 } :=
  ⟨s.grows_alloc c, Nat.le_refl _⟩

/-- What had been made is still there. -/
theorem Later.made (h : s.Later t) : ∀ {v : Value}, s.Made v → t.Made v := by
  intro v
  induction v with
  | ref a => exact fun hv => Nat.lt_of_lt_of_le hv h.size_le
  | method serial a name => exact fun hv => Nat.lt_of_lt_of_le hv h.serial
  | extension serial f receiver ihf ihreceiver =>
    exact fun hv => ⟨Nat.lt_of_lt_of_le hv.1 h.serial, ihf hv.2.1, ihreceiver hv.2.2⟩
  | _ => exact fun _ => trivial

/-- Making a cell leaves a later state with one more cell. -/
theorem make_ok (s : State) (c : Cell) :
    ∃ a t, (Action.make c).execute s = (.ok (.ref a), t) ∧ s.Later t ∧
      t.store.size = s.store.size + 1 ∧ t.store.cell? a = some c :=
  ⟨_, _, Action.execute_make c s, s.later_alloc c, by simp only [Store.size, Store.alloc,
    Array.size_push], s.store.cell?_alloc c⟩

/-- A cell that was there is as it was. -/
theorem Later.cell? (h : s.Later t) (ha : a.index < s.store.size) :
    t.store.cell? a = s.store.cell? a := by
  have hc : s.store.cell? a = some s.store.cells[a.index] := Array.getElem?_eq_getElem ha
  rw [hc, h.grows.cells a _ hc]

/-- The cell of a value that had been made is as it was. -/
theorem Later.view (h : s.Later t) (hv : s.Made v) : t.store.view v = s.store.view v := by
  cases v with
  | ref a => exact h.cell? hv
  | _ => rfl

theorem Later.mark? (h : s.Later t) (v : Value) (name : String) :
    t.store.mark? v name = s.store.mark? v name := by
  unfold Store.mark?
  rw [h.grows.marks]

/-- The store of a whole state is closed. -/
theorem Whole.closed (h : s.Whole) : s.store.Closed := by
  intro c hc v hv
  refine (h.cells c hc v ?_).knows
  cases c with
  | collection d =>
    rcases List.mem_append.mp hv with hv | hv
    · simp only [List.mem_cons, List.not_mem_nil, or_false] at hv
      rcases hv with rfl | rfl | rfl <;> simp [Cell.contents]
    · exact List.mem_append_right _ hv
  | registry | builder | executor => cases hv
  | _ => exact hv

theorem Whole.made_of_cell? (h : s.Whole) (hc : s.store.cell? a = some c) (hv : v ∈ c.contents) :
    s.Made v :=
  h.cells c (Array.mem_toList_iff.mpr (Array.mem_of_getElem? hc)) v hv

theorem Whole.made_of_view (h : s.Whole) (hc : s.store.view w = some c) (hv : v ∈ c.contents) :
    s.Made v := by
  cases w with
  | ref a => exact h.made_of_cell? hc hv
  | _ => cases hc

/-- The keys and the values of a mapping have been made. -/
theorem Whole.made_of_entry (h : s.Whole) {es : Entries} (hes : s.store.entries? v = some es)
    {e : Value × Value} (he : e ∈ es) : s.Made e.1 ∧ s.Made e.2 := by
  have hheld : ∀ x ∈ [e.1, e.2], x ∈ es.flatMap fun e => [e.1, e.2] := fun x hx =>
    List.mem_flatMap.mpr ⟨e, he, hx⟩
  have hmade : ∀ x ∈ [e.1, e.2], s.Made x := fun x hx => by
    rcases Store.view_of_entries? hes with hc | hc
    · exact h.made_of_view hc (hheld x hx)
    · exact h.made_of_view hc (hheld x hx)
  exact ⟨hmade _ (by simp), hmade _ (by simp)⟩

theorem Whole.made_of_mark? (h : s.Whole) {name : String} (hw : s.store.mark? v name = some w) :
    s.Made w := by
  unfold Store.mark? at hw
  obtain ⟨m, hm, rfl⟩ := Option.map_eq_some_iff.mp hw
  exact (h.marks m (List.mem_of_find?_eq_some hm)).2

/-- What has a later address is not the same as anything that had been made. -/
theorem Made.same_ref (hv : s.Made v) (ha : s.store.size ≤ a.index) : v.same (.ref a) = false := by
  cases v with
  | ref b =>
    have hb : b.index < s.store.size := hv
    refine beq_eq_false_iff_ne.mpr ?_
    rintro rfl
    exact absurd hb (Nat.not_lt.mpr ha)
  | _ => rfl

/-- Neither is a method or an extension with a later serial number. -/
theorem Made.same_method {i : Nat} {name : String} (hv : s.Made v) (hi : s.serial ≤ i) :
    v.same (.method i a name) = false := by
  cases v with
  | method j _ _ => exact beq_eq_false_iff_ne.mpr (Nat.ne_of_lt (Nat.lt_of_lt_of_le hv hi))
  | _ => rfl

theorem Made.same_extension {i : Nat} {f receiver : Value} (hv : s.Made v) (hi : s.serial ≤ i) :
    v.same (.extension i f receiver) = false := by
  cases v with
  | extension j _ _ => exact beq_eq_false_iff_ne.mpr (Nat.ne_of_lt (Nat.lt_of_lt_of_le hv.1 hi))
  | _ => rfl

/-- No attribute has been set on a value that is not the same as any that had been made. -/
theorem Whole.mark?_eq_none (h : s.Whole) (hv : ∀ w, s.Made w → w.same v = false) (name : String) :
    s.store.mark? v name = none := by
  unfold Store.mark?
  rw [List.find?_eq_none.mpr]
  · rfl
  · intro m hm
    rw [hv m.1 (h.marks m hm).1, Bool.false_and]
    exact Bool.false_ne_true

/-- What stands under a name among the fields of a cell has been made. -/
theorem Whole.made_of_lookup (h : s.Whole) (hc : s.store.cell? a = some c)
    {fields : List (String × Value)} (hfields : ∀ x ∈ fields.map (·.2), x ∈ c.contents)
    {name : String} (hv : fields.lookup name = some v) : s.Made v := by
  obtain ⟨front, back, rfl, -⟩ := List.lookup_eq_some_iff.mp hv
  exact h.made_of_cell? hc (hfields v (by simp))

/-- The items of a collection that had been made are as they were. -/
theorem Later.items (h : s.Later t) (hwhole : s.Whole) {d : Collection}
    (hd : s.store.view v = some (.collection d)) : t.store.items d = s.store.items d := by
  have hlist : s.Made (.ref d.list) := hwhole.made_of_view hd List.mem_cons_self
  unfold Store.items
  rw [h.cell? hlist]

/-- The items of a collection have been made. -/
theorem Whole.made_of_items (h : s.Whole) {d : Collection} (hv : v ∈ s.store.items d) :
    s.Made v := by
  unfold Store.items at hv
  split at hv
  · rename_i xs hlist
    exact h.made_of_cell? hlist hv
  · cases hv

end State

end Recordset
