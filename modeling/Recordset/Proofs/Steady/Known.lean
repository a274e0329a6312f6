import Recordset.Proofs.Extends
import Recordset.Proofs.Steady.Basic
set_option autoImplicit false

/-!
# Values that have been made

A store knows a value when the value is not shared or its cell has been made.  In a closed store all
that cells hold is known.

As a state evolves, a known value stays what it is: callable, iterable, a mapping, a key.  A value
that is not known could be made as anything.

Compiling a query also relies on mappings keeping their entries: `State.KeepsMappings` says that a
state comes after another one in which no mapping has been changed.
-/

namespace Recordset

/-- The values that a container, a mapping or an object holds. -/
def Cell.parts : Cell → List Value
  | .list xs | .tuple xs | .set xs | .iterator xs => xs
  | .dict es | .frozen es => es.flatMap fun e => [e.1, e.2]
  | .object fs | .custom _ fs | .record _ fs => fs.map (·.2)
  | .collection c => [.ref c.list, .ref c.validators, .ref c.policy] ++ c.fields.map (·.2)
  | .policy p => [p.perPage, p.separator, p.seed]
  | _ => []

/-- Whether a cell is one of a value that can be a key, as far as its kind goes. -/
def Cell.isKeyKind : Cell → Bool
  | .list _ | .dict _ | .frozen _ | .set _ | .hostile | .collection _ => false
  | _ => true

/-- The values that have to be keys for a value with this cell to be one. -/
def Cell.keyParts : Cell → List Value
  | .tuple xs => xs
  | .record _ fields => fields.map (·.2)
  | .policy p => [p.perPage, p.separator, p.seed]
  | _ => []

namespace Store

/-- A value has been made: the cell of a shared one is there. -/
def Knows (s : Store) : Value → Prop
  | .ref a => a.index < s.size
  | _ => True

instance (s : Store) : DecidablePred s.Knows
  | .ref a => inferInstanceAs (Decidable (a.index < s.size))
  | .null | .missing | .bool _ | .int _ | .float _ | .nan _ | .str _ | .bytes _ | .pattern _
  | .builtin _ | .extension _ _ _ | .method _ _ _ => inferInstanceAs (Decidable True)

/-- A container that fails when it is iterated. -/
def isUnsteady (s : Store) (v : Value) : Bool :=
  match s.view v with
  | some (.custom kind _) => kind.isContainer
  | _ => false

/-- All that cells hold has been made. -/
def Closed (s : Store) : Prop := ∀ c ∈ s.cells.toList, ∀ v ∈ c.parts, s.Knows v

instance (s : Store) : Decidable s.Closed := inferInstanceAs (Decidable (∀ _ ∈ _, _))

variable {s : Store}

/-- What a cell of a closed store holds is known. -/
theorem Closed.knows (h : s.Closed) {a : Address} {c : Cell} (hc : s.cell? a = some c) {v : Value}
    (hv : v ∈ c.parts) : s.Knows v :=
  h c (Array.mem_toList_iff.mpr (Array.mem_of_getElem? hc)) v hv

/-- A value with a cell is known. -/
theorem knows_of_view {v : Value} {c : Cell} (h : s.view v = some c) : s.Knows v := by
  cases v with
  | ref a => exact (Array.getElem?_eq_some_iff.mp h).1
  | _ => trivial

/-- What can be called has been made. -/
theorem knows_of_isCallable {v : Value} (h : s.isCallable v = true) : s.Knows v := by
  cases v with
  | ref a =>
    cases hc : s.cell? a with
    | none => simp [isCallable, view, hc] at h
    | some c => exact knows_of_view hc
  | _ => trivial

theorem entries?_of_dict {a : Address} {es : Entries} (h : s.cell? a = some (.dict es)) :
    s.entries? (.ref a) = some es := by
  unfold entries?
  rw [show s.view (.ref a) = _ from h]

/-- The cell behind a mapping. -/
theorem view_of_entries? {v : Value} {es : Entries} (h : s.entries? v = some es) :
    s.view v = some (.dict es) ∨ s.view v = some (.frozen es) := by
  unfold entries? at h
  split at h
  · rename_i fs hview
    cases h
    exact .inl hview
  · rename_i fs hview
    cases h
    exact .inr hview
  · cases h

/-- The keys and the values of a mapping are known. -/
theorem Closed.knows_entry (h : s.Closed) {v key x : Value} {es : Entries}
    (hes : s.entries? v = some es) (hmem : (key, x) ∈ es) : s.Knows key ∧ s.Knows x := by
  have hparts : ∃ (a : Address) (c : Cell), s.cell? a = some c ∧ key ∈ c.parts ∧ x ∈ c.parts := by
    have hkey : key ∈ es.flatMap fun e => [e.1, e.2] :=
      List.mem_flatMap.mpr ⟨_, hmem, List.mem_cons_self⟩
    have hx : x ∈ es.flatMap fun e => [e.1, e.2] :=
      List.mem_flatMap.mpr ⟨_, hmem, List.mem_cons_of_mem _ List.mem_cons_self⟩
    cases v with
    | ref a =>
      rcases view_of_entries? hes with hview | hview
      · exact ⟨a, _, hview, hkey, hx⟩
      · exact ⟨a, _, hview, hkey, hx⟩
    | _ => simp [entries?, view] at hes
  obtain ⟨a, c, hc, hkey, hx⟩ := hparts
  exact ⟨h.knows hc hkey, h.knows hc hx⟩

variable {v : Value} {c : Cell}

theorem isKeyAt_of_view (hview : s.view v = some c) (fuel : Nat) :
    s.isKeyAt (fuel + 1) v = (c.isKeyKind && c.keyParts.all (s.isKeyAt fuel)) := by
  unfold isKeyAt isKeyKind
  rw [hview]
  cases c <;> simp [Cell.isKeyKind, Cell.keyParts, Function.comp_def]

theorem isKeyAt_of_no_view (hview : s.view v = none) (fuel : Nat) :
    s.isKeyAt (fuel + 1) v = true := by
  unfold isKeyAt isKeyKind
  rw [hview]

theorem isKeyKind_of_view (hview : s.view v = some c) : s.isKeyKind v = c.isKeyKind := by
  unfold isKeyKind
  rw [hview]
  cases c <;> rfl

/-- What can be a key is of a kind that can be one. -/
theorem isKeyKind_of_isKeyAt {bound : Nat} (hkey : s.isKeyAt (bound + 1) v = true) :
    s.isKeyKind v = true := by
  cases hview : s.view v with
  | none =>
    unfold isKeyKind
    rw [hview]
  | some c =>
    rw [isKeyAt_of_view hview, Bool.and_eq_true] at hkey
    rw [isKeyKind_of_view hview]
    exact hkey.1

/-- A larger bound on the nesting refuses no key. -/
theorem isKeyAt_succ : ∀ (fuel : Nat) (v : Value),
    s.isKeyAt fuel v = true → s.isKeyAt (fuel + 1) v = true := by
  intro fuel
  induction fuel with
  | zero => intro v h; simp [isKeyAt] at h
  | succ fuel ih =>
    intro v h
    unfold isKeyAt at h ⊢
    split at h
    · exact List.all_eq_true.mpr fun x hx => ih x (List.all_eq_true.mp h x hx)
    · exact List.all_eq_true.mpr fun f hf => ih f.2 (List.all_eq_true.mp h f hf)
    · exact List.all_eq_true.mpr fun x hx => ih x (List.all_eq_true.mp h x hx)
    · exact h

theorem isKeyAt_mono {fuel more : Nat} (hle : fuel ≤ more) {v : Value}
    (h : s.isKeyAt fuel v = true) : s.isKeyAt more v = true := by
  induction hle with
  | refl => exact h
  | step _ ih => exact isKeyAt_succ _ v ih

end Store

namespace State

variable {s t u : State} {v : Value}

/-- What the cell of a known value is later is what it can become. -/
theorem Evolves.view (h : s.Evolves t) (hv : s.store.Knows v) :
    (s.store.view v = none ∧ t.store.view v = none) ∨
      ∃ c d, s.store.view v = some c ∧ t.store.view v = some d ∧ c.Becomes d := by
  cases v with
  | ref a =>
    have hc : s.store.cell? a = some s.store.cells[a.index] := Array.getElem?_eq_getElem hv
    obtain ⟨d, hd, hcd⟩ := h.cells a _ hc
    exact .inr ⟨_, d, hc, hd, hcd⟩
  | _ => exact .inl ⟨rfl, rfl⟩

/-- A known value can be called later exactly when it can be now. -/
theorem Evolves.isCallable (h : s.Evolves t) (hv : s.store.Knows v) :
    t.store.isCallable v = s.store.isCallable v := by
  unfold Store.isCallable
  split
  · rfl
  · rfl
  · rfl
  · rcases h.view hv with ⟨hs, ht⟩ | ⟨c, d, hs, ht, hcd⟩
    · rw [hs, ht]
    · rw [hs, ht]
      cases hcd <;> rfl

/-- A known value can be iterated later exactly when it can be now. -/
theorem Evolves.isIterable (h : s.Evolves t) (hv : s.store.Knows v) :
    t.store.isIterable v = s.store.isIterable v := by
  unfold Store.isIterable
  split
  · rfl
  · rfl
  · rcases h.view hv with ⟨hs, ht⟩ | ⟨c, d, hs, ht, hcd⟩
    · rw [hs, ht]
    · rw [hs, ht]
      cases hcd <;> rfl

/-- A known value is a mapping later exactly when it is one now. -/
theorem Evolves.isMapping (h : s.Evolves t) (hv : s.store.Knows v) :
    t.store.isMapping v = s.store.isMapping v := by
  unfold Store.isMapping Store.entries?
  rcases h.view hv with ⟨hs, ht⟩ | ⟨c, d, hs, ht, hcd⟩
  · rw [hs, ht]
  · rw [hs, ht]
    cases hcd <;> rfl

/-- A known value fails to be iterated later exactly when it fails now. -/
theorem Evolves.isUnsteady (h : s.Evolves t) (hv : s.store.Knows v) :
    t.store.isUnsteady v = s.store.isUnsteady v := by
  unfold Store.isUnsteady
  rcases h.view hv with ⟨hs, ht⟩ | ⟨c, d, hs, ht, hcd⟩
  · rw [hs, ht]
  · rw [hs, ht]
    cases hcd <;> rfl

/-- A kind of keys stays one. -/
theorem Evolves.isKeyKind (h : s.Evolves t) (hv : s.store.Knows v) :
    t.store.isKeyKind v = s.store.isKeyKind v := by
  unfold Store.isKeyKind
  rcases h.view hv with ⟨hs, ht⟩ | ⟨c, d, hs, ht, hcd⟩
  · rw [hs, ht]
  · rw [hs, ht]
    cases hcd <;> rfl

/-- A key of a closed store stays a key, within the same bound on its nesting. -/
theorem Evolves.isKeyAt (h : s.Evolves t) (hclosed : s.store.Closed) :
    ∀ (fuel : Nat) (v : Value), s.store.Knows v → s.store.isKeyAt fuel v = true →
      t.store.isKeyAt fuel v = true := by
  intro fuel
  induction fuel with
  | zero => intro v _ hkey; simp [Store.isKeyAt] at hkey
  | succ fuel ih =>
    intro v hv hkey
    cases v with
    | ref a =>
      rcases h.view hv with ⟨hs, ht⟩ | ⟨c, d, hs, ht, hcd⟩
      · unfold Store.isKeyAt at hkey ⊢
        rw [hs] at hkey
        rw [ht]
        simp [Store.isKeyKind, ht]
      · have hparts : ∀ x ∈ c.parts, s.store.Knows x := fun x hx => hclosed.knows hs hx
        have hkind := h.isKeyKind hv
        unfold Store.isKeyAt at hkey ⊢
        rw [hs] at hkey
        rw [ht]
        cases hcd with
        | same =>
          cases c with
          | tuple xs =>
            exact List.all_eq_true.mpr fun x hx =>
              ih x (hparts x hx) (List.all_eq_true.mp hkey x hx)
          | record kind fs =>
            exact List.all_eq_true.mpr fun f hf =>
              ih f.2 (hparts f.2 (List.mem_map_of_mem hf)) (List.all_eq_true.mp hkey f hf)
          | policy p =>
            exact List.all_eq_true.mpr fun x hx =>
              ih x (hparts x hx) (List.all_eq_true.mp hkey x hx)
          | _ => exact hkind.trans hkey
        | _ => exact hkind.trans hkey
    | _ => rfl

/-- A key of a closed store stays a key. -/
theorem Evolves.isKey (h : s.Evolves t) (hclosed : s.store.Closed) (hv : s.store.Knows v)
    (hkey : s.store.isKey v = true) : t.store.isKey v = true := by
  refine Store.isKeyAt_mono ?_ (h.isKeyAt hclosed s.store.depth v hv hkey)
  exact Nat.add_le_add_right h.size_le 2

/-! ## Mappings that keep their entries -/

/-- A state comes after another one, and no mapping has been changed in between. -/
structure KeepsMappings (s t : State) : Prop where
  evolves : s.Evolves t
  dicts : ∀ a es, s.store.cell? a = some (.dict es) → t.store.cell? a = some (.dict es)

theorem KeepsMappings.refl (s : State) : s.KeepsMappings s := ⟨.refl s, fun _ _ h => h⟩

theorem KeepsMappings.trans (hst : s.KeepsMappings t) (htu : t.KeepsMappings u) :
    s.KeepsMappings u :=
  ⟨hst.evolves.trans htu.evolves, fun a es h => htu.dicts a es (hst.dicts a es h)⟩

/-- A known mapping has the same entries later. -/
theorem KeepsMappings.entries? (h : s.KeepsMappings t) (hv : s.store.Knows v) :
    t.store.entries? v = s.store.entries? v := by
  unfold Store.entries?
  rcases h.evolves.view hv with ⟨hs, ht⟩ | ⟨c, d, hs, ht, hcd⟩
  · rw [hs, ht]
  · cases c with
    | dict es =>
      cases v with
      | ref a => rw [hs, show t.store.view (.ref a) = _ from h.dicts a es hs]
      | _ => cases hs
    | _ =>
      rw [hs, ht]
      cases hcd <;> rfl

/-- Making a cell changes no mapping. -/
theorem keepsMappings_alloc (s : State) (c : Cell) :
    s.KeepsMappings { s with store := (s.store.alloc c).2 } :=
  ⟨s.evolves_alloc c, fun _ _ h =>
    (Store.cell?_alloc_of_lt c (Array.getElem?_eq_some_iff.mp h).1).trans h⟩

/-- Growing changes no mapping. -/
theorem Grows.keepsMappings (h : s.Grows t) : s.KeepsMappings t :=
  ⟨h.extends.evolves, fun a _ hes => h.cells a _ hes⟩

/-- Writing to a cell that is no mapping changes none. -/
theorem keepsMappings_write {a : Address} {c d : Cell} (h : s.store.cell? a = some c)
    (hcd : c.Becomes d) (hdict : ∀ es, c ≠ .dict es) :
    s.KeepsMappings { s with store := s.store.write a d } := by
  refine ⟨evolves_write h hcd, fun b es hb => ?_⟩
  have hne : b ≠ a := by
    rintro rfl
    rw [h] at hb
    exact hdict es (Option.some.inj hb)
  exact (Store.cell?_write_of_ne _ hne).trans hb

end State

namespace Action

/-- Visiting the elements of a container changes no mapping. -/
theorem keepsMappings_iterate (v : Value) (s : State) :
    s.KeepsMappings ((iterate v).execute s).2 := by
  unfold iterate
  rw [execute_bind, execute_look]
  cases s.store.elements v with
  | error e => exact .refl s
  | ok xs =>
    cases v with
    | ref a =>
      dsimp only
      rw [execute_bind]
      unfold cell
      rw [execute_get_bind]
      cases hc : s.store.cell? a with
      | none => exact .refl s
      | some c =>
        cases c with
        | iterator rest =>
          exact State.keepsMappings_write hc (.iterator rest []) fun _ h => by cases h
        | _ => exact .refl s
    | _ => exact .refl s

/-- A value that offers to be iterated and does not fail to has elements. -/
theorem iterate_ok {v : Value} {s : State} (hiterable : s.store.isIterable v = true)
    (hsteady : s.store.isUnsteady v = false) :
    ∃ xs t, (iterate v).execute s = (.ok xs, t) := by
  have helements : ∃ xs, s.store.elements v = .ok xs := by
    unfold Store.isIterable at hiterable
    unfold Store.isUnsteady at hsteady
    unfold Store.elements
    cases v with
    | ref a =>
      dsimp only at hiterable ⊢
      revert hiterable hsteady
      cases s.store.view (.ref a) with
      | none => simp
      | some c => cases c <;> simp_all
    | str t => exact ⟨_, rfl⟩
    | bytes bs => exact ⟨_, rfl⟩
    | _ => cases hiterable
  obtain ⟨xs, hxs⟩ := helements
  unfold iterate
  rw [execute_bind, execute_look, hxs]
  cases v with
  | ref a =>
    dsimp only
    cases hc : s.store.cell? a with
    | none => simp [Store.elements, Store.view, hc] at hxs
    | some c =>
      rw [execute_bind_of_ok (execute_cell hc)]
      cases c <;> exact ⟨_, _, rfl⟩
  | _ => exact ⟨_, _, rfl⟩

/-- What is iterated are the elements. -/
theorem elements_of_iterate {v : Value} {xs : List Value} {s t : State}
    (h : (iterate v).execute s = (.ok xs, t)) : s.store.elements v = .ok xs := by
  unfold iterate at h
  obtain ⟨ys, u, hlook, h⟩ := execute_bind_ok h
  rw [execute_look] at hlook
  cases hys : s.store.elements v with
  | error e =>
    rw [hys] at hlook
    cases hlook
  | ok zs =>
    rw [hys] at hlook
    cases hlook
    refine congrArg Except.ok ?_
    cases v with
    | ref a =>
      obtain ⟨c, w, -, h⟩ := execute_bind_ok h
      cases c <;> cases h <;> rfl
    | _ =>
      cases h
      rfl

end Action

end Recordset
