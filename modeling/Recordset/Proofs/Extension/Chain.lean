import Recordset.Extension.Registry
import Recordset.Proofs.Action
set_option autoImplicit false

/-!
# Chains of registries

A store is rooted when every registry in it that extends another one has been made after it
(`Store.Rooted`).  The chain of a registry is then the registry itself and the chain of the one that
it extends, and what is read along a chain is read at its first registry or further along.  Every
chain of such a store has an end.
-/

namespace Recordset

namespace Registry

variable {r : Registry} {name key : String} {f : Value}

/-! ## One table -/

theorem contains_iff : r.contains name = true ↔ (r.get? name).isSome = true := by
  simp [contains, get?]

/-- What has been put under a name is found there, and all else is found where it was. -/
theorem get?_insert : (r.insert key f).get? name = if key = name then some f else r.get? name := by
  unfold insert
  split
  · rename_i hcontains
    have hnames : ((fun e : String × Value => e.1 == name) ∘
        fun e => if e.1 == key then (key, f) else e) = fun e => e.1 == name := by
      funext e
      by_cases he : e.1 = key <;> simp [he]
    simp only [get?, List.find?_map, hnames, Option.map_map]
    split
    · rename_i hkey
      subst hkey
      rw [contains_iff, get?, Option.isSome_map] at hcontains
      obtain ⟨e, he⟩ := Option.isSome_iff_exists.mp hcontains
      have hname := List.find?_some he
      simp_all
    · rename_i hkey
      cases he : r.table.find? (·.1 == name) with
      | none => rfl
      | some e =>
        have hname := List.find?_some he
        have hother : e.1 ≠ key := by
          rintro rfl
          exact hkey (by simpa using hname)
        simp [hother]
  · rename_i hcontains
    have hnone : r.table.find? (·.1 == key) = none := by
      rw [contains_iff, get?, Option.isSome_map] at hcontains
      exact Option.not_isSome_iff_eq_none.mp hcontains
    by_cases hkey : key = name
    · subst hkey
      simp [get?, List.find?_append, hnone]
    · simp [get?, List.find?_append, hkey]

@[simp] theorem parent_insert : (r.insert key f).parent = r.parent := by
  unfold insert
  split <;> rfl

@[simp] theorem reserved_insert : (r.insert key f).reserved = r.reserved := by
  unfold insert
  split <;> rfl

@[simp] theorem parent_reserve (names : List String) : (r.reserve names).parent = r.parent := rfl

@[simp] theorem get?_reserve (names : List String) :
    (r.reserve names).get? name = r.get? name := rfl

theorem mem_reserved_reserve {names : List String} :
    name ∈ (r.reserve names).reserved ↔ name ∈ r.reserved ∨ name ∈ names := by
  by_cases hname : name ∈ r.reserved <;> simp [reserve, hname]

/-- A registry keeps the names of methods for them: it reserves them, and none is registered in
it. -/
def Guards (r : Registry) : Prop :=
  ∀ name ∈ builtinNames, name ∈ r.reserved ∧ r.get? name = none

theorem Guards.insert (hguards : r.Guards) (hfree : key ∉ r.reserved) (f : Value) :
    (r.insert key f).Guards := by
  intro name hname
  obtain ⟨hreserved, hnone⟩ := hguards name hname
  have hother : key ≠ name := by
    rintro rfl
    exact hfree hreserved
  exact ⟨by simpa using hreserved, by rw [get?_insert, if_neg hother, hnone]⟩

theorem Guards.reserve (hguards : r.Guards) (names : List String) : (r.reserve names).Guards := by
  intro name hname
  obtain ⟨hreserved, hnone⟩ := hguards name hname
  exact ⟨mem_reserved_reserve.mpr (.inl hreserved), hnone⟩

/-! ## Along a chain -/

variable {s : Store} {a : Address}

/-- A registry is the first one of its chain. -/
theorem mem_reservedNames_of_mem (hr : s.cell? a = some (.registry r)) (hname : name ∈ r.reserved) :
    name ∈ reservedNames s a := by
  unfold reservedNames chain Store.depth
  rw [chainAt, hr]
  exact List.mem_flatMap.mpr ⟨r, List.mem_cons_self, hname⟩

/-- A name is among those of a chain when a function is found under it. -/
theorem mem_names_iff : name ∈ names s a ↔ (lookup s a name).isSome = true := by
  simp only [names, lookup, List.mem_flatMap, List.findSome?_isSome_iff, ← contains_iff]
  simp only [contains, List.any_eq_true, List.mem_map, beq_iff_eq]

theorem mem_names_of_get? (hr : s.cell? a = some (.registry r)) (hf : r.get? name = some f) :
    name ∈ names s a := by
  refine mem_names_iff.mpr ?_
  unfold lookup chain Store.depth
  rw [chainAt, hr, List.findSome?_cons, hf]
  rfl

/-- An attribute of a collection is looked up in the chain of its registry. -/
theorem registered?_eq_lookup : Action.registered? s name s.depth a = lookup s a name := by
  unfold lookup chain
  generalize s.depth = fuel
  induction fuel generalizing a with
  | zero => rfl
  | succ fuel ih =>
    unfold Action.registered? chainAt
    cases s.cell? a with
    | none => rfl
    | some c =>
      cases c with
      | registry r =>
        dsimp only
        rw [List.findSome?_cons]
        cases r.get? name with
        | some f => rfl
        | none =>
          cases r.parent with
          | none => rfl
          | some p => exact ih
      | _ => rfl

end Registry

/-- Every registry that extends another one has been made after it. -/
def Store.Rooted (s : Store) : Prop :=
  ∀ {a p : Address} {r : Registry}, s.cell? a = some (.registry r) → r.parent = some p →
    p.index < a.index

/-- Where no registry has a parent, none has one that is not there. -/
theorem Store.rooted_of_no_parent {s : Store}
    (h : ∀ r, Cell.registry r ∈ s.cells.toList → r.parent = none) : s.Rooted := by
  intro a p r hr hparent
  rw [h r (Array.mem_toList_iff.mpr (Array.mem_of_getElem? hr))] at hparent
  cases hparent

namespace Registry

variable {s : Store} {a : Address} {r : Registry}

/-- How far a chain is followed makes no difference once it is far enough. -/
theorem chainAt_eq (hroot : s.Rooted) {fuel more : Nat} (hfuel : a.index < fuel)
    (hmore : a.index < more) : chainAt s fuel a = chainAt s more a := by
  induction fuel generalizing a more with
  | zero => omega
  | succ fuel ih =>
    cases more with
    | zero => omega
    | succ more =>
      unfold chainAt
      split
      · rename_i r hr
        cases hparent : r.parent with
        | none => rfl
        | some p =>
          have hbefore : p.index < a.index := hroot hr hparent
          have hrest : chainAt s fuel p = chainAt s more p := ih (by omega) (by omega)
          simp only [hrest]
      · rfl

/-- A chain is a registry and the chain of the one that it extends. -/
theorem chain_eq (hroot : s.Rooted) (hr : s.cell? a = some (.registry r)) :
    chain s a = r :: (r.parent.map (chain s)).getD [] := by
  have hlt : a.index < s.size := (Array.getElem?_eq_some_iff.mp hr).1
  unfold chain Store.depth
  rw [chainAt, hr]
  dsimp only
  cases hparent : r.parent with
  | none => rfl
  | some p =>
    have hbefore : p.index < a.index := hroot hr hparent
    have hrest : chainAt s (s.size + 1) p = chainAt s (s.size + 2) p :=
      chainAt_eq hroot (by omega) (by omega)
    exact congrArg (r :: ·) hrest

/-- A name is looked up in a registry and then in the one that it extends. -/
theorem lookup_eq (hroot : s.Rooted) (hr : s.cell? a = some (.registry r)) (name : String) :
    lookup s a name = (r.get? name).or (r.parent.bind (lookup s · name)) := by
  unfold lookup
  rw [chain_eq hroot hr]
  cases hget : r.get? name with
  | some f => simp [hget]
  | none => cases r.parent <;> simp [hget]

end Registry

/-! ## Chains that have an end -/

namespace Action

/-- The chains of a rooted store have an end, there and wherever its cells are as they were. -/
theorem isBounded_of_cells {s t : Store} (hroot : s.Rooted) (hsize : s.size ≤ t.size)
    (hcells : ∀ a : Address, a.index < s.size → t.cell? a = s.cell? a) {a : Address}
    (ha : a.index < s.size) : isBounded t a = true := by
  have hbounded : ∀ (fuel : Nat) (a : Address), a.index < s.size → a.index < fuel →
      isBoundedAt t fuel a = true := by
    intro fuel
    induction fuel with
    | zero => exact fun a _ h => absurd h (Nat.not_lt_zero _)
    | succ fuel ih =>
      intro a ha hfuel
      unfold isBoundedAt
      rw [hcells a ha]
      split
      · rename_i r hr
        cases hparent : r.parent with
        | none => rfl
        | some p =>
          have hbefore : p.index < a.index := hroot hr hparent
          exact ih p (by omega) (by omega)
      · rfl
  exact hbounded _ a ha (by unfold Store.depth; omega)

/-- In a rooted store every chain has an end. -/
theorem isBounded_of_rooted {s : Store} (hroot : s.Rooted) (a : Address) :
    isBounded s a = true := by
  by_cases ha : a.index < s.size
  · exact isBounded_of_cells hroot (Nat.le_refl _) (fun _ _ => rfl) ha
  · have hnone : s.cell? a = none := Array.getElem?_eq_none (Nat.le_of_not_lt ha)
    unfold isBounded Store.depth isBoundedAt
    rw [hnone]

variable {α : Type} {s : State} {a : Address}

theorem execute_alongChain_of_bounded (x : Action α) (h : isBounded s.store a = true) :
    (alongChain a x).execute s = x.execute s := by
  unfold alongChain
  rw [execute_get_bind, h]
  rfl

/-- What takes a whole chain fails along one that has no end. -/
theorem execute_alongChain_of_endless (x : Action α) (h : isBounded s.store a = false) :
    (alongChain a x).execute s = (.error (.fault .recursion), s) := by
  unfold alongChain
  rw [execute_get_bind, h]
  rfl

/-- What takes a whole chain is done, or fails before anything is. -/
theorem execute_alongChain_cases (s : State) (a : Address) (x : Action α) :
    (alongChain a x).execute s = x.execute s ∨
      (alongChain a x).execute s = (.error (.fault .recursion), s) := by
  cases h : isBounded s.store a with
  | true => exact .inl (execute_alongChain_of_bounded x h)
  | false => exact .inr (execute_alongChain_of_endless x h)

end Action

end Recordset
