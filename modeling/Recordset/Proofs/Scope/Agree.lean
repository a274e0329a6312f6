import Recordset.Proofs.Scope.Basic
import Recordset.Proofs.Sorting.Order
set_option autoImplicit false

/-!
# Actions within a scope

Two states agree on a scope when they have the same cells and attributes there, and as many cells
and serial numbers in all (`Scope.Agree`).  All that the cells of the scope hold is in the scope,
and so is what is still to be made.

An action stays within a scope when it comes to the same in states that agree on the scope: it
gives the same result, a value of the scope, it leaves states that agree again, it changes no cell
outside, and it sets the same attributes in both, on values of the scope (`Action.Within`).  The
rules for sequences, loops and handlers are tagged for `grind`.
-/

namespace Recordset

/-! ## Attributes that have been set -/

namespace Store

/-- The attributes that have been set on a value decide about each of them. -/
theorem mark?_eq (s : Store) (v : Value) (name : String) :
    s.mark? v name = ((s.marksOf v).reverse.find? (·.1 == name)).map (·.2) := by
  unfold mark? marksOf
  generalize s.marks = marks
  rw [← List.map_reverse, ← List.filter_reverse, List.reverse_reverse]
  induction marks with
  | nil => rfl
  | cons m marks ih =>
    cases hsame : m.1.same v with
    | false => simpa [hsame] using ih
    | true =>
      cases hname : m.2.1 == name with
      | false => simpa [hsame, hname] using ih
      | true => simp [hsame, hname]

/-- An attribute that is set comes after those that have been set. -/
theorem marksOf_setMark (s : Store) (v w x : Value) (name : String) :
    (s.setMark v name x).marksOf w =
      s.marksOf w ++ if v.same w then [(name, x)] else [] := by
  unfold setMark marksOf
  cases hsame : v.same w <;> simp [hsame]

end Store

/-! ## States that agree on a scope -/

namespace Scope

/-- All that is held in a scope is in it, and so is what is still to be made. -/
structure Closed (sc : Scope) (s : Store) : Prop where
  fresh : ∀ a : Address, s.size ≤ a.index → sc.Has a
  cells : ∀ {a : Address} {c : Cell}, sc.Has a → s.cell? a = some c → sc.Has c
  marks : ∀ {v : Value}, sc.Has v → sc.Has (s.marksOf v)

/-- Two stores are the same on a scope, and have as many cells in all. -/
structure SameStore (sc : Scope) (s t : Store) : Prop where
  size : s.size = t.size
  cells : ∀ {a : Address}, sc.Has a → s.cell? a = t.cell? a
  marks : ∀ {v : Value}, sc.Has v → s.marksOf v = t.marksOf v
  closed : sc.Closed t

/-- Two states are the same on a scope, and have given as many serial numbers. -/
structure Agree (sc : Scope) (s t : State) : Prop extends sc.SameStore s.store t.store where
  serial : s.serial = t.serial
  numbers : ∀ n, t.serial ≤ n → n ∈ sc.extensions ∧ n ∈ sc.methods
  bound_left : s.variables = sc.bound
  bound_right : t.variables = sc.bound

/-- A state comes after another one, and no cell outside of a scope has been changed. -/
structure Spares (sc : Scope) (s t : State) : Prop where
  cells : ∀ {a : Address}, ¬ sc.Has a → t.store.cell? a = s.store.cell? a
  size_le : s.store.size ≤ t.store.size
  serial_le : s.serial ≤ t.serial

/-- Two states come after two others side by side: no cell outside of a scope has been changed, and
the same attributes have been set, on values of the scope. -/
structure Paces (sc : Scope) (s t u v : State) : Prop where
  left : sc.Spares s u
  right : sc.Spares t v
  marks : ∃ new, u.store.marks = new ++ s.store.marks ∧ v.store.marks = new ++ t.store.marks ∧
    ∀ m ∈ new, sc.Has m.1

variable {sc : Scope} {s t u : State}

theorem Spares.refl (s : State) : sc.Spares s s := ⟨fun _ => rfl, le_rfl, le_rfl⟩

theorem Spares.trans (hst : sc.Spares s t) (htu : sc.Spares t u) : sc.Spares s u :=
  ⟨fun h => (htu.cells h).trans (hst.cells h), hst.size_le.trans htu.size_le,
    hst.serial_le.trans htu.serial_le⟩

/-- What is not in the store can change at will. -/
theorem spares_of_store (hstore : t.store = s.store) (hserial : s.serial ≤ t.serial) :
    sc.Spares s t :=
  ⟨fun _ => by rw [hstore], by rw [hstore], hserial⟩

theorem Paces.refl (s t : State) : sc.Paces s t s t :=
  ⟨.refl s, .refl t, [], rfl, rfl, by simp⟩

theorem Paces.trans {s' t' s'' t'' : State} (h : sc.Paces s t s' t') (h' : sc.Paces s' t' s'' t'') :
    sc.Paces s t s'' t'' := by
  obtain ⟨new, hs, ht, hnew⟩ := h.marks
  obtain ⟨newer, hs', ht', hnewer⟩ := h'.marks
  refine ⟨h.left.trans h'.left, h.right.trans h'.right, newer ++ new, ?_, ?_, ?_⟩
  · rw [hs', hs, List.append_assoc]
  · rw [ht', ht, List.append_assoc]
  · exact List.forall_mem_append.mpr ⟨hnewer, hnew⟩

/-- Where no attribute has been set. -/
theorem paces_of_spares {s' t' : State} (hs : sc.Spares s s') (ht : sc.Spares t t')
    (hs' : s'.store.marks = s.store.marks) (ht' : t'.store.marks = t.store.marks) :
    sc.Paces s t s' t' := ⟨hs, ht, [], hs', ht', by simp⟩

/-- States that agree have stores that are closed. -/
theorem SameStore.closed_left {s t : Store} (h : sc.SameStore s t) : sc.Closed s where
  fresh a ha := h.closed.fresh a (h.size ▸ ha)
  cells ha hc := h.closed.cells ha ((h.cells ha).symm.trans hc)
  marks hv := h.marks hv ▸ h.closed.marks hv

/-- What two runs that are made side by side come to: the same result, and states that agree
again. -/
structure Twin {α : Type} (sc : Scope) (s t : State) (p : α → Prop) (l r : α × State) : Prop where
  result : l.1 = r.1
  holds : p r.1
  agree : sc.Agree l.2 r.2
  paces : sc.Paces s t l.2 r.2

/-- What is ensured of computations that come to the same in states that agree on a scope. -/
def judgement (sc : Scope) : Sorting.Judgement (StateM State) where
  Ensures x p := ∀ s t, sc.Agree s t → sc.Twin s t p (x.run s) (x.run t)
  ensures_pure h s t hst := ⟨rfl, h, hst, .refl s t⟩
  ensures_bind := by
    intro α β x f p q hx hf s t hst
    have h := hx s t hst
    have hrest := hf (x.run t).1 h.holds _ _ h.agree
    rw [StateT.run_bind, StateT.run_bind]
    show sc.Twin s t q ((f (x.run s).1).run (x.run s).2) ((f (x.run t).1).run (x.run t).2)
    rw [h.result]
    exact ⟨hrest.result, hrest.holds, hrest.agree, h.paces.trans hrest.paces⟩
  ensures_imp hx himp s t hst :=
    have h := hx s t hst
    ⟨h.result, himp _ h.holds, h.agree, h.paces⟩

end Scope

/-! ## Actions -/

namespace Action

variable {sc : Scope} {α β : Type} [Scoped α] [Scoped β]

/-- Two actions come to the same, one from each of two states. -/
def WithinFrom (sc : Scope) (s t : State) (x y : Action α) : Prop :=
  sc.Twin s t sc.Has (x.execute s) (y.execute t)

/-- An action comes to the same in all states that agree on a scope, and changes no cell outside. -/
def Within (sc : Scope) (x : Action α) : Prop :=
  ∀ s t : State, sc.Agree s t → WithinFrom sc s t x x

/-- What is looked up is the same in all stores that are the same on a scope. -/
def Reads (sc : Scope) (f : Look α) : Prop :=
  ∀ s t : Store, sc.SameStore s t → f s = f t ∧ sc.Has (f t)

/-- A way of calling under which every call of a value with values of a scope stays within it. -/
abbrev WithinCaller (sc : Scope) (caller : Caller) : Prop :=
  ∀ (f : Value) (args : List Value), sc.Has f → sc.Has args → Within sc (caller f args)

variable {s t : State}

theorem Within.from {x : Action α} (hx : Within sc x) (h : sc.Agree s t) :
    WithinFrom sc s t x x := hx s t h

/-! ## Sequences -/

/-- What leaves the store and the serial numbers alone. -/
theorem withinFrom_idle {x y : Action α} {r : Except Error α} (hr : sc.Has r) (h : sc.Agree s t)
    (hx : x.execute s = (r, s)) (hy : y.execute t = (r, t)) : WithinFrom sc s t x y := by
  unfold WithinFrom
  rw [hx, hy]
  exact ⟨rfl, hr, h, .refl s t⟩

theorem withinFrom_bind {x y : Action α} {f g : α → Action β} (hxy : WithinFrom sc s t x y)
    (hfg : ∀ a u v, sc.Has a → sc.Agree u v → WithinFrom sc u v (f a) (g a)) :
    WithinFrom sc s t (x >>= f) (y >>= g) := by
  obtain ⟨hresult, hholds, hagree, hpaces⟩ := hxy
  unfold WithinFrom
  rw [execute_bind, execute_bind]
  cases hrun : x.execute s with
  | mk r u =>
    cases hrun' : y.execute t with
    | mk r' v =>
      rw [hrun, hrun'] at hresult hagree hpaces
      rw [hrun'] at hholds
      obtain rfl : r = r' := hresult
      cases r with
      | ok a =>
        have hrest := hfg a u v (Scope.has_ok.mp hholds) hagree
        exact ⟨hrest.result, hrest.holds, hrest.agree, hpaces.trans hrest.paces⟩
      | error e => exact ⟨rfl, Scope.has_error sc e, hagree, hpaces⟩

@[grind ←]
theorem within_pure {a : α} (ha : sc.Has a) : Within sc (pure a : Action α) :=
  fun _ _ h => withinFrom_idle (Scope.has_ok.mpr ha) h rfl rfl

@[grind ←]
theorem within_throw (e : Error) : Within sc (throw e : Action α) :=
  fun _ _ h => withinFrom_idle (Scope.has_error sc e) h rfl rfl

@[grind ←]
theorem within_fault (f : Fault) : Within sc (fault f : Action α) := within_throw _

@[grind ←]
theorem within_refuse (r : Refusal) : Within sc (refuse r : Action α) := within_throw _

@[grind ←]
theorem within_bind {x : Action α} {f : α → Action β} (hx : Within sc x)
    (hf : ∀ a, sc.Has a → Within sc (f a)) : Within sc (x >>= f) :=
  fun s t h => withinFrom_bind (hx s t h) fun a u v ha huv => hf a ha u v huv

/-- What follows a look at the state sees two states that agree. -/
theorem within_get_bind {f : State → Action β}
    (hf : ∀ s t, sc.Agree s t → WithinFrom sc s t (f s) (f t)) :
    Within sc (get >>= f : Action β) := fun s t h => hf s t h

/-- What follows a look at the state does not tell apart two states that agree. -/
theorem within_get_eq {f : State → Action β}
    (hf : ∀ s t, sc.Agree s t → f s = f t ∧ Within sc (f t)) :
    Within sc (get >>= f : Action β) :=
  within_get_bind fun s t h => (hf s t h).1 ▸ (hf s t h).2 s t h

@[grind ←]
theorem within_tryCatch {x : Action α} {f : Error → Action α} (hx : Within sc x)
    (hf : ∀ e, Within sc (f e)) : Within sc (tryCatch x f) := by
  intro s t h
  obtain ⟨hresult, hholds, hagree, hpaces⟩ := hx s t h
  unfold WithinFrom
  rw [execute_tryCatch, execute_tryCatch]
  cases hrun : x.execute s with
  | mk r u =>
    cases hrun' : x.execute t with
    | mk r' v =>
      rw [hrun, hrun'] at hresult hagree hpaces
      rw [hrun'] at hholds
      obtain rfl : r = r' := hresult
      cases r with
      | ok a => exact ⟨rfl, hholds, hagree, hpaces⟩
      | error e =>
        have hrest := hf e u v hagree
        exact ⟨hrest.result, hrest.holds, hrest.agree, hpaces.trans hrest.paces⟩

/-- The outcome of an action as a result. -/
@[grind ←]
theorem within_lift_run {x : Action α} (hx : Within sc x) :
    Within sc (ExceptT.lift x.run : Action (Except Error α)) := by
  intro s t h
  obtain ⟨hresult, hholds, hagree, hpaces⟩ := hx s t h
  exact ⟨congrArg Except.ok hresult, Scope.has_ok.mpr hholds, hagree, hpaces⟩

/-- A computation on the state as an action. -/
theorem within_lift {x : StateM State α} (hx : sc.judgement.Ensures x sc.Has) :
    Within sc (ExceptT.lift x : Action α) := by
  intro s t h
  obtain ⟨hresult, hholds, hagree, hpaces⟩ := hx s t h
  exact ⟨congrArg Except.ok hresult, Scope.has_ok.mpr hholds, hagree, hpaces⟩

theorem ensures_run {x : Action α} (hx : Within sc x) : sc.judgement.Ensures x.run sc.Has := hx

@[grind ←]
theorem within_ofExcept {r : Except Error α} (hr : sc.Has r) : Within sc (ofExcept r) :=
  fun s t h => withinFrom_idle hr h (execute_ofExcept r s) (execute_ofExcept r t)

@[grind ←]
theorem within_look {f : Look α} (hf : Reads sc f) : Within sc (look f) := by
  intro s t h
  obtain ⟨heq, hhas⟩ := hf s.store t.store h.toSameStore
  refine withinFrom_idle hhas h ?_ (execute_look f t)
  rw [execute_look, heq]

/-! ## The store -/

section

variable {c : Cell} {a : Address}

/-- A cell that is made is the next one in both states. -/
theorem agree_alloc (h : sc.Agree s t) (hc : sc.Has c) :
    sc.Agree { s with store := (s.store.alloc c).2 } { t with store := (t.store.alloc c).2 } := by
  have hsize : ∀ r : Store, (r.alloc c).2.size = r.size + 1 := fun r => Array.size_push ..
  have hnew : ∀ (r : Store) (b : Address), (r.alloc c).2.cell? b =
      if b.index = r.size then some c else r.cell? b := fun r b => Array.getElem?_push
  constructor
  · constructor
    · rw [hsize, hsize, h.size]
    · intro b hb
      rw [hnew, hnew, h.size, h.cells hb]
    · exact h.marks
    · constructor
      · intro b hb
        rw [hsize] at hb
        exact h.closed.fresh b (Nat.le_of_succ_le hb)
      · intro b d hb hd
        rw [hnew] at hd
        split at hd
        · cases hd
          exact hc
        · exact h.closed.cells hb hd
      · exact h.closed.marks
  · exact h.serial
  · exact h.numbers
  · exact h.bound_left
  · exact h.bound_right

theorem spares_alloc (h : sc.Closed s.store) :
    sc.Spares s { s with store := (s.store.alloc c).2 } := by
  refine ⟨fun {b} hb => ?_, Nat.le.intro (Array.size_push ..).symm, le_rfl⟩
  have hlt : b.index < s.store.size := Nat.lt_of_not_le fun hle => hb (h.fresh b hle)
  exact Store.cell?_alloc_of_lt c hlt

@[grind ←]
theorem within_alloc (hc : sc.Has c) : Within sc (alloc c) := by
  intro s t h
  unfold WithinFrom
  rw [execute_alloc, execute_alloc, h.size]
  exact ⟨rfl, Scope.has_ok.mpr (h.closed.fresh _ le_rfl), agree_alloc h hc,
    Scope.paces_of_spares (spares_alloc h.closed_left) (spares_alloc h.closed) rfl rfl⟩

@[grind ←]
theorem within_make (hc : sc.Has c) : Within sc (make c) :=
  within_bind (within_alloc hc) fun _ ha => within_pure (Scope.has_ref.mpr ha)

theorem cell?_write (s : Store) (a b : Address) (c : Cell) :
    (s.write a c).cell? b = if a = b ∧ b.index < s.size then some c else s.cell? b := by
  by_cases hab : a = b
  · subst hab
    by_cases hlt : a.index < s.size
    · rw [Store.cell?_write_of_lt c hlt, if_pos ⟨rfl, hlt⟩]
    · rw [if_neg fun h => hlt h.2]
      have hlt' : ¬ a.index < s.cells.size := hlt
      simp [Store.write, Store.cell?, hlt']
  · rw [Store.cell?_write_of_ne c fun h => hab h.symm, if_neg fun h => hab h.1]

/-- A cell of the scope is written in both states. -/
theorem agree_write (h : sc.Agree s t) (hc : sc.Has c) (a : Address) :
    sc.Agree { s with store := s.store.write a c } { t with store := t.store.write a c } := by
  have hsize : ∀ r : Store, (r.write a c).size = r.size := fun r => Array.size_setIfInBounds
  constructor
  · constructor
    · rw [hsize, hsize, h.size]
    · intro b hb
      rw [cell?_write, cell?_write, h.size, h.cells hb]
    · exact h.marks
    · constructor
      · intro b hb
        rw [hsize] at hb
        exact h.closed.fresh b hb
      · intro b d hb hd
        rw [cell?_write] at hd
        split at hd
        · cases hd
          exact hc
        · exact h.closed.cells hb hd
      · exact h.closed.marks
  · exact h.serial
  · exact h.numbers
  · exact h.bound_left
  · exact h.bound_right

theorem spares_write (ha : sc.Has a) : sc.Spares s { s with store := s.store.write a c } := by
  refine ⟨fun {b} hb => ?_, Nat.le_of_eq Array.size_setIfInBounds.symm, le_rfl⟩
  refine Store.cell?_write_of_ne c ?_
  rintro rfl
  exact hb ha

@[grind ←]
theorem within_write (ha : sc.Has a) (hc : sc.Has c) : Within sc (write a c) :=
  fun _ _ h => ⟨rfl, Scope.has_inert sc _, agree_write h hc a,
    Scope.paces_of_spares (spares_write ha) (spares_write ha) rfl rfl⟩

@[grind ←]
theorem within_cell (ha : sc.Has a) : Within sc (cell a) := by
  refine within_get_bind fun s t h => ?_
  rw [h.cells ha]
  cases hc : t.store.cell? a with
  | none => exact (within_fault _).from h
  | some c => exact (within_pure (h.closed.cells ha hc)).from h

/-- An attribute is set on the same values in both states. -/
theorem agree_setMark (h : sc.Agree s t) {v x : Value} (hx : sc.Has x) (name : String) :
    sc.Agree { s with store := s.store.setMark v name x }
      { t with store := t.store.setMark v name x } := by
  constructor
  · constructor
    · exact h.size
    · exact h.cells
    · intro w hw
      rw [Store.marksOf_setMark, Store.marksOf_setMark, h.marks hw]
    · refine ⟨h.closed.fresh, h.closed.cells, fun {w} hw => ?_⟩
      rw [Store.marksOf_setMark]
      refine Scope.has_append.mpr ⟨h.closed.marks hw, ?_⟩
      split
      · simpa using hx
      · exact Scope.has_nil sc
  · exact h.serial
  · exact h.numbers
  · exact h.bound_left
  · exact h.bound_right

theorem within_setMark {v x : Value} (hv : sc.Has v) (hx : sc.Has x) (name : String) :
    Within sc (modify fun s => { s with store := s.store.setMark v name x } : Action PUnit) :=
  fun _ _ h => ⟨rfl, Scope.has_inert sc _, agree_setMark h hx name,
    ⟨fun _ => rfl, le_rfl, le_rfl⟩, ⟨fun _ => rfl, le_rfl, le_rfl⟩, [(v, name, x)], rfl, rfl,
    by simpa using hv⟩

/-- What follows a new serial number can use it for an extension or a method. -/
theorem within_serial_bind {f : Nat → Action β}
    (hf : ∀ n, n ∈ sc.extensions → n ∈ sc.methods → Within sc (f n)) :
    Within sc (serial >>= f) := by
  intro s t h
  have hn := h.numbers t.serial le_rfl
  have hagree : sc.Agree { s with serial := t.serial + 1 } { t with serial := t.serial + 1 } :=
    ⟨h.toSameStore, rfl, fun n hle => h.numbers n (Nat.le_of_succ_le hle), h.bound_left,
      h.bound_right⟩
  have hleft : sc.Spares s { s with serial := t.serial + 1 } :=
    Scope.spares_of_store rfl (h.serial.trans_le (Nat.le_succ _))
  have hright : sc.Spares t { t with serial := t.serial + 1 } :=
    Scope.spares_of_store rfl (Nat.le_succ _)
  have hrest := hf t.serial hn.1 hn.2 _ _ hagree
  show sc.Twin s t sc.Has ((f s.serial).execute { s with serial := s.serial + 1 }) _
  rw [h.serial]
  exact ⟨hrest.result, hrest.holds, hrest.agree,
    (Scope.paces_of_spares hleft hright rfl rfl).trans hrest.paces⟩

@[grind ←]
theorem within_lookup {name : String} (hname : sc.Has (sc.bound.lookup name)) :
    Within sc (lookup name) := by
  refine within_get_bind fun s t h => ?_
  rw [h.bound_left, h.bound_right]
  cases hlookup : sc.bound.lookup name with
  | none => exact (within_throw _).from h
  | some v => exact (within_pure (hname v hlookup)).from h

end

/-- What changes neither the store nor the serial numbers nor the variables. -/
theorem within_modify {f : State → State} (hstore : ∀ s, (f s).store = s.store)
    (hserial : ∀ s, (f s).serial = s.serial) (hbound : ∀ s, (f s).variables = s.variables) :
    Within sc (modify f : Action PUnit) := by
  intro s t h
  have hspares : ∀ s, sc.Spares s (f s) := fun s =>
    Scope.spares_of_store (hstore s) (hserial s).ge
  have hmarks : ∀ s, (f s).store.marks = s.store.marks := fun s => by rw [hstore s]
  refine ⟨rfl, Scope.has_inert sc _, ?_,
    Scope.paces_of_spares (hspares s) (hspares t) (hmarks s) (hmarks t)⟩
  show sc.Agree (f s) (f t)
  constructor
  · rw [hstore, hstore]
    exact h.toSameStore
  · rw [hserial, hserial, h.serial]
  · rw [hserial]
    exact h.numbers
  · rw [hbound, h.bound_left]
  · rw [hbound, h.bound_right]

@[grind ←]
theorem within_warn (text : String) : Within sc (warn text) :=
  within_modify (fun _ => rfl) (fun _ => rfl) fun _ => rfl

@[grind ←]
theorem within_print (text : String) : Within sc (print text) :=
  within_modify (fun _ => rfl) (fun _ => rfl) fun _ => rfl

/-! ## Loops -/

@[grind ←]
theorem within_mapM {f : α → Action β} {xs : List α} (hxs : sc.Has xs)
    (hf : ∀ a, sc.Has a → Within sc (f a)) : Within sc (xs.mapM f) := by
  induction xs with
  | nil => exact within_pure (Scope.has_nil sc)
  | cons x xs ih =>
    obtain ⟨hx, hxs⟩ := Scope.has_cons.mp hxs
    rw [List.mapM_cons]
    refine within_bind (hf x hx) fun b hb => within_bind (ih hxs) fun bs hbs => within_pure ?_
    exact Scope.has_cons.mpr ⟨hb, hbs⟩

@[grind ←]
theorem within_foldlM {f : β → α → Action β} {xs : List α} (hxs : sc.Has xs)
    (hf : ∀ b a, sc.Has b → sc.Has a → Within sc (f b a)) :
    ∀ b, sc.Has b → Within sc (xs.foldlM f b) := by
  induction xs with
  | nil => exact fun b hb => within_pure hb
  | cons x xs ih =>
    intro b hb
    obtain ⟨hx, hxs⟩ := Scope.has_cons.mp hxs
    rw [List.foldlM_cons]
    exact within_bind (hf b x hb hx) fun c hc => ih hxs c hc

end Action

end Recordset
