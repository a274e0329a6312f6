import Recordset.Store
set_option autoImplicit false

/-!
# Executing actions

`Action.execute` gives the result of an action on a state together with the state that it leaves.
An action in sequence succeeds exactly when its parts do, one after another, which is how the runs
of longer actions are taken apart (`execute_bind_ok`) and put together (`execute_bind_of_ok`).
-/

namespace Recordset.Action

variable {α β : Type}

/-- What an action does on a state: its result, and the state that it leaves. -/
def execute (x : Action α) (s : State) : Except Error α × State := (ExceptT.run x).run s

theorem ext_execute {x y : Action α} (h : ∀ s, x.execute s = y.execute s) : x = y :=
  funext h

@[simp] theorem execute_pure (a : α) (s : State) :
    (pure a : Action α).execute s = (.ok a, s) := rfl

@[simp] theorem execute_throw (e : Error) (s : State) :
    (throw e : Action α).execute s = (.error e, s) := rfl

@[simp] theorem execute_fault (f : Fault) (s : State) :
    (fault f : Action α).execute s = (.error (.fault f), s) := rfl

@[simp] theorem execute_refuse (r : Refusal) (s : State) :
    (refuse r : Action α).execute s = (.error (.refusal r), s) := rfl

@[simp] theorem execute_get (s : State) : (get : Action State).execute s = (.ok s, s) := rfl

@[simp] theorem execute_set (s t : State) : (set t : Action PUnit).execute s = (.ok ⟨⟩, t) := rfl

@[simp] theorem execute_ofExcept (r : Except Error α) (s : State) :
    (ofExcept r).execute s = (r, s) := by
  cases r <;> rfl

/-- A sequence goes on with the result of its first part, and ends where that fails. -/
theorem execute_bind (x : Action α) (f : α → Action β) (s : State) :
    (x >>= f).execute s =
      match x.execute s with
      | (.ok a, t) => (f a).execute t
      | (.error e, t) => (.error e, t) := by
  show (ExceptT.run x >>= ExceptT.bindCont f).run s = _
  rw [StateT.run_bind]
  unfold execute
  cases (ExceptT.run x).run s with
  | mk r t => cases r <;> rfl

/-- A sequence whose first part succeeds. -/
theorem execute_bind_of_ok {x : Action α} {f : α → Action β} {s t : State} {a : α}
    (h : x.execute s = (.ok a, t)) : (x >>= f).execute s = (f a).execute t := by
  rw [execute_bind, h]

/-- A sequence whose first part fails. -/
theorem execute_bind_of_error {x : Action α} {f : α → Action β} {s t : State} {e : Error}
    (h : x.execute s = (.error e, t)) : (x >>= f).execute s = (.error e, t) := by
  rw [execute_bind, h]

/-- Two sequences do the same whose first parts do the same. -/
theorem execute_bind_left {x y : Action α} {s : State} (h : x.execute s = y.execute s)
    (f : α → Action β) : (x >>= f).execute s = (y >>= f).execute s := by
  rw [execute_bind, h, ← execute_bind]

/-- Two sequences do the same that start in the same way and go on in the same way. -/
theorem execute_bind_congr {x : Action α} {f g : α → Action β} {s : State}
    (h : ∀ a t, x.execute s = (.ok a, t) → (f a).execute t = (g a).execute t) :
    (x >>= f).execute s = (x >>= g).execute s := by
  rw [execute_bind, execute_bind]
  cases hx : x.execute s with
  | mk r t =>
    cases r with
    | ok a => exact h a t hx
    | error e => rfl

/-- A sequence that succeeds does so part by part. -/
theorem execute_bind_ok {x : Action α} {f : α → Action β} {s u : State} {b : β}
    (h : (x >>= f).execute s = (.ok b, u)) :
    ∃ a t, x.execute s = (.ok a, t) ∧ (f a).execute t = (.ok b, u) := by
  rw [execute_bind] at h
  cases hx : x.execute s with
  | mk r t =>
    rw [hx] at h
    cases r with
    | ok a => exact ⟨a, t, rfl, h⟩
    | error e => cases h

/-- A sequence ends where its first part fails, or it goes on with the result of that. -/
theorem execute_bind_cases {x : Action α} {f : α → Action β} {s u : State} {r : Except Error β}
    (h : (x >>= f).execute s = (r, u)) :
    (∃ e, r = .error e ∧ x.execute s = (.error e, u)) ∨
      ∃ a t, x.execute s = (.ok a, t) ∧ (f a).execute t = (r, u) := by
  rw [execute_bind] at h
  cases hx : x.execute s with
  | mk r' t =>
    rw [hx] at h
    cases r' with
    | ok a => exact .inr ⟨a, t, rfl, h⟩
    | error e =>
      cases h
      exact .inl ⟨e, rfl, rfl⟩

/-- A handler goes on where an action fails. -/
theorem execute_tryCatch (x : Action α) (f : Error → Action α) (s : State) :
    (tryCatch x f).execute s =
      match x.execute s with
      | (.ok a, t) => (.ok a, t)
      | (.error e, t) => (f e).execute t := by
  show (ExceptT.run (ExceptT.tryCatch x f)).run s = _
  unfold ExceptT.tryCatch execute
  rw [ExceptT.run_mk, StateT.run_bind]
  show Bind.bind ((ExceptT.run x).run s) _ = _
  cases (ExceptT.run x).run s with
  | mk r t => cases r <;> rfl

@[simp] theorem execute_get_bind (f : State → Action β) (s : State) :
    (get >>= f : Action β).execute s = (f s).execute s := rfl

@[simp] theorem execute_pure_bind (a : α) (f : α → Action β) (s : State) :
    (pure a >>= f : Action β).execute s = (f a).execute s := rfl

@[simp] theorem execute_look (f : Look α) (s : State) :
    (look f).execute s = (f s.store, s) := by
  unfold look
  rw [execute_get_bind]
  cases f s.store <;> rfl

@[simp] theorem execute_lift (x : Action α) (s : State) :
    execute (ExceptT.lift x.run) s = (.ok (x.execute s).1, (x.execute s).2) := rfl

/-! ## Deciding what holds of results -/

instance decidableOfOk {r : Except Error α} {p : α → Prop} [DecidablePred p] :
    Decidable (∃ a, r = .ok a ∧ p a) :=
  match r with
  | .ok a => decidable_of_iff (p a) ⟨fun h => ⟨a, rfl, h⟩, fun ⟨_, h, hp⟩ => by cases h; exact hp⟩
  | .error _ => .isFalse fun ⟨_, h, _⟩ => by cases h

instance decidableOfError {r : Except Error α} {p : Error → Prop} [DecidablePred p] :
    Decidable (∃ e, r = .error e ∧ p e) :=
  match r with
  | .ok _ => .isFalse fun ⟨_, h, _⟩ => by cases h
  | .error e =>
    decidable_of_iff (p e) ⟨fun h => ⟨e, rfl, h⟩, fun ⟨_, h, hp⟩ => by cases h; exact hp⟩

instance decidableOfSuccess {x : Except Error α × State} {P : α → State → Prop}
    [∀ a t, Decidable (P a t)] : Decidable (∀ a t, x = (.ok a, t) → P a t) :=
  match x with
  | (.ok a, t) => decidable_of_iff (P a t)
    ⟨fun h b u hx => by cases hx; exact h, fun h => h a t rfl⟩
  | (.error _, _) => .isTrue fun _ _ hx => by cases hx

/-! ## The store -/

@[simp] theorem execute_alloc (c : Cell) (s : State) :
    (alloc c).execute s =
      (.ok ⟨s.store.size⟩, { s with store := (s.store.alloc c).2 }) := rfl

@[simp] theorem execute_make (c : Cell) (s : State) :
    (make c).execute s =
      (.ok (.ref ⟨s.store.size⟩), { s with store := (s.store.alloc c).2 }) := rfl

@[simp] theorem execute_write (a : Address) (c : Cell) (s : State) :
    (write a c).execute s = (.ok ⟨⟩, { s with store := s.store.write a c }) := rfl

/-- Reading a cell that has been made. -/
theorem execute_cell {a : Address} {c : Cell} {s : State} (h : s.store.cell? a = some c) :
    (cell a).execute s = (.ok c, s) := by
  unfold cell
  rw [execute_get_bind, h]
  rfl

/-- What has been read from a cell is what it holds. -/
theorem execute_cell_ok {a : Address} {c : Cell} {s t : State}
    (h : (cell a).execute s = (.ok c, t)) : s.store.cell? a = some c ∧ t = s := by
  unfold cell at h
  rw [execute_get_bind] at h
  cases hc : s.store.cell? a with
  | some d =>
    rw [hc] at h
    cases h
    exact ⟨rfl, rfl⟩
  | none =>
    rw [hc] at h
    cases h

/-! ## Invariants -/

/-- An action keeps what holds of the state, however it ends. -/
def Keeps (P : State → Prop) (x : Action α) : Prop := ∀ s, P s → P (x.execute s).2

variable {P : State → Prop}

theorem keeps_pure (a : α) : Keeps P (pure a : Action α) := fun _ h => h

/-- A sequence keeps what each of its parts keeps. -/
theorem keeps_bind {x : Action α} {f : α → Action β} (hx : Keeps P x) (hf : ∀ a, Keeps P (f a)) :
    Keeps P (x >>= f) := by
  intro s h
  have hleft := hx s h
  rw [execute_bind]
  cases hrun : x.execute s with
  | mk r t =>
    rw [hrun] at hleft
    cases r with
    | ok a => exact hf a t hleft
    | error e => exact hleft

end Recordset.Action
