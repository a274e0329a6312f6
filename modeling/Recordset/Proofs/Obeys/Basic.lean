import Recordset.Proofs.Extends
set_option autoImplicit false

/-!
# Actions that obey a relation

An action obeys a relation between states when every state is related to the one that the action
leaves, however it ends (`Action.Obeys`).  What most actions do is little: they make plain cells,
they use up what passes, and they leave the rest of the store alone.  A relation that allows for
that is a base (`State.Base`), and such actions obey every base.  A method that makes collections
from the one that it is called on asks for more (`State.Deriver`), and so does one that registers an
extension (`State.Extender`).  A relation that allows for all of this, and for any registry and any
collection over a list of its own, is a frame (`State.Frame`).

The rules for sequences, loops and handlers are tagged for `grind`, which composes from them that
the longer actions obey.
-/

namespace Recordset

/-- Whether a cell holds a collection. -/
@[grind] def Cell.isCollection : Cell → Bool
  | .collection _ => true
  | .list _ | .tuple _ | .set _ | .dict _ | .frozen _ | .object _ | .iterator _ | .hostile
  | .custom _ _ | .function _ | .registry _ | .policy _ | .generator _ | .builder _ | .executor _
  | .record _ _ | .work _ => false

/-- Whether extensions are looked up in a cell: it holds a collection, or a registry. -/
@[grind] def Cell.hasExtensions : Cell → Bool
  | .collection _ | .registry _ => true
  | .list _ | .tuple _ | .set _ | .dict _ | .frozen _ | .object _ | .iterator _ | .hostile
  | .custom _ _ | .function _ | .policy _ | .generator _ | .builder _ | .executor _
  | .record _ _ | .work _ => false

/-- A relation between a state and a later one that allows for new plain cells and for what has been
used up. -/
class State.Base (R : State → State → Prop) : Prop where
  evolves : ∀ {s t}, R s t → s.Evolves t
  trans : ∀ {s t u}, R s t → R t u → R s u
  /-- what is not in the store can change at will -/
  idle : ∀ {s t : State}, t.store = s.store → R s t
  alloc : ∀ (s : State) (c : Cell), c.hasExtensions = false →
    R s { s with store := (s.store.alloc c).2 }
  pass : ∀ {s : State} {a : Address} {c d : Cell}, s.store.cell? a = some c → c.Stays d →
    c.hasExtensions = false → R s { s with store := s.store.write a d }

/-- A relation that allows for collections that are derived from a certain one. -/
class State.Deriver (R : State → State → Prop) (a : Address) : Prop where
  derive : ∀ {s : State} {c : Collection} (xs : List Value),
    s.store.cell? a = some (.collection c) →
    R s { s with store :=
      ((s.store.alloc (.list xs)).2.alloc (.collection (c.derive ⟨s.store.size⟩))).2 }

/-- A relation that allows for a function to be registered under a name that is free for it. -/
class State.Extender (R : State → State → Prop) : Prop where
  extend : ∀ {s : State} {a : Address} {r : Registry} {name : String} {f : Value},
    s.store.cell? a = some (.registry r) → Registry.isExtensionName name = true →
    s.store.isCallable f = true → name ∉ Registry.reservedNames s.store a →
    R s { s with store := s.store.write a (.registry (r.insert name f)) }

/-- A relation between a state and a later one that allows for new cells, for new collections over
new lists, and for what has been used up. -/
class State.Frame (R : State → State → Prop) : Prop where
  evolves : ∀ {s t}, R s t → s.Evolves t
  trans : ∀ {s t u}, R s t → R t u → R s u
  /-- what is not in the store can change at will -/
  idle : ∀ {s t : State}, t.store = s.store → R s t
  alloc : ∀ (s : State) (c : Cell), c.isCollection = false →
    R s { s with store := (s.store.alloc c).2 }
  collect : ∀ (s : State) (xs : List Value) (c : Collection), c.list = ⟨s.store.size⟩ →
    c.fields = [] → R s { s with store := ((s.store.alloc (.list xs)).2.alloc (.collection c)).2 }
  pass : ∀ {s : State} {a : Address} {c d : Cell}, s.store.cell? a = some c → c.Stays d →
    R s { s with store := s.store.write a d }

section

variable {R : State → State → Prop} [State.Frame R]

theorem Cell.isCollection_of_hasExtensions {c : Cell} (h : c.hasExtensions = false) :
    c.isCollection = false := by
  cases c with
  | collection c => cases h
  | _ => rfl

instance : State.Base R where
  evolves := State.Frame.evolves
  trans := State.Frame.trans
  idle := State.Frame.idle
  alloc s c hc := State.Frame.alloc s c (Cell.isCollection_of_hasExtensions hc)
  pass hc hcd _ := State.Frame.pass hc hcd

instance (a : Address) : State.Deriver R a where
  derive xs _ := State.Frame.collect _ xs _ rfl rfl

instance : State.Extender R where
  extend hr _ _ _ := State.Frame.pass hr (.registry _ _)

end

instance : State.Frame State.Evolves where
  evolves h := h
  trans := State.Evolves.trans
  idle := State.evolves_of_store
  alloc s c _ := s.evolves_alloc c
  collect s xs c _ _ := (s.evolves_alloc (.list xs)).trans (State.evolves_alloc _ (.collection c))
  pass hc hcd := State.evolves_write hc hcd.becomes

namespace Action

variable {R : State → State → Prop} {α β : Type}

/-- Every state is related to the one that a computation leaves. -/
def ObeysRun (R : State → State → Prop) (x : StateM State α) : Prop :=
  ∀ s : State, R s (x.run s).2

/-- A state is related to the one that an action leaves, however it ends. -/
def ObeysFrom (R : State → State → Prop) (s : State) (x : Action α) : Prop := R s (x.execute s).2

/-- Every state is related to the one that an action leaves, however it ends. -/
def Obeys (R : State → State → Prop) (x : Action α) : Prop := ∀ s : State, ObeysFrom R s x

/-- A way of calling under which every call obeys. -/
abbrev ObeysCaller (R : State → State → Prop) (caller : Caller) : Prop :=
  ∀ (f : Value) (args : List Value), Obeys R (caller f args)

/-- What an action leaves that obeys. -/
theorem ObeysFrom.of_execute {x : Action α} {s t : State} {r : Except Error α}
    (hx : ObeysFrom R s x) (h : x.execute s = (r, t)) : R s t := by
  unfold ObeysFrom at hx
  rwa [h] at hx

theorem Obeys.of_execute {x : Action α} {s t : State} {r : Except Error α} (hx : Obeys R x)
    (h : x.execute s = (r, t)) : R s t := (hx s).of_execute h

/-! ## Sequences -/

theorem obeysRun_run {x : Action α} (hx : Obeys R x) : ObeysRun R x.run := hx

theorem obeys_lift {x : StateM State α} (hx : ObeysRun R x) :
    Obeys R (ExceptT.lift x : Action α) := fun s => hx s

theorem obeys_get_bind {f : State → Action β} (hf : ∀ s, ObeysFrom R s (f s)) :
    Obeys R (get >>= f : Action β) := fun s => hf s

theorem obeysFrom_get_bind {s : State} {f : State → Action β} (hf : ObeysFrom R s (f s)) :
    ObeysFrom R s (get >>= f : Action β) := hf

section

variable [State.Base R]

theorem obeysFrom_idle {x : Action α} {s : State} (h : (x.execute s).2.store = s.store) :
    ObeysFrom R s x := State.Base.idle h

theorem obeysRun_pure (a : α) : ObeysRun R (pure a : StateM State α) :=
  fun _ => State.Base.idle rfl

theorem obeysRun_bind {x : StateM State α} {f : α → StateM State β} (hx : ObeysRun R x)
    (hf : ∀ a, ObeysRun R (f a)) : ObeysRun R (x >>= f) := by
  intro s
  exact State.Base.trans (hx s) (hf (x.run s).1 (x.run s).2)

theorem obeys_pure (a : α) : Obeys R (pure a : Action α) := fun _ => obeysFrom_idle rfl

theorem obeys_throw (e : Error) : Obeys R (throw e : Action α) := fun _ => obeysFrom_idle rfl

theorem obeys_fault (f : Fault) : Obeys R (fault f : Action α) := fun _ => obeysFrom_idle rfl

theorem obeys_refuse (r : Refusal) : Obeys R (refuse r : Action α) := fun _ => obeysFrom_idle rfl

/-- The second part of a sequence starts from a state that is related to the first one. -/
theorem obeysFrom_bind_of_related {s : State} {x : Action α} {f : α → Action β}
    (hx : ObeysFrom R s x) (hf : ∀ a t, x.execute s = (.ok a, t) → R s t → ObeysFrom R t (f a)) :
    ObeysFrom R s (x >>= f) := by
  unfold ObeysFrom at hx hf ⊢
  rw [execute_bind]
  cases hrun : x.execute s with
  | mk r t =>
    rw [hrun] at hx
    cases r with
    | ok a => exact State.Base.trans hx (hf a t hrun hx)
    | error e => exact hx

theorem obeysFrom_bind {s : State} {x : Action α} {f : α → Action β} (hx : ObeysFrom R s x)
    (hf : ∀ a, Obeys R (f a)) : ObeysFrom R s (x >>= f) :=
  obeysFrom_bind_of_related hx fun a t _ _ => hf a t

theorem obeys_bind {x : Action α} {f : α → Action β} (hx : Obeys R x) (hf : ∀ a, Obeys R (f a)) :
    Obeys R (x >>= f) := fun s => obeysFrom_bind (hx s) hf

theorem obeys_get : Obeys R (get : Action State) := fun _ => obeysFrom_idle rfl

theorem obeys_tryCatch {x : Action α} {f : Error → Action α} (hx : Obeys R x)
    (hf : ∀ e, Obeys R (f e)) : Obeys R (tryCatch x f) := by
  intro s
  have hleft := hx s
  unfold ObeysFrom at hleft ⊢
  rw [execute_tryCatch]
  cases hrun : x.execute s with
  | mk r t =>
    rw [hrun] at hleft
    cases r with
    | ok a => exact hleft
    | error e => exact State.Base.trans hleft (hf e t)

theorem obeys_ofExcept (r : Except Error α) : Obeys R (ofExcept r) := by
  intro s
  refine obeysFrom_idle ?_
  rw [execute_ofExcept]

theorem obeys_look (f : Look α) : Obeys R (look f) := by
  intro s
  refine obeysFrom_idle ?_
  rw [execute_look]

theorem obeys_alloc {c : Cell} (hc : c.hasExtensions = false) : Obeys R (alloc c) :=
  fun s => State.Base.alloc s c hc

theorem obeys_make {c : Cell} (hc : c.hasExtensions = false) : Obeys R (make c) :=
  fun s => State.Base.alloc s c hc

theorem obeys_cell (a : Address) : Obeys R (cell a) := by
  refine obeys_bind obeys_get fun s => ?_
  cases s.store.cell? a with
  | some c => exact obeys_pure c
  | none => exact obeys_fault _

theorem obeys_view (v : Value) : Obeys R (view v) := fun _ => obeysFrom_idle rfl

theorem obeys_serial : Obeys R serial := fun _ => obeysFrom_idle rfl

theorem obeys_lookup (name : String) : Obeys R (lookup name) := by
  refine obeys_bind obeys_get fun s => ?_
  cases s.variables.lookup name with
  | some v => exact obeys_pure v
  | none => exact obeys_throw _

theorem obeys_warn (text : String) : Obeys R (warn text) := fun _ => obeysFrom_idle rfl

theorem obeys_print (text : String) : Obeys R (print text) := fun _ => obeysFrom_idle rfl

/-! ## Reading and then writing

An action that has only looked around is still in the state that it started from, so what it has
read is what it may write to. -/

theorem obeysFrom_ofExcept_bind {s : State} {r : Except Error α} {f : α → Action β}
    (hf : ∀ a, ObeysFrom R s (f a)) : ObeysFrom R s (ofExcept r >>= f) := by
  cases r with
  | ok a => exact hf a
  | error e => exact obeysFrom_idle rfl

/-- A cell that has been made is read without a change. -/
theorem obeysFrom_cell_bind {s : State} {a : Address} {f : Cell → Action β}
    (hf : ∀ c, s.store.cell? a = some c → ObeysFrom R s (f c)) : ObeysFrom R s (cell a >>= f) := by
  cases hc : s.store.cell? a with
  | some c =>
    unfold ObeysFrom
    rw [execute_bind_of_ok (execute_cell hc)]
    exact hf c hc
  | none =>
    have hmissing : (cell a).execute s = (.error (.fault .type), s) := by
      unfold cell
      rw [execute_get_bind, hc]
      rfl
    refine obeysFrom_idle ?_
    rw [execute_bind_of_error hmissing]

theorem obeys_cell_bind {a : Address} {f : Cell → Action β}
    (hf : ∀ (c : Cell) (s : State), s.store.cell? a = some c → ObeysFrom R s (f c)) :
    Obeys R (cell a >>= f) := fun s => obeysFrom_cell_bind fun c => hf c s

/-- What passes can be used up. -/
theorem obeysFrom_pass {s : State} {a : Address} {c d : Cell} (hc : s.store.cell? a = some c)
    (hcd : c.Stays d) (hplain : c.hasExtensions = false) : ObeysFrom R s (write a d) := by
  unfold ObeysFrom
  rw [execute_write]
  exact State.Base.pass hc hcd hplain

/-! ## Loops -/

theorem obeys_mapM {f : α → Action β} (hf : ∀ a, Obeys R (f a)) (xs : List α) :
    Obeys R (xs.mapM f) := by
  induction xs with
  | nil => exact obeys_pure _
  | cons x xs ih =>
    rw [List.mapM_cons]
    exact obeys_bind (hf x) fun b => obeys_bind ih fun bs => obeys_pure _

theorem obeys_foldlM {f : β → α → Action β} (hf : ∀ b a, Obeys R (f b a)) (xs : List α) :
    ∀ b, Obeys R (xs.foldlM f b) := by
  induction xs with
  | nil => exact fun b => obeys_pure b
  | cons x xs ih =>
    intro b
    rw [List.foldlM_cons]
    exact obeys_bind (hf b x) ih

attribute [grind ←] obeysRun_run obeysRun_pure obeysRun_bind obeys_lift obeys_pure obeys_throw
  obeys_fault obeys_refuse obeys_bind obeys_get obeys_tryCatch obeys_ofExcept obeys_look
  obeys_alloc obeys_make obeys_cell obeys_view obeys_serial obeys_lookup obeys_warn
  obeys_print obeys_mapM obeys_foldlM

end

/-- A collection is made over a list that has been made for it. -/
theorem obeys_collect [State.Frame R] (xs : List Value) {f : Address → Collection}
    (hlist : ∀ a, (f a).list = a) (hfields : ∀ a, (f a).fields = []) :
    Obeys R (do alloc (.collection (f (← alloc (.list xs))))) :=
  fun s => State.Frame.collect s xs (f ⟨s.store.size⟩) (hlist _) (hfields _)

end Action

end Recordset
