import Recordset.Proofs.Obeys.Open
set_option autoImplicit false

/-!
# Steady actions

An action is steady when every state evolves into the one that it leaves, however it ends
(`Action.Steady`).  To evolve is an open relation that also lets collections be patched, so that
steadiness is a case of obeying it: what is known of all frames is known of steady actions.  The
rules for sequences and loops are stated once more for `grind`, which composes from them the
steadiness of the longer actions.
-/

namespace Recordset

instance : State.Open State.Evolves where
  revise hc hcd _ := State.evolves_write hc hcd
  mark name x hv := State.evolves_setMark hv name x
  assign ys hxs := State.evolves_write hxs (.list _ ys)
  grow _ hc := State.evolves_write hc (.collection _ _)

/-! ## Actions -/

namespace Action

variable {α β : Type}

/-- A computation on the state leads from every state to one that it can evolve into. -/
def Steadily (x : StateM State α) : Prop :=
  ∀ s : State, State.Evolves s (x.run s).2

/-- A state evolves into the one that an action leaves, however it ends. -/
def SteadyFrom (s : State) (x : Action α) : Prop := s.Evolves (x.execute s).2

/-- An action is steady from every state. -/
def Steady (x : Action α) : Prop := ∀ s : State, SteadyFrom s x

theorem steadyFrom_of_steady {x : Action α} {s : State} (hx : Steady x) : SteadyFrom s x := hx s

/-- What a steady action leaves comes after what it started from. -/
theorem evolves_of_execute {x : Action α} {s t : State} {r : Except Error α} (hx : Steady x)
    (h : x.execute s = (r, t)) : s.Evolves t := Obeys.of_execute hx h

theorem steadily_run {x : Action α} (hx : Steady x) : Steadily x.run := hx

theorem steady_lift {x : StateM State α} (hx : Steadily x) :
    Steady (ExceptT.lift x : Action α) := obeys_lift hx

theorem steady_pure (a : α) : Steady (pure a : Action α) := obeys_pure a

theorem steady_throw (e : Error) : Steady (throw e : Action α) := obeys_throw e

theorem steady_fault (f : Fault) : Steady (fault f : Action α) := obeys_fault f

theorem steady_refuse (r : Refusal) : Steady (refuse r : Action α) := obeys_refuse r

theorem steadyFrom_bind {s : State} {x : Action α} {f : α → Action β} (hx : SteadyFrom s x)
    (hf : ∀ a, Steady (f a)) : SteadyFrom s (x >>= f) := obeysFrom_bind hx hf

theorem steady_bind {x : Action α} {f : α → Action β} (hx : Steady x) (hf : ∀ a, Steady (f a)) :
    Steady (x >>= f) := obeys_bind hx hf

theorem steady_get : Steady (get : Action State) := obeys_get

theorem steady_modify {f : State → State} (h : ∀ s : State, s.Evolves (f s)) :
    Steady (modify f : Action PUnit) := fun s => h s

theorem steady_ofExcept (r : Except Error α) : Steady (ofExcept r) := obeys_ofExcept r

theorem steady_look (f : Look α) : Steady (look f) := obeys_look f

theorem steady_make (c : Cell) : Steady (make c) := fun s => s.evolves_alloc c

theorem steady_cell (a : Address) : Steady (cell a) := obeys_cell a

theorem steady_serial : Steady serial := obeys_serial

theorem steady_lookup (name : String) : Steady (lookup name) := obeys_lookup name

/-! ## Reading and then writing

An action that has only looked around is still in the state that it started from, so what it has
read is what it may write to. -/

theorem steady_get_bind {f : State → Action β} (hf : ∀ s, SteadyFrom s (f s)) :
    Steady (get >>= f : Action β) := obeys_get_bind hf

theorem steadyFrom_get_bind {s : State} {f : State → Action β} (hf : SteadyFrom s (f s)) :
    SteadyFrom s (get >>= f : Action β) := hf

/-- A cell that has been made is read without a change. -/
theorem steady_cell_bind {a : Address} {f : Cell → Action β}
    (hf : ∀ (c : Cell) (s : State), s.store.cell? a = some c → SteadyFrom s (f c)) :
    Steady (cell a >>= f) := obeys_cell_bind hf

/-- A cell can be written with what it can become. -/
theorem steadyFrom_write {s : State} {a : Address} {c d : Cell}
    (hc : s.store.cell? a = some c) (hcd : c.Becomes d) : SteadyFrom s (write a d) := by
  unfold SteadyFrom
  rw [execute_write]
  exact State.evolves_write hc hcd

/-! ## Loops -/

theorem steady_mapM {f : α → Action β} (hf : ∀ a, Steady (f a)) (xs : List α) :
    Steady (xs.mapM f) := obeys_mapM hf xs

theorem steady_foldlM {f : β → α → Action β} (hf : ∀ b a, Steady (f b a)) (xs : List α) (b : β) :
    Steady (xs.foldlM f b) := obeys_foldlM hf xs b

attribute [grind ←] steadily_run steady_lift steady_pure steady_throw steady_fault steady_refuse
  steady_bind steady_get steady_ofExcept steady_look steady_make steady_cell steady_serial
  steady_lookup steady_mapM steady_foldlM

/-- A way of calling under which every call is steady. -/
abbrev SteadyCaller (caller : Caller) : Prop :=
  ∀ (f : Value) (args : List Value), Steady (caller f args)

end Action

end Recordset
