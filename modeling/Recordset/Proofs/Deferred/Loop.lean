import Mathlib.Logic.Relation
import Recordset.Proofs.Deferred.Sharing
set_option autoImplicit false

/-!
# Tasks that wait for one builder

An event loop runs tasks that wait for one builder, one at a time.  A task that runs starts the
execution of the builder when there is none, and then waits behind a shield for it to settle: what
cancels the task does not reach the execution.  Between any two turns of the loop, tasks may be
added or cancelled, and other parts of the program may do whatever leaves the builder as it is.

The program itself has the loop go through with a task at once.  `run_await` and `run_cancel` say
which run of the loop that is.
-/

namespace Recordset

/-- A task that waits for a builder. -/
inductive Awaiter where
  /-- it has not run yet -/
  | scheduled
  /-- it has run, and waits for the execution to settle -/
  | waiting
  | cancelled
  | ended (o : Outcome)

namespace Awaiter

/-- A task that has asked for the execution: it ends at once when that has settled already, or can
not be had. -/
def after : Except Error Execution → Awaiter
  | .ok (.settled o) => ended o
  | .ok (.pending _ _) => waiting
  | .error e => ended (.error e)

/-- A task that someone cancels; one that has ended stays as it is. -/
def cancel : Awaiter → Awaiter
  | ended o => ended o
  | _ => cancelled

end Awaiter

/-- An event loop with the tasks that wait for one builder. -/
structure EventLoop where
  state : State
  awaiters : List Awaiter := []
  /-- the states in which tasks have asked for the execution, the first one first -/
  entries : List State := []

namespace EventLoop

open Builder

/-- Whoever asks for the execution while there is none has the executor give a value, such as one
that can be waited for. -/
def Gives (caller : Caller) (a : Address) (s : State) : Prop :=
  ∀ b, s.store.cell? a = some (.builder b) → b.execution = none →
    ∃ v t, (ask caller b).execute s = (.ok v, t)

/-- A turn that the loop takes by itself. -/
inductive Turn (caller : Caller) (a : Address) : EventLoop → EventLoop → Prop where
  /-- a task runs, and asks for the execution -/
  | enter {l : EventLoop} {i : Nat} {r : Except Error Execution} {t : State}
    (htask : l.awaiters[i]? = some .scheduled) (hgives : Gives caller a l.state)
    (hrun : (ensureStarted caller a).execute l.state = (r, t)) :
    Turn caller a l ⟨t, l.awaiters.set i (.after r), l.entries ++ [l.state]⟩
  /-- the execution settles -/
  | settle {l : EventLoop} {b : Builder} {turns : Nat} {o : Outcome}
    (hcell : l.state.store.cell? a = some (.builder b))
    (hpending : b.execution = some (.pending turns o)) :
    Turn caller a l { l with state := ((keep a (.settled o)).execute l.state).2 }
  /-- a task that waits is told how the execution has settled -/
  | wake {l : EventLoop} {i : Nat} {o : Outcome} (htask : l.awaiters[i]? = some .waiting)
    (hended : Ended a o l.state) :
    Turn caller a l { l with awaiters := l.awaiters.set i (.ended o) }

/-- What may happen next. -/
inductive Step (caller : Caller) (a : Address) : EventLoop → EventLoop → Prop where
  | turn {l m : EventLoop} (h : Turn caller a l m) : Step caller a l m
  /-- another task is to wait for the builder -/
  | arrive (l : EventLoop) :
    Step caller a l { l with awaiters := l.awaiters ++ [.scheduled] }
  /-- someone cancels a task -/
  | cancel {l : EventLoop} {i : Nat} {w : Awaiter} (htask : l.awaiters[i]? = some w) :
    Step caller a l { l with awaiters := l.awaiters.set i w.cancel }
  /-- another part of the program runs -/
  | elsewhere {l : EventLoop} {t : State} (h : t.store.cell? a = l.state.store.cell? a) :
    Step caller a l { l with state := t }

/-- What happens in any number of steps. -/
def Run (caller : Caller) (a : Address) : EventLoop → EventLoop → Prop :=
  Relation.ReflTransGen (Step caller a)

/-- Whatever turns the loop takes, it comes to where something is so. -/
inductive Inevitably (caller : Caller) (a : Address) (P : EventLoop → Prop) : EventLoop → Prop where
  | now {l : EventLoop} (h : P l) : Inevitably caller a P l
  | later {l : EventLoop} (hmore : ∃ m, Turn caller a l m)
    (hall : ∀ m, Turn caller a l m → Inevitably caller a P m) : Inevitably caller a P l

variable {caller : Caller} {a : Address} {l : EventLoop}

/-! ## Going through with one task -/

/-- A task that asks for the execution has it. -/
theorem execute_ensureStarted_of_gives {b : Builder} (hcaller : Action.SteadyCaller caller)
    (hcell : l.state.store.cell? a = some (.builder b)) (hgives : Gives caller a l.state) :
    ∃ e t, (ensureStarted caller a).execute l.state = (.ok e, t) ∧
      t.store.cell? a = some (.builder { b with execution := some e }) := by
  cases hexecution : b.execution with
  | some e =>
    refine ⟨e, l.state, execute_ensureStarted_of_some caller hcell hexecution, ?_⟩
    rw [← hexecution]
    exact hcell
  | none =>
    obtain ⟨v, t, hask⟩ := hgives b hcell hexecution
    obtain ⟨line, hsummary⟩ := summary_of_ask hask
    have hstart : (start caller (follow caller) b).execute l.state = _ :=
      execute_start hsummary l.state
    rw [hask] at hstart
    obtain ⟨e, u, hgiven⟩ := exists_execute_executionOf (follow caller) v t
    obtain ⟨w, hensure, hkept, -⟩ :=
      execute_ensureStarted_of_start hcaller hcell hexecution (hstart.trans hgiven)
    exact ⟨e, w, hensure, hkept⟩

/-- The last of some tasks is the one that changes. -/
theorem set_last (ws : List Awaiter) (w w' : Awaiter) :
    (ws ++ [w]).set ws.length w' = ws ++ [w'] := by simp

/-- One more task runs. -/
theorem run_enter {r : Except Error Execution} {t : State} (hgives : Gives caller a l.state)
    (hrun : (ensureStarted caller a).execute l.state = (r, t)) :
    Run caller a l ⟨t, l.awaiters ++ [.after r], l.entries ++ [l.state]⟩ := by
  have harrive : Run caller a l { l with awaiters := l.awaiters ++ [.scheduled] } :=
    .single (.arrive l)
  have htask : (l.awaiters ++ [.scheduled])[l.awaiters.length]? = some .scheduled := by simp
  have henter := harrive.tail (.turn (.enter htask hgives hrun))
  rw [set_last] at henter
  exact henter

/-- To wait for a builder is to add a task and let the loop go through with it. -/
theorem run_await {b : Builder} (hcaller : Action.SteadyCaller caller)
    (hcell : l.state.store.cell? a = some (.builder b)) (hgives : Gives caller a l.state) :
    Run caller a l ⟨((await caller a).execute l.state).2,
      l.awaiters ++ [.ended ((await caller a).execute l.state).1], l.entries ++ [l.state]⟩ := by
  obtain ⟨e, t, hensure, hc⟩ := execute_ensureStarted_of_gives hcaller hcell hgives
  have henter := run_enter hgives hensure
  rw [execute_await_of_ensureStarted hensure hc]
  cases e with
  | settled o =>
    have hkeep : (keep a (Execution.settled o).settle).execute t = (.ok ⟨⟩, t) :=
      execute_keep_of_some hc rfl
    rw [hkeep]
    exact henter
  | pending turns o =>
    have hsettle := henter.tail (.turn (.settle hc rfl))
    have hended : Ended a o ((keep a (.settled o)).execute t).2 := by
      rw [execute_keep _ hc]
      exact ⟨_, Store.cell?_write_of_cell? hc, rfl⟩
    have htask : (l.awaiters ++ [.waiting])[l.awaiters.length]? = some .waiting := by simp
    have hwake := hsettle.tail (.turn (.wake htask hended))
    rw [set_last] at hwake
    exact hwake

/-- To give up waiting for a builder is to add a task, have it cancelled once it has run, and let
the execution settle. -/
theorem run_cancel {b : Builder} (hcaller : Action.SteadyCaller caller)
    (hcell : l.state.store.cell? a = some (.builder b)) (hgives : Gives caller a l.state) :
    ∃ w, Run caller a l ⟨((Builder.cancel caller a).execute l.state).2,
        l.awaiters ++ [w], l.entries ++ [l.state]⟩ ∧
      (w = .cancelled ∧ ((Builder.cancel caller a).execute l.state).1 = .error .cancelled ∨
        w = .ended ((Builder.cancel caller a).execute l.state).1) := by
  obtain ⟨e, t, hensure, hc⟩ := execute_ensureStarted_of_gives hcaller hcell hgives
  have henter := run_enter hgives hensure
  rw [execute_cancel_of_ensureStarted hensure hc]
  cases e with
  | settled o =>
    have hkeep : (keep a (Execution.settled o).settle).execute t = (.ok ⟨⟩, t) :=
      execute_keep_of_some hc rfl
    rw [hkeep]
    exact ⟨_, henter, .inr rfl⟩
  | pending turns o =>
    have htask : (l.awaiters ++ [.waiting])[l.awaiters.length]? = some .waiting := by simp
    have hcancel := henter.tail (.cancel htask)
    rw [set_last] at hcancel
    exact ⟨_, hcancel.tail (.turn (.settle hc rfl)), .inl ⟨rfl, rfl⟩⟩

end EventLoop

end Recordset
