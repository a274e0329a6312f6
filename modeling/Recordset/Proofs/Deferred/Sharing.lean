import Mathlib.Tactic.SplitIfs
import Recordset.Proofs.Steady.Session
set_option autoImplicit false

/-!
# Sharing one execution

Everyone who waits for a builder gets what the first one got, and the executor is not called again,
exactly when the call of the executor ends in a result that is kept: a value, work, another builder,
or an error that can be written and neither ends the program or the work at hand nor announces the
end of an iteration.

`Builder.outcomes_eq_replicate_iff` is the main statement.  That the executor is not called again
shows in it as this: whoever waits later may bring another way of calling, and gets the same.
-/

namespace Recordset

namespace Store

/-- Writing what a cell has anyway changes nothing. -/
theorem write_of_cell? {s : Store} {a : Address} {c : Cell} (h : s.cell? a = some c) :
    s.write a c = s := by
  obtain ⟨hlt, hc⟩ := Array.getElem?_eq_some_iff.mp h
  have hcells : s.cells.setIfInBounds a.index c = s.cells := by
    rw [← hc, Array.setIfInBounds_def, dif_pos hlt, Array.set_getElem_self]
  unfold write
  rw [hcells]

/-- A cell that has been made has what is written to it. -/
theorem cell?_write_of_cell? {s : Store} {a : Address} {c d : Cell} (h : s.cell? a = some d) :
    (s.write a c).cell? a = some c :=
  cell?_write_of_lt c (Array.getElem?_eq_some_iff.mp h).1

/-- An observer does not see whether the execution of a builder has started. -/
theorem observeAt_write_builder {s : Store} {a : Address} {b : Builder}
    (h : s.cell? a = some (.builder b)) (e : Option Execution) (fuel : Nat) :
    (s.write a (.builder { b with execution := e })).observeAt fuel = s.observeAt fuel := by
  induction fuel with
  | zero => rfl
  | succ fuel ih =>
    funext v
    cases v with
    | ref x =>
      unfold observeAt
      dsimp only
      by_cases hx : x = a
      · subst hx
        rw [h, cell?_write_of_cell? h, ih]
      · have hitems : ∀ c, (s.write a (.builder { b with execution := e })).items c =
            s.items c := by
          intro c
          unfold items
          by_cases hlist : c.list = a
          · rw [hlist, h, cell?_write_of_cell? h]
          · rw [cell?_write_of_ne _ hlist]
        simp only [cell?_write_of_ne _ hx, ih, hitems]
    | _ => rfl

theorem observe_write_builder {s : Store} {a : Address} {b : Builder}
    (h : s.cell? a = some (.builder b)) (e : Option Execution) :
    (s.write a (.builder { b with execution := e })).observe = s.observe := by
  have hsize : (s.write a (.builder { b with execution := e })).size = s.size :=
    Array.size_setIfInBounds
  funext v
  unfold observe depth
  rw [hsize, observeAt_write_builder h]

end Store

namespace Builder

/-! ## Histories -/

/-- The two ways to wait for a builder. -/
inductive Waiting where
  | await
  | run
  deriving DecidableEq, Repr

/-- Waits for the builder in a cell. -/
def Waiting.perform (caller : Caller) (a : Address) : Waiting → Action Value
  | await => invoke caller (.ref a) "await" {}
  | run => Invoke.onCell caller a "run" {}

/-- What those get who wait for a builder one after another: a value, or an error. -/
def outcomes (caller : Caller) (a : Address) (waits : List Waiting) : Action (List Outcome) :=
  waits.mapM fun w => ExceptT.lift (w.perform caller a).run

/-- Both ways to wait for a builder are the same. -/
theorem execute_perform {a : Address} {s : State} {b : Builder} (caller : Caller)
    (hcell : s.store.cell? a = some (.builder b)) (w : Waiting) :
    (w.perform caller a).execute s = (await caller a).execute s := by
  cases w with
  | await =>
    show (Invoke.onValue caller (.ref a) "await" {}).execute s = _
    unfold Invoke.onValue
    rw [Action.execute_get_bind]
    have hview : s.store.view (.ref a) = some (.builder b) := hcell
    simp only [hview]
  | run =>
    show (Invoke.onCell caller a "run" {}).execute s = _
    unfold Invoke.onCell
    rw [Action.execute_bind_of_ok (Action.execute_cell hcell)]
    show (Invoke.onBuilder caller a b "run" {}).execute s = _
    unfold Invoke.onBuilder
    rfl

/-- If waiting gives something and changes nothing, it gives the same however often it is done. -/
theorem outcomes_of_perform {caller : Caller} {a : Address} {s : State} {o : Outcome}
    (hsame : ∀ w : Waiting, (w.perform caller a).execute s = (o, s)) (waits : List Waiting) :
    (outcomes caller a waits).execute s = (.ok (List.replicate waits.length o), s) := by
  unfold outcomes
  induction waits with
  | nil => rfl
  | cons w waits ih =>
    have hfirst : Action.execute (ExceptT.lift (w.perform caller a).run) s = (.ok o, s) := by
      rw [Action.execute_lift, hsame w]
    rw [List.mapM_cons, Action.execute_bind_of_ok hfirst, Action.execute_bind_of_ok ih]
    rfl

theorem outcomes_singleton (caller : Caller) (a : Address) (w : Waiting) (s : State) :
    (outcomes caller a [w]).execute s =
      (.ok [((w.perform caller a).execute s).1], ((w.perform caller a).execute s).2) := by
  unfold outcomes
  rw [List.mapM_cons, Action.execute_bind_of_ok (Action.execute_lift _ s)]
  rfl

/-! ## What the executor gives -/

/-- Calls the executor of a builder with what it is told, unless the record can not be shown. -/
def ask (caller : Caller) (b : Builder) : Action Value := do
  let _ ← Action.ofExcept b.summary
  caller b.executor [← b.context]

/-- A result of an executor that is kept as the outcome of an execution. -/
def IsKept : Except Error Value → Prop
  | .ok _ => True
  | .error e => e.isFinal = false ∧ e.unwritten? = none ∧ e.endsIteration = false

theorem isKept_error_iff {e : Error} : IsKept (.error e) ↔ Execution.unkept? e = none := by
  unfold Execution.unkept?
  cases hfinal : e.isFinal with
  | true => simp [IsKept, hfinal]
  | false => cases hunwritten : e.unwritten? <;> simp [IsKept, hfinal, hunwritten]

/-- An operation without a text for a name is refused for a fault. -/
theorem isKept_of_nameText {o : Operation} {e : Error} (h : o.nameText = .error e) :
    IsKept (.error e) := by
  have hfault : e = .fault .index ∨ e = .fault .type := by
    unfold Operation.nameText Operation.name at h
    cases hparts : o.parts with
    | nil =>
      rw [hparts] at h
      exact .inl (Except.error.inj h).symm
    | cons v vs =>
      rw [hparts] at h
      cases v <;> cases h <;> exact .inr rfl
  rcases hfault with rfl | rfl <;> exact ⟨rfl, rfl, rfl⟩

/-- A record that can not be shown is refused for one of its operations. -/
theorem isKept_of_mapM_nameText {e : Error} (operations : List Operation)
    (h : operations.mapM Operation.nameText = .error e) : IsKept (.error e) := by
  induction operations with
  | nil => cases h
  | cons o operations ih =>
    rw [List.mapM_cons] at h
    cases hname : o.nameText with
    | error e' =>
      rw [hname] at h
      cases h
      exact isKept_of_nameText hname
    | ok name =>
      rw [hname] at h
      cases hrest : operations.mapM Operation.nameText with
      | error e' =>
        rw [hrest] at h
        cases h
        exact ih hrest
      | ok names =>
        rw [hrest] at h
        cases h

theorem isKept_of_summary {b : Builder} {e : Error} (h : b.summary = .error e) :
    IsKept (.error e) := by
  unfold summary at h
  split_ifs at h with hempty
  · cases h
  · cases hshown : b.operations.mapM Operation.nameText with
    | error e' =>
      unfold Store.operationsShown at h
      rw [hshown] at h
      cases h
      exact isKept_of_mapM_nameText _ hshown
    | ok names =>
      unfold Store.operationsShown at h
      rw [hshown] at h
      cases h

/-- A builder with a record that can not be shown is refused before its executor is called. -/
theorem execute_ask_of_summary {caller : Caller} {b : Builder} {e : Error}
    (h : b.summary = .error e) (s : State) : (ask caller b).execute s = (.error e, s) := by
  unfold ask
  rw [h]
  rfl

/-- A builder whose executor gives a value has a record that can be shown. -/
theorem summary_of_ask {caller : Caller} {b : Builder} {s t : State} {v : Value}
    (h : (ask caller b).execute s = (.ok v, t)) : ∃ line, b.summary = .ok line := by
  cases hsummary : b.summary with
  | ok line => exact ⟨line, rfl⟩
  | error e =>
    rw [execute_ask_of_summary hsummary] at h
    cases h

/-- What an executor is told can always be made. -/
theorem exists_execute_context (b : Builder) (s : State) :
    ∃ c t, b.context.execute s = (.ok c, t) := ⟨_, _, rfl⟩

/-- To ask an executor is to call it with what it is told. -/
theorem execute_ask_of_context {b : Builder} {s t : State} {line : String} {c : Value}
    (caller : Caller) (hsummary : b.summary = .ok line)
    (hcontext : b.context.execute s = (.ok c, t)) :
    (ask caller b).execute s = (caller b.executor [c]).execute t := by
  unfold ask
  rw [hsummary, Action.execute_bind_of_ok (Action.execute_ofExcept _ s),
    Action.execute_bind_of_ok hcontext]

/-! ## Starting an execution -/

/-- The builder in a cell has an execution that has ended. -/
def Ended (a : Address) (o : Outcome) (s : State) : Prop :=
  ∃ b, s.store.cell? a = some (.builder b) ∧ b.execution = some (.settled o)

theorem execute_read {a : Address} {s : State} {b : Builder}
    (h : s.store.cell? a = some (.builder b)) : (read a).execute s = (.ok b, s) := by
  unfold read
  rw [Action.execute_bind_of_ok (Action.execute_cell h)]
  rfl

/-- What is read is the builder in the cell. -/
theorem execute_read_ok {a : Address} {s t : State} {b : Builder}
    (h : (read a).execute s = (.ok b, t)) : s.store.cell? a = some (.builder b) := by
  unfold read at h
  obtain ⟨c, u, hcell, hread⟩ := Action.execute_bind_ok h
  obtain ⟨hc, -⟩ := Action.execute_cell_ok hcell
  cases c <;> cases hread
  exact hc

/-- Keeping an execution writes it to the builder. -/
theorem execute_keep {a : Address} {s : State} {b : Builder} (e : Execution)
    (h : s.store.cell? a = some (.builder b)) :
    (keep a e).execute s =
      (.ok ⟨⟩, { s with store := s.store.write a (.builder { b with execution := some e }) }) := by
  unfold keep
  rw [Action.execute_bind_of_ok (execute_read h)]
  rfl

/-- The execution that an executor has come to, however it has ended. -/
def given (follow : Address → Action Execution) : Except Error Value → Action Execution
  | .ok v => executionOf follow v
  | .error e =>
    match Execution.unkept? e with
    | some failure => throw failure
    | none => pure (.settled (.error e))

/-- Starting an execution starts from how the call of the executor ends. -/
theorem execute_start_of_context {follow : Address → Action Execution} {b : Builder} {s t : State}
    {line : String} {c : Value} (caller : Caller) (hsummary : b.summary = .ok line)
    (hcontext : b.context.execute s = (.ok c, t)) :
    (start caller follow b).execute s =
      (given follow ((caller b.executor [c]).execute t).1).execute
        ((caller b.executor [c]).execute t).2 := by
  unfold start
  rw [hsummary, Action.execute_bind_of_ok (Action.execute_ofExcept _ s),
    Action.execute_bind_of_ok hcontext, Action.execute_bind, Action.execute_lift]
  cases hcall : (caller b.executor [c]).execute t with
  | mk r u => cases r <;> rfl

/-- Starting an execution starts from what the executor gives. -/
theorem execute_start {caller : Caller} {follow : Address → Action Execution} {b : Builder}
    {line : String} (h : b.summary = .ok line) (s : State) :
    (start caller follow b).execute s =
      match (ask caller b).execute s with
      | (.ok v, t) => (executionOf follow v).execute t
      | (.error e, t) =>
        match Execution.unkept? e with
        | some failure => (.error failure, t)
        | none => (.ok (.settled (.error e)), t) := by
  obtain ⟨c, t, hcontext⟩ := exists_execute_context b s
  rw [execute_start_of_context caller h hcontext, execute_ask_of_context caller h hcontext]
  cases hcall : (caller b.executor [c]).execute t with
  | mk r u =>
    cases r with
    | ok v => rfl
    | error e =>
      simp only [given]
      cases Execution.unkept? e <;> rfl

/-- What an executor gives always stands for an execution. -/
theorem exists_execute_executionOf (follow : Address → Action Execution) (v : Value) (s : State) :
    ∃ e t, (executionOf follow v).execute s = (.ok e, t) := by
  unfold executionOf
  rw [Action.execute_get_bind]
  split
  · exact ⟨_, _, rfl⟩
  · rw [Action.execute_bind, Action.execute_lift]
    exact ⟨_, _, rfl⟩
  · exact ⟨_, _, rfl⟩

/-! ## Waiting -/

/-- Follows a builder that an executor has given. -/
def follow (caller : Caller) : Address → Action Execution :=
  ensureStartedAt caller (chainLength - 1)

theorem steady_follow {caller : Caller} (hcaller : Action.SteadyCaller caller) (a : Address) :
    Action.Steady (follow caller a) := steady_ensureStartedAt hcaller _ a

theorem ensureStarted_eq (caller : Caller) (a : Address) :
    ensureStarted caller a = (do
      let b ← read a
      match b.execution with
      | some e => return e
      | none => do
        let e ← start caller (follow caller) b
        keep a e
        return e) := rfl

/-- An execution that has been started is not started again. -/
theorem execute_ensureStarted_of_some {a : Address} {b : Builder} {s : State} {e : Execution}
    (caller : Caller) (hcell : s.store.cell? a = some (.builder b))
    (hexecution : b.execution = some e) : (ensureStarted caller a).execute s = (.ok e, s) := by
  rw [ensureStarted_eq, Action.execute_bind_of_ok (execute_read hcell), hexecution]
  rfl

/-- An execution that starts is kept, which no observer sees. -/
theorem execute_ensureStarted_of_start {caller : Caller} {a : Address} {b : Builder} {s t : State}
    {e : Execution} (hcaller : Action.SteadyCaller caller)
    (hcell : s.store.cell? a = some (.builder b)) (hnew : b.execution = none)
    (hstart : (start caller (follow caller) b).execute s = (.ok e, t)) :
    ∃ u, (ensureStarted caller a).execute s = (.ok e, u) ∧
      u.store.cell? a = some (.builder { b with execution := some e }) ∧
      u.store.observe = t.store.observe := by
  have hevolves : s.Evolves t :=
    Action.evolves_of_execute (steady_start hcaller (steady_follow hcaller) b) hstart
  obtain ⟨x, hc⟩ := hevolves.builder hcell
  refine ⟨{ t with store := t.store.write a (.builder { b with execution := some e }) }, ?_,
    Store.cell?_write_of_cell? hc, Store.observe_write_builder hc (some e)⟩
  rw [ensureStarted_eq, Action.execute_bind_of_ok (execute_read hcell), hnew]
  simp only
  rw [Action.execute_bind_of_ok hstart, Action.execute_bind_of_ok (execute_keep e hc)]
  rfl

/-- Keeping the execution that a builder has changes nothing. -/
theorem execute_keep_of_some {a : Address} {s : State} {b : Builder} {e : Execution}
    (hcell : s.store.cell? a = some (.builder b)) (hexecution : b.execution = some e) :
    (keep a e).execute s = (.ok ⟨⟩, s) := by
  have hsame : { b with execution := some e } = b := by rw [← hexecution]
  rw [execute_keep _ hcell, hsame, Store.write_of_cell? hcell]

/-- Waiting for a builder that has an execution gives its outcome, and keeps it. -/
theorem execute_await_of_ensureStarted {caller : Caller} {a : Address} {b : Builder} {s u : State}
    {e : Execution} (hensure : (ensureStarted caller a).execute s = (.ok e, u))
    (hcell : u.store.cell? a = some (.builder b)) :
    (await caller a).execute s = (e.outcome, ((keep a e.settle).execute u).2) := by
  have hsettle : (settle caller a).execute s =
      (.ok e.outcome, ((keep a e.settle).execute u).2) := by
    unfold settle
    rw [Action.execute_bind_of_ok hensure, execute_keep _ hcell,
      Action.execute_bind_of_ok (execute_keep e.settle hcell)]
    rfl
  unfold await
  rw [Action.execute_bind_of_ok hsettle, Action.execute_ofExcept]

/-- Giving up waiting for a builder that has an execution gives its outcome when that is there, and
keeps it in any case. -/
theorem execute_cancel_of_ensureStarted {caller : Caller} {a : Address} {b : Builder}
    {s u : State} {e : Execution} (hensure : (ensureStarted caller a).execute s = (.ok e, u))
    (hcell : u.store.cell? a = some (.builder b)) :
    (cancel caller a).execute s = (if e.isSettled then e.outcome else .error .cancelled,
      ((keep a e.settle).execute u).2) := by
  unfold cancel
  rw [Action.execute_bind_of_ok hensure, execute_keep _ hcell,
    Action.execute_bind_of_ok (execute_keep e.settle hcell)]
  cases e with
  | pending turns o => rfl
  | settled o => exact Action.execute_ofExcept o _

/-- Waiting for a builder whose execution has ended gives its outcome, and calls and changes
nothing. -/
theorem execute_await_of_ended {a : Address} {o : Outcome} {s : State} (caller : Caller)
    (h : Ended a o s) : (await caller a).execute s = (o, s) := by
  obtain ⟨b, hcell, hexecution⟩ := h
  have hensure := execute_ensureStarted_of_some caller hcell hexecution
  have hkeep : (keep a (Execution.settled o).settle).execute s = (.ok ⟨⟩, s) :=
    execute_keep_of_some hcell hexecution
  rw [execute_await_of_ensureStarted hensure hcell, hkeep]
  rfl

/-- Waiting for a builder whose execution starts keeps how that ends, which no observer sees. -/
theorem ended_of_start {caller : Caller} {a : Address} {b : Builder} {s t : State} {e : Execution}
    (hcaller : Action.SteadyCaller caller) (hcell : s.store.cell? a = some (.builder b))
    (hnew : b.execution = none)
    (hstart : (start caller (follow caller) b).execute s = (.ok e, t)) :
    ∃ u, (await caller a).execute s = (e.outcome, u) ∧ Ended a e.outcome u ∧
      u.store.observe = t.store.observe := by
  obtain ⟨u, hensure, hc, hseen⟩ := execute_ensureStarted_of_start hcaller hcell hnew hstart
  refine ⟨_, execute_await_of_ensureStarted hensure hc,
    ⟨{ b with execution := some e.settle }, ?_, rfl⟩, ?_⟩
  · rw [execute_keep _ hc]
    exact Store.cell?_write_of_cell? hc
  · rw [execute_keep _ hc]
    exact (Store.observe_write_builder hc (some e.settle)).trans hseen

/-- Waiting for a builder whose execution fails to start fails with it. -/
theorem execute_await_of_start_error {caller : Caller} {a : Address} {b : Builder} {s t : State}
    {e : Error} (hcell : s.store.cell? a = some (.builder b)) (hnew : b.execution = none)
    (hstart : (start caller (follow caller) b).execute s = (.error e, t)) :
    (await caller a).execute s = (.error e, t) := by
  have hensure : (ensureStarted caller a).execute s = (.error e, t) := by
    rw [ensureStarted_eq, Action.execute_bind_of_ok (execute_read hcell), hnew]
    exact Action.execute_bind_of_error hstart
  unfold await settle
  exact Action.execute_bind_of_error (Action.execute_bind_of_error hensure)

/-- Waiting for a builder whose record can not be shown fails without any call. -/
theorem execute_await_of_summary {a : Address} {b : Builder} {s : State} {e : Error}
    (caller : Caller) (hcell : s.store.cell? a = some (.builder b)) (hnew : b.execution = none)
    (hsummary : b.summary = .error e) : (await caller a).execute s = (.error e, s) := by
  refine execute_await_of_start_error hcell hnew ?_
  unfold start
  rw [hsummary]
  rfl

/-- A kept result of the executor is the outcome of the execution from then on. -/
theorem ended_of_isKept {caller : Caller} {a : Address} {b : Builder} {s u : State}
    {r : Except Error Value} {line : String} (hcaller : Action.SteadyCaller caller)
    (hcell : s.store.cell? a = some (.builder b)) (hnew : b.execution = none)
    (hsummary : b.summary = .ok line) (hask : (ask caller b).execute s = (r, u))
    (hkept : IsKept r) : ∃ o t, (await caller a).execute s = (o, t) ∧ Ended a o t := by
  have hstart : (start caller (follow caller) b).execute s = _ := execute_start hsummary s
  rw [hask] at hstart
  cases r with
  | ok v =>
    obtain ⟨e, t, hexecution⟩ := exists_execute_executionOf (follow caller) v u
    obtain ⟨t', hawait, hended, -⟩ :=
      ended_of_start hcaller hcell hnew (hstart.trans hexecution)
    exact ⟨_, t', hawait, hended⟩
  | error e =>
    simp only [isKept_error_iff.mp hkept] at hstart
    obtain ⟨t', hawait, hended, -⟩ := ended_of_start hcaller hcell hnew hstart
    exact ⟨_, t', hawait, hended⟩

/-- An error that is not kept ends the wait, and leaves what the executor left. -/
theorem await_error_of_not_isKept {caller : Caller} {a : Address} {b : Builder} {s u : State}
    {r : Except Error Value} {line : String} (hcell : s.store.cell? a = some (.builder b))
    (hnew : b.execution = none) (hsummary : b.summary = .ok line)
    (hask : (ask caller b).execute s = (r, u)) (hlost : ¬ IsKept r) :
    ∃ e, (await caller a).execute s = (.error e, u) := by
  have hstart : (start caller (follow caller) b).execute s = _ := execute_start hsummary s
  rw [hask] at hstart
  cases r with
  | ok v => exact absurd trivial hlost
  | error e =>
    obtain ⟨failure, hfailure⟩ :=
      Option.ne_none_iff_exists'.mp fun hnone => hlost (isKept_error_iff.mpr hnone)
    simp only [hfailure] at hstart
    exact ⟨failure, execute_await_of_start_error hcell hnew hstart⟩

/-- Answers every call with null. -/
def answerNull : Caller := fun _ _ => pure .null

/-- A builder without an execution has its executor called by whoever waits for it. -/
theorem execute_await_answerNull {a : Address} {b : Builder} {s : State} {line : String}
    (hcell : s.store.cell? a = some (.builder b)) (hnew : b.execution = none)
    (hsummary : b.summary = .ok line) :
    ∃ t, (await answerNull a).execute s = (.ok .null, t) := by
  have hanswers : Action.SteadyCaller answerNull := fun _ _ => Action.steady_pure _
  obtain ⟨c, t, hcontext⟩ := exists_execute_context b s
  have hask : (ask answerNull b).execute s = (.ok .null, t) :=
    execute_ask_of_context answerNull hsummary hcontext
  have hstart : (start answerNull (follow answerNull) b).execute s = _ :=
    execute_start hsummary s
  rw [hask] at hstart
  obtain ⟨u, hawait, -⟩ :=
    ended_of_start (e := .settled (.ok .null)) hanswers hcell hnew hstart
  exact ⟨u, hawait⟩

/-! ## Main statement -/

/-- Whoever waits for a builder first gets an outcome.  All who wait later, by any of the two ways
and however many they are, get the same and have nothing called, exactly when the executor gave a
result that is kept. -/
theorem outcomes_eq_replicate_iff {caller : Caller} {a : Address} {b : Builder} {s t u : State}
    {r : Except Error Value} {o : Outcome} {w : Waiting} (hcaller : Action.SteadyCaller caller)
    (hcell : s.store.cell? a = some (.builder b)) (hnew : b.execution = none)
    (hask : (ask caller b).execute s = (r, u))
    (halone : ¬ IsKept r → u.store.cell? a = some (.builder b))
    (hfirst : (w.perform caller a).execute s = (o, t)) :
    (∀ (later : Caller) (waits : List Waiting),
      (outcomes later a waits).execute t = (.ok (List.replicate waits.length o), t)) ↔
        IsKept r := by
  rw [execute_perform caller hcell] at hfirst
  cases hsummary : b.summary with
  | error e =>
    -- the record can not be shown: nothing is called, neither now nor later
    rw [execute_ask_of_summary hsummary] at hask
    rw [execute_await_of_summary caller hcell hnew hsummary] at hfirst
    cases hask
    cases hfirst
    refine iff_of_true (fun later waits => ?_) (isKept_of_summary hsummary)
    refine outcomes_of_perform (fun w => ?_) waits
    rw [execute_perform later hcell, execute_await_of_summary later hcell hnew hsummary]
  | ok line =>
    by_cases hkept : IsKept r
    · obtain ⟨o', t', hawait, hended⟩ := ended_of_isKept hcaller hcell hnew hsummary hask hkept
      rw [hfirst] at hawait
      cases hawait
      refine iff_of_true (fun later waits => ?_) hkept
      refine outcomes_of_perform (fun w => ?_) waits
      obtain ⟨b', hcell', -⟩ := id hended
      rw [execute_perform later hcell', execute_await_of_ended later hended]
    · -- the builder is as new, and someone who brings an executor with an answer gets that answer
      refine iff_of_false (fun hall => ?_) hkept
      obtain ⟨e, hawait⟩ := await_error_of_not_isKept hcell hnew hsummary hask hkept
      rw [hfirst] at hawait
      cases hawait
      obtain ⟨t', hnull⟩ := execute_await_answerNull (halone hkept) hnew hsummary
      have hone := hall answerNull [.await]
      rw [outcomes_singleton, execute_perform answerNull (halone hkept), hnull] at hone
      cases hone

/-- A query that prints the items of a list and ends the program. -/
def exitBuilder : Builder where
  executor := .ref ⟨3⟩
  validators := .null
  operations := [⟨[.str "dd"], .ref ⟨4⟩⟩]
  shown := .ref ⟨5⟩

/-- The query over some executor, with a list that has one item. -/
def exitState (executor : Executor) : State where
  store := { cells := State.initial.store.cells ++ #[
    .list [.int 1],
    .executor executor,
    .tuple [.str "dd"],
    .tuple [.ref ⟨4⟩],
    .builder exitBuilder] }

/-- An executor that fails. -/
def failing : Executor := .recorder (.fail "ValueError" "backend down") .null []

/-- An ordinary error is kept: all who wait for the query get it, and nothing is called again. -/
theorem outcomes_failing :
    ∃ t, (Waiting.await.perform apply ⟨6⟩).execute (exitState failing) =
        (.error (.raised "ValueError" "backend down"), t) ∧
      ∀ (later : Caller) (waits : List Waiting), (outcomes later ⟨6⟩ waits).execute t =
        (.ok (List.replicate waits.length (.error (.raised "ValueError" "backend down"))), t) := by
  have hcell : (exitState failing).store.cell? ⟨6⟩ = some (.builder exitBuilder) := rfl
  have hask : (ask apply exitBuilder).execute (exitState failing) =
      (.error (.raised "ValueError" "backend down"),
        ((ask apply exitBuilder).execute (exitState failing)).2) := rfl
  have hkept : IsKept (.error (.raised "ValueError" "backend down")) := by
    refine ⟨?_, ?_, rfl⟩ <;> decide +kernel
  have hfirst : (Waiting.await.perform apply ⟨6⟩).execute (exitState failing) =
      (.error (.raised "ValueError" "backend down"),
        ((Waiting.await.perform apply ⟨6⟩).execute (exitState failing)).2) := rfl
  exact ⟨_, hfirst,
    (outcomes_eq_replicate_iff steady_apply hcell rfl hask (absurd hkept) hfirst).mpr hkept⟩

/-- The end of the program is not kept: over an executor that replays it, the query prints its items
again for the second one who waits. -/
theorem printed_exitState :
    ((outcomes apply ⟨6⟩ [.await]).execute
        (exitState (.memory (.ref ⟨2⟩) .null))).2.printed = "[1]\n" ∧
      ((outcomes apply ⟨6⟩ [.await, .run]).execute
        (exitState (.memory (.ref ⟨2⟩) .null))).2.printed = "[1]\n[1]\n" := by
  decide +kernel

end Builder

end Recordset
