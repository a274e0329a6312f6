import Mathlib.Algebra.GroupWithZero.Nat
import Recordset.Proofs.Calls
import Recordset.Proofs.Deferred.Loop
set_option autoImplicit false

/-!
# Cancelling tasks that share one execution

However tasks that wait for a builder are added, cancelled and run, and whenever the execution
settles: the first task that runs has the executor called, once, and no later one has anything
called.  Every task that is not cancelled ends with the one outcome of that execution.

`EventLoop.Run.shared` is the main statement.  It rests on what one step keeps: before the first
task has run nothing has happened to the builder (`Fresh`), and from then on its execution has the
outcome that it started with (`Shares`).
-/

namespace Recordset

namespace Builder

open Recordset.Action

/-! ## The call that starts an execution -/

/-- What is left of starting an execution once the executor has ended. -/
def conclude (a : Address) (r : Except Error Value) (caller : Caller) : Action Execution := do
  let e ← given (follow caller) r
  keep a e
  return e

/-- Once the executor has given a value, nothing is called, except to start a builder that the value
may be. -/
def OnlyFollows (a : Address) (v : Value) (s : State) : Prop :=
  ∀ c d : Caller, (∀ x, v = .ref x → (follow c x).execute s = (follow d x).execute s) →
    (conclude a (.ok v) c).execute s = (conclude a (.ok v) d).execute s

/-- The execution of a builder starts by one call, and has a certain outcome: the executor is called
with what it is told, whatever the way of calling, and what it gives decides the outcome. -/
inductive StartsBy (caller : Caller) (a : Address) (b : Builder) (s : State) :
    FunctionCall → Outcome → Prop where
  | intro {c v : Value} {t u w : State} {e : Execution}
    (hcontext : b.context.execute s = (.ok c, t))
    (hcall : ComesTo (fun d => ensureStarted d a) s ⟨b.executor, [c]⟩ t (conclude a))
    (hgiven : (caller b.executor [c]).execute t = (.ok v, u))
    (honly : OnlyFollows a v u)
    (hconclude : (conclude a (.ok v) caller).execute u = (.ok e, w)) :
    StartsBy caller a b s ⟨b.executor, [c]⟩ e.outcome

/-- Whoever starts the execution of a builder calls its executor first. -/
theorem comesTo_ensureStarted {a : Address} {b : Builder} {s t : State} {line : String} {c : Value}
    (hcell : s.store.cell? a = some (.builder b)) (hnew : b.execution = none)
    (hsummary : b.summary = .ok line) (hcontext : b.context.execute s = (.ok c, t)) :
    ComesTo (fun d => ensureStarted d a) s ⟨b.executor, [c]⟩ t (conclude a) := by
  constructor
  · intro d
    have hstart : (start d (follow d) b).execute s = _ :=
      execute_start_of_context d hsummary hcontext
    rw [ensureStarted_eq, execute_bind_of_ok (execute_read hcell), hnew]
    unfold conclude
    simp only
    rw [execute_bind, hstart, ← execute_bind]
  · intro code d u
    rfl

theorem onlyFollows (a : Address) (v : Value) (s : State) : OnlyFollows a v s := by
  intro c d hfollow
  have hgiven : (given (follow c) (.ok v)).execute s = (given (follow d) (.ok v)).execute s := by
    unfold given executionOf
    simp only [execute_get_bind]
    split
    · rfl
    · rw [execute_bind, execute_bind, execute_lift, execute_lift, hfollow _ rfl]
    · rfl
  unfold conclude
  rw [execute_bind, hgiven, ← execute_bind]

/-- The builder in a cell, if there is one, has an execution. -/
def HasStarted (s : State) (a : Address) : Prop :=
  ∀ b, s.store.cell? a = some (.builder b) → b.execution ≠ none

/-- To ask for an execution that has started calls nothing. -/
theorem silent_ensureStartedAt (fuel : Nat) {a : Address} {s : State} (h : HasStarted s a) :
    Silent (fun c => ensureStartedAt c fuel a) s := by
  intro c d
  cases fuel with
  | zero => rfl
  | succ fuel =>
    unfold ensureStartedAt
    rw [execute_bind, execute_bind]
    cases hread : (read a).execute s with
    | mk r t =>
      cases r with
      | error e => rfl
      | ok b =>
        cases hexecution : b.execution with
        | none => exact absurd hexecution (h b (execute_read_ok hread))
        | some e => simp only [hexecution]

/-- The executor is all that is called, unless it gives a builder that has no execution. -/
theorem StartsBy.makes {caller : Caller} {a : Address} {b : Builder} {s : State} {k : FunctionCall}
    {o : Outcome} (h : StartsBy caller a b s k o)
    (hstarted : ∀ c v x t u, b.context.execute s = (.ok c, t) →
      (caller b.executor [c]).execute t = (.ok v, u) → v = .ref x → HasStarted u x) :
    Makes caller (fun c => ensureStarted c a) s [k] := by
  cases h with
  | intro hcontext hcall hgiven honly hconclude =>
    refine .call hcall (.silent ?_)
    rw [hgiven]
    intro c d
    refine honly c d fun x hx => ?_
    exact silent_ensureStartedAt _ (hstarted _ _ x _ _ hcontext hgiven hx) c d

/-- How an execution starts, and what its outcome is, is settled by the state that it starts in. -/
theorem StartsBy.unique {caller : Caller} {a : Address} {b : Builder} {s : State}
    {k k' : FunctionCall} {o o' : Outcome} (h : StartsBy caller a b s k o)
    (h' : StartsBy caller a b s k' o') : k = k' ∧ o = o' := by
  cases h with
  | intro hcontext _ hgiven _ hconclude =>
    cases h' with
    | intro hcontext' _ hgiven' _ hconclude' =>
      cases hcontext.symm.trans hcontext'
      cases hgiven.symm.trans hgiven'
      cases hconclude.symm.trans hconclude'
      exact ⟨rfl, rfl⟩

/-- The first who asks for the execution of a builder has it started by one call. -/
theorem startsBy_of_ask {caller : Caller} {a : Address} {b : Builder} {s t u : State}
    {v : Value} {e : Execution} (hcell : s.store.cell? a = some (.builder b))
    (hnew : b.execution = none) (hask : (ask caller b).execute s = (.ok v, u))
    (hensure : (ensureStarted caller a).execute s = (.ok e, t)) :
    ∃ k, StartsBy caller a b s k e.outcome := by
  obtain ⟨line, hsummary⟩ := summary_of_ask hask
  obtain ⟨c, t', hcontext⟩ := exists_execute_context b s
  have hcall := comesTo_ensureStarted hcell hnew hsummary hcontext
  have hgiven : (caller b.executor [c]).execute t' = (.ok v, u) :=
    (execute_ask_of_context caller hsummary hcontext).symm.trans hask
  have hconclude : (conclude a (.ok v) caller).execute u = (.ok e, t) := by
    rw [← hensure, hcall.call caller, hgiven]
  exact ⟨_, .intro hcontext hcall hgiven (onlyFollows a v u) hconclude⟩

end Builder

namespace Awaiter

/-- What becomes of a task that is not cancelled any more, if the execution has an outcome. -/
def final (o : Outcome) : Awaiter → Awaiter
  | cancelled => cancelled
  | _ => ended o

/-- How many turns a task takes at most. -/
def turns : Awaiter → Nat
  | scheduled => 2
  | waiting => 1
  | cancelled | ended _ => 0

/-- A task that has ended by being cancelled had ended before. -/
theorem cancel_eq_ended {w : Awaiter} {o : Outcome} (h : w.cancel = .ended o) : w = .ended o := by
  cases w <;> first | exact h | cases h

/-- A task that ends as soon as it has the execution finds it settled. -/
theorem after_eq_ended {e : Execution} {o : Outcome} (h : after (.ok e) = .ended o) :
    e = .settled o := by
  cases e with
  | pending turns o' => cases h
  | settled o' => cases h; rfl

@[simp] theorem final_after (e : Execution) :
    final e.outcome (after (.ok e)) = .ended e.outcome := by
  cases e <;> rfl

theorem turns_after (e : Execution) : (after (.ok e)).turns < turns .scheduled := by
  cases e <;> simp [after, turns]

/-- The turns that some tasks take become fewer with those of one of them. -/
theorem sum_turns_set {ws : List Awaiter} {i : Nat} {w w' : Awaiter} (hw : ws[i]? = some w)
    (hfewer : w'.turns < w.turns) :
    ((ws.set i w').map turns).sum < (ws.map turns).sum := by
  induction ws generalizing i with
  | nil => cases hw
  | cons v ws ih =>
    cases i with
    | zero =>
      cases hw
      simpa using hfewer
    | succ i => simpa using ih hw

/-- What becomes of some tasks is not changed by a turn of one of them. -/
theorem map_final_set {ws : List Awaiter} {i : Nat} {w w' : Awaiter} {o : Outcome}
    (hw : ws[i]? = some w) (hsame : final o w' = final o w) :
    (ws.set i w').map (final o) = ws.map (final o) := by
  induction ws generalizing i with
  | nil => rfl
  | cons v ws ih =>
    cases i with
    | zero =>
      cases hw
      simp [hsame]
    | succ i => simpa using ih hw

end Awaiter

namespace EventLoop

open Recordset.Action Builder

/-! ## What a step keeps -/

/-- No task has asked for the execution of a builder. -/
structure Fresh (a : Address) (b : Builder) (l : EventLoop) : Prop where
  cell : l.state.store.cell? a = some (.builder b)
  execution : b.execution = none
  entries : l.entries = []
  awaiters : ∀ w ∈ l.awaiters, w = .scheduled ∨ w = .cancelled

/-- The execution of a builder is shared: the first task has started it by one call, no later one
has called anything, and a task that has ended has the outcome. -/
structure Shares (caller : Caller) (a : Address) (b : Builder) (k : FunctionCall) (e : Execution)
    (l : EventLoop) : Prop where
  cell : l.state.store.cell? a = some (.builder { b with execution := some e })
  entries : ∃ first later, l.entries = first :: later ∧ StartsBy caller a b first k e.outcome ∧
    ∀ t ∈ later, Silent (fun c => ensureStarted c a) t
  awaiters : ∀ o, .ended o ∈ l.awaiters → e = .settled o

variable {caller : Caller} {a : Address} {b : Builder} {k : FunctionCall} {e : Execution}
  {l m : EventLoop}

/-- How much is left to do while an execution is shared. -/
def remaining (e : Execution) (ws : List Awaiter) : Nat :=
  (ws.map Awaiter.turns).sum + if e.isSettled then 0 else 1

/-- A turn of the loop leaves the shared execution its outcome, leaves less to do, and changes
nothing about what becomes of the tasks. -/
theorem Shares.turn (h : Shares caller a b k e l) (hturn : Turn caller a l m) :
    ∃ e', Shares caller a b k e' m ∧ e'.outcome = e.outcome ∧
      remaining e' m.awaiters < remaining e l.awaiters ∧
      m.awaiters.map (Awaiter.final e.outcome) = l.awaiters.map (Awaiter.final e.outcome) := by
  cases hturn with
  | enter htask hgives hrun =>
    rw [execute_ensureStarted_of_some caller h.cell rfl] at hrun
    cases hrun
    refine ⟨e, ⟨h.cell, ?_, ?_⟩, rfl, ?_, ?_⟩
    · obtain ⟨first, later, hentries, hstarts, hlater⟩ := h.entries
      refine ⟨first, later ++ [l.state], by simp [hentries], hstarts, fun t ht => ?_⟩
      rcases List.mem_append.mp ht with ht | ht
      · exact hlater t ht
      · -- the builder has an execution when this task asks for it
        obtain rfl := List.mem_singleton.mp ht
        refine silent_ensureStartedAt chainLength fun b' hb' => ?_
        cases h.cell.symm.trans hb'
        simp
    · intro o ho
      rcases List.mem_or_eq_of_mem_set ho with ho | ho
      · exact h.awaiters o ho
      · exact Awaiter.after_eq_ended ho.symm
    · exact Nat.add_lt_add_right (Awaiter.sum_turns_set htask (Awaiter.turns_after e)) _
    · exact Awaiter.map_final_set htask (Awaiter.final_after e)
  | settle hcell hpending =>
    cases h.cell.symm.trans hcell
    cases hpending
    rename_i turns o
    -- no task has ended yet, since the execution had not settled
    refine ⟨.settled o, ⟨?_, h.entries, ?_⟩, rfl, ?_, rfl⟩
    · rw [execute_keep _ h.cell]
      exact Store.cell?_write_of_cell? h.cell
    · intro o' ho'
      cases h.awaiters o' ho'
    · simp [remaining, Execution.isSettled]
  | wake htask hended =>
    obtain ⟨b', hcell, hsettled⟩ := hended
    cases h.cell.symm.trans hcell
    cases hsettled
    rename_i i o
    refine ⟨.settled o, ⟨h.cell, h.entries, ?_⟩, rfl, ?_, ?_⟩
    · intro o' ho'
      rcases List.mem_or_eq_of_mem_set ho' with ho' | ho'
      · exact h.awaiters o' ho'
      · cases ho'
        rfl
    · refine Nat.add_lt_add_right (Awaiter.sum_turns_set htask ?_) _
      exact Nat.one_pos
    · exact Awaiter.map_final_set htask rfl

/-- A shared execution is shared after any step, and has the same outcome. -/
theorem Shares.step (h : Shares caller a b k e l) (hstep : Step caller a l m) :
    ∃ e', Shares caller a b k e' m ∧ e'.outcome = e.outcome := by
  cases hstep with
  | turn hturn =>
    obtain ⟨e', hshares, houtcome, -, -⟩ := h.turn hturn
    exact ⟨e', hshares, houtcome⟩
  | arrive =>
    refine ⟨e, ⟨h.cell, h.entries, fun o ho => h.awaiters o ?_⟩, rfl⟩
    simpa using ho
  | cancel htask =>
    refine ⟨e, ⟨h.cell, h.entries, fun o ho => h.awaiters o ?_⟩, rfl⟩
    rcases List.mem_or_eq_of_mem_set ho with ho | ho
    · exact ho
    · rw [← Awaiter.cancel_eq_ended ho.symm]
      exact List.mem_of_getElem? htask
  | elsewhere hcell => exact ⟨e, ⟨hcell.trans h.cell, h.entries, h.awaiters⟩, rfl⟩

/-- The first task that asks for the execution starts it; before that nothing happens to the
builder. -/
theorem Fresh.step (hcaller : SteadyCaller caller) (h : Fresh a b l) (hstep : Step caller a l m) :
    Fresh a b m ∨ ∃ k e, Shares caller a b k e m := by
  cases hstep with
  | turn hturn =>
    cases hturn with
    | enter htask hgives hrun =>
      obtain ⟨e, t, hensure, hcell⟩ := execute_ensureStarted_of_gives hcaller h.cell hgives
      obtain ⟨v, u, hask⟩ := hgives b h.cell h.execution
      obtain ⟨k, hstarts⟩ := startsBy_of_ask h.cell h.execution hask hensure
      cases hrun.symm.trans hensure
      refine .inr ⟨k, e, hcell, ⟨l.state, [], by simp [h.entries], hstarts, by simp⟩, ?_⟩
      intro o ho
      rcases List.mem_or_eq_of_mem_set ho with ho | ho
      · rcases h.awaiters _ ho with ho | ho <;> cases ho
      · exact Awaiter.after_eq_ended ho.symm
    | settle hcell hpending =>
      cases h.cell.symm.trans hcell
      cases h.execution.symm.trans hpending
    | wake htask hended =>
      rcases h.awaiters _ (List.mem_of_getElem? htask) with hw | hw <;> cases hw
  | arrive =>
    refine .inl ⟨h.cell, h.execution, h.entries, fun w hw => ?_⟩
    rcases List.mem_append.mp hw with hw | hw
    · exact h.awaiters w hw
    · exact .inl (List.mem_singleton.mp hw)
  | cancel htask =>
    refine .inl ⟨h.cell, h.execution, h.entries, fun w hw => ?_⟩
    rcases List.mem_or_eq_of_mem_set hw with hw | hw
    · exact h.awaiters w hw
    · rcases h.awaiters _ (List.mem_of_getElem? htask) with rfl | rfl
      · exact .inr hw
      · exact .inr hw
  | elsewhere hcell => exact .inl ⟨hcell.trans h.cell, h.execution, h.entries, h.awaiters⟩

/-- Whatever has happened, no task has asked for the execution or all share it. -/
theorem Fresh.run (hcaller : SteadyCaller caller) (h : Fresh a b l) (hrun : Run caller a l m) :
    Fresh a b m ∨ ∃ k e, Shares caller a b k e m := by
  induction hrun with
  | refl => exact .inl h
  | tail _ hstep ih =>
    rcases ih with hfresh | ⟨k, e, hshares⟩
    · exact hfresh.step hcaller hstep
    · obtain ⟨e', hshares', -⟩ := hshares.step hstep
      exact .inr ⟨k, e', hshares'⟩

/-! ## What becomes of the tasks -/

/-- While a task that shares an execution is neither cancelled nor ended, the loop takes a turn. -/
theorem Shares.exists_turn (h : Shares caller a b k e l) {w : Awaiter} (hw : w ∈ l.awaiters)
    (hopen : w ≠ w.final e.outcome) : ∃ m, Turn caller a l m := by
  obtain ⟨i, htask⟩ := List.mem_iff_getElem?.mp hw
  cases w with
  | scheduled =>
    refine ⟨_, .enter htask (fun b' hb' hnew => ?_) rfl⟩
    cases h.cell.symm.trans hb'
    cases hnew
  | waiting =>
    cases e with
    | pending turns o => exact ⟨_, .settle h.cell rfl⟩
    | settled o => exact ⟨_, .wake htask ⟨_, h.cell, rfl⟩⟩
  | cancelled => exact absurd rfl hopen
  | ended o =>
    cases h.awaiters o hw
    exact absurd rfl hopen

/-- Whatever turns the loop takes, it comes to where every task that was not cancelled has ended
with the outcome of the shared execution. -/
theorem Shares.inevitably (h : Shares caller a b k e l) :
    Inevitably caller a (fun m => m.awaiters = l.awaiters.map (Awaiter.final e.outcome)) l := by
  -- by induction on what is left to do: with a task open there is a turn, and any turn does some
  induction hn : remaining e l.awaiters using Nat.strongRecOn generalizing e l with
  | ind n ih =>
    by_cases hopen : ∃ w ∈ l.awaiters, w ≠ w.final e.outcome
    · obtain ⟨w, hw, hopen⟩ := hopen
      refine .later (h.exists_turn hw hopen) fun m hturn => ?_
      obtain ⟨e', hshares, houtcome, hless, hsame⟩ := h.turn hturn
      have hm := ih _ (hn ▸ hless) hshares rfl
      rwa [houtcome, hsame] at hm
    · have hover : ∀ w ∈ l.awaiters, w.final e.outcome = w := fun w hw =>
        Classical.byContradiction fun h => hopen ⟨w, hw, Ne.symm h⟩
      refine .now ?_
      rw [List.map_congr_left hover, List.map_id']

/-! ## Main statement -/

/-- Once a task has asked for the execution of a builder, in whatever order tasks have been added,
cancelled and run: the first one has had the executor called, once, and no other has had anything
called.  No task has ended but with the one outcome that the execution has since then, all that are
not cancelled come to end with it, and once it is there, whoever waits gets it at once. -/
theorem Run.shared {s first : State} {later : List State} (hcaller : SteadyCaller caller)
    (hcell : s.store.cell? a = some (.builder b)) (hnew : b.execution = none)
    (hrun : Run caller a { state := s } l) (hentries : l.entries = first :: later) :
    ∃ k e, l.state.store.cell? a = some (.builder { b with execution := some e }) ∧
      StartsBy caller a b first k e.outcome ∧
      (∀ t ∈ later, Silent (fun c => ensureStarted c a) t) ∧
      (∀ o, .ended o ∈ l.awaiters → e = .settled o) ∧
      Inevitably caller a (fun m => m.awaiters = l.awaiters.map (Awaiter.final e.outcome)) l ∧
      (∀ o, e = .settled o → ∀ c, (await c a).execute l.state = (o, l.state)) := by
  have hfresh : Fresh a b { state := s } := ⟨hcell, hnew, rfl, by simp⟩
  rcases hfresh.run hcaller hrun with hstill | ⟨k, e, hshares⟩
  · cases hentries.symm.trans hstill.entries
  · obtain ⟨first', later', hentries', hstarts, hlater⟩ := hshares.entries
    cases hentries.symm.trans hentries'
    refine ⟨k, e, hshares.cell, hstarts, hlater, hshares.awaiters, hshares.inevitably, ?_⟩
    rintro o rfl c
    exact execute_await_of_ended c ⟨_, hshares.cell, rfl⟩

/-- An executor that gives a number after a turn. -/
def tardy : Executor := .recorder .giveLater (.int 7) []

/-- Of two tasks that wait for a query, the first is cancelled once it has run: the second one gets
the number, and so does whoever waits later, by whatever way of calling. -/
theorem shared_tardy : ∃ l, Run apply ⟨6⟩ { state := exitState tardy } l ∧
    l.awaiters = [.cancelled, .ended (.ok (.int 7))] ∧
    ∀ c, (await c ⟨6⟩).execute l.state = (.ok (.int 7), l.state) := by
  have hs : (exitState tardy).store.cell? ⟨6⟩ = some (.builder exitBuilder) := rfl
  obtain ⟨t, hstart, ht⟩ : ∃ t, (ensureStarted apply ⟨6⟩).execute (exitState tardy) =
        (.ok (.pending 2 (.ok (.int 7))), t) ∧ t.store.cell? ⟨6⟩ =
      some (.builder { exitBuilder with execution := some (.pending 2 (.ok (.int 7))) }) :=
    ⟨_, rfl, rfl⟩
  have hgives : Gives apply ⟨6⟩ (exitState tardy) := fun b hb _ => by
    cases hs.symm.trans hb
    exact ⟨_, _, rfl⟩
  have hstarted : Gives apply ⟨6⟩ t := fun b hb hnew => by
    cases ht.symm.trans hb
    cases hnew
  have hshared := execute_ensureStarted_of_some apply ht rfl
  have hended : Ended ⟨6⟩ (.ok (.int 7)) ((keep ⟨6⟩ (.settled (.ok (.int 7)))).execute t).2 := by
    rw [execute_keep _ ht]
    exact ⟨_, Store.cell?_write_of_cell? ht, rfl⟩
  have htwo : Run apply ⟨6⟩ { state := exitState tardy }
      ⟨exitState tardy, [.scheduled, .scheduled], []⟩ :=
    (Relation.ReflTransGen.single (.arrive _)).tail (.arrive _)
  have hfirst := htwo.tail (.turn (.enter (i := 0) rfl hgives hstart))
  have hcancel := hfirst.tail (.cancel (i := 0) (w := .waiting) rfl)
  have hsecond := hcancel.tail (.turn (.enter (i := 1) rfl hstarted hshared))
  have hsettle := hsecond.tail (.turn (.settle ht rfl))
  have hrun := hsettle.tail (.turn (.wake (i := 1) rfl hended))
  obtain ⟨k, e, -, -, -, hone, -, hlater⟩ := Run.shared steady_apply hs rfl hrun rfl
  exact ⟨_, hrun, rfl, hlater _ (hone _ (by simp [Awaiter.cancel, Awaiter.after]))⟩

end EventLoop

end Recordset
