import Recordset.Proofs.Deferred.Replay
import Recordset.Proofs.Deferred.Sharing
set_option autoImplicit false

/-!
# Waiting for a query and making its calls

Waiting for a query over a list gives what the recorded calls give when they are made one after
another, with the same arguments, on a collection over a copy of the list, and rebuilt from lists
and mappings.  What is compared is what an observer sees in the end, since what the two give is made
anew.  It is something else exactly where a call for pages of some size leaves out which page and
could be answered, and where the calls fail with an error that is not passed on to those who wait:
one that can not be written, or that announces the end of an iteration.

`Builder.await_agrees_direct_iff` is the main statement.
-/

namespace Recordset.Builder

/-! ## Recording -/

/-- The builder that has recorded calls one after another. -/
def recorded (b : Builder) : List Link → Action Builder
  | [] => pure b
  | l :: ls => do recorded (← b.chain l.method l.args) ls

/-- A builder shows its operations. -/
def ShowsItself (b : Builder) (s : State) : Prop :=
  ∃ o, b.shown = .ref o ∧ s.store.cell? o = some (.tuple (b.operations.map Operation.shown))

/-- An operation is the record of a call, and its parts are those of the tuple that shows it. -/
def Records (s : State) (l : Link) (o : Operation) : Prop :=
  IsRecord s l o.shown ∧ ∃ vs, o.parts = .str (recordedName l.method) :: vs

theorem Records.evolve {s t : State} {l : Link} {o : Operation} (h : Records s l o)
    (hst : s.Evolves t) : Records t l o := ⟨h.1.evolve hst, h.2⟩

/-- A call adds its record to a builder, and nothing else. -/
theorem records_chain {b c : Builder} {l : Link} {s t : State}
    (h : (b.chain l.method l.args).execute s = (.ok c, t)) :
    s.Evolves t ∧ c.executor = b.executor ∧ c.validators = b.validators ∧ c.ShowsItself t ∧
      ∃ o, c.operations = b.operations ++ [o] ∧ Records t l o := by
  unfold chain at h
  cases hbind : (signature l.method).bind l.args with
  | error e =>
    rw [hbind] at h
    cases h
  | ok vs =>
    rw [hbind] at h
    cases h
    let o : Operation := ⟨.str (recordedName l.method) :: trim vs, .ref ⟨s.store.size⟩⟩
    let made : State := { s with store := (s.store.alloc (.tuple o.parts)).2 }
    have hmade : s.Evolves made := s.evolves_alloc _
    have hshown := made.evolves_alloc (.tuple ((b.operations ++ [o]).map Operation.shown))
    have hrecord : made.store.cell? ⟨s.store.size⟩ = some (.tuple o.parts) :=
      Store.cell?_alloc s.store _
    refine ⟨hmade.trans hshown, rfl, rfl, ?_, o, rfl, ?_, _, rfl⟩
    · exact ⟨⟨made.store.size⟩, rfl, Store.cell?_alloc made.store _⟩
    · exact ⟨⟨s.store.size⟩, vs, rfl, hbind, hshown.tuple hrecord⟩

/-- Calls add their records to a builder, and nothing else. -/
theorem records_recorded {ls : List Link} {b c : Builder} {s t : State} (hshows : b.ShowsItself s)
    (h : (b.recorded ls).execute s = (.ok c, t)) :
    s.Evolves t ∧ c.executor = b.executor ∧ c.validators = b.validators ∧ c.ShowsItself t ∧
      ∃ os, c.operations = b.operations ++ os ∧ List.Forall₂ (Records t) ls os := by
  induction ls generalizing b s with
  | nil =>
    cases h
    exact ⟨.refl _, rfl, rfl, hshows, [], (List.append_nil _).symm, .nil⟩
  | cons l ls ih =>
    obtain ⟨d, u, hchain, hrest⟩ := Action.execute_bind_ok h
    obtain ⟨hsu, hexecutor, hvalidators, hshows', o, ho, hrecord⟩ := records_chain hchain
    obtain ⟨hut, hexecutor', hvalidators', hshown, os, hos, hrecords⟩ := ih hshows' hrest
    refine ⟨hsu.trans hut, hexecutor'.trans hexecutor, hvalidators'.trans hvalidators, hshown,
      o :: os, ?_, .cons (hrecord.evolve hut) hrecords⟩
    rw [hos, ho, List.append_assoc]
    rfl

/-- Recorded operations can be shown. -/
theorem exists_summary {b : Builder} {ls : List Link} {s : State}
    (h : List.Forall₂ (Records s) ls b.operations) : ∃ line, b.summary = .ok line := by
  have hnames : ∀ (ls : List Link) (os : List Operation), List.Forall₂ (Records s) ls os →
      ∃ names, os.mapM Operation.nameText = .ok names := by
    intro ls os hrecords
    induction hrecords with
    | nil => exact ⟨[], rfl⟩
    | @cons l o ls os hrecord hrecords ih =>
      obtain ⟨names, hnames⟩ := ih
      obtain ⟨-, vs, hparts⟩ := hrecord
      have hname : o.nameText = .ok (recordedName l.method) := by
        unfold Operation.nameText Operation.name
        rw [hparts]
        rfl
      refine ⟨recordedName l.method :: names, ?_⟩
      rw [List.mapM_cons, hname, hnames]
      rfl
  obtain ⟨names, hnames⟩ := hnames ls b.operations h
  unfold summary Store.operationsShown
  rw [hnames]
  split_ifs
  · exact ⟨_, rfl⟩
  · exact ⟨_, rfl⟩

/-! ## Waiting -/

/-- A value that can be waited for: work, or a builder. -/
def isAwaitable (v : Value) (s : State) : Bool :=
  match s.store.view v with
  | some (.work _) | some (.builder _) => true
  | _ => false

/-- What those get who wait for a builder whose executor has given a result: in the place of an
error that is not kept, what that leaves. -/
def delivered (r : Except Error Value) : Outcome :=
  r.mapError fun e => (Execution.unkept? e).getD e

theorem execute_executionOf {follow : Address → Action Execution} {v : Value} {s : State}
    (h : isAwaitable v s = false) :
    (executionOf follow v).execute s = (.ok (.settled (.ok v)), s) := by
  unfold executionOf
  rw [Action.execute_get_bind]
  split
  · next o hview => simp [isAwaitable, hview] at h
  · next a b hview => simp [isAwaitable, hview] at h
  · rfl

/-- Waiting for a builder delivers the result of its executor, and leaves everything as the executor
left it for an observer to see. -/
theorem execute_await_of_ask {caller : Caller} {a : Address} {b : Builder} {s u : State}
    {r : Except Error Value} {line : String} (hcaller : Action.SteadyCaller caller)
    (hcell : s.store.cell? a = some (.builder b)) (hnew : b.execution = none)
    (hsummary : b.summary = .ok line) (hask : (ask caller b).execute s = (r, u))
    (hplain : ∀ v, r = .ok v → isAwaitable v u = false) :
    ∃ t, (await caller a).execute s = (delivered r, t) ∧ t.store.observe = u.store.observe := by
  have hstart : (start caller (follow caller) b).execute s = _ := execute_start hsummary s
  rw [hask] at hstart
  cases r with
  | ok v =>
    dsimp only at hstart
    rw [execute_executionOf (hplain v rfl)] at hstart
    obtain ⟨t, hawait, -, hseen⟩ := ended_of_start hcaller hcell hnew hstart
    exact ⟨t, hawait, hseen⟩
  | error e =>
    have hdelivered : delivered (.error e) = .error ((Execution.unkept? e).getD e) := rfl
    rw [hdelivered]
    cases hunkept : Execution.unkept? e with
    | some failure =>
      simp only [hunkept] at hstart
      exact ⟨u, execute_await_of_start_error hcell hnew hstart, rfl⟩
    | none =>
      simp only [hunkept] at hstart
      obtain ⟨t, hawait, -, hseen⟩ := ended_of_start hcaller hcell hnew hstart
      exact ⟨t, hawait, hseen⟩

/-! ## Errors that are passed on -/

open Executor

/-- A result that is delivered as it is: if it is an error, that can be written and does not
announce the end of an iteration. -/
def IsPassedOn (r : Except Error Value) : Prop :=
  ∀ e, r = .error e → e.unwritten? = none ∧ e.endsIteration = false

instance (r : Except Error Value) : Decidable (IsPassedOn r) :=
  match r with
  | .ok _ => .isTrue nofun
  | .error e => decidable_of_iff (e.unwritten? = none ∧ e.endsIteration = false)
    ⟨fun h _ heq => Except.error.inj heq ▸ h, fun h => h e rfl⟩

theorem delivered_of_isPassedOn {r : Except Error Value} (h : IsPassedOn r) : delivered r = r := by
  cases r with
  | ok v => rfl
  | error e =>
    obtain ⟨hwritten, hiteration⟩ := h e rfl
    have hsame : (Execution.unkept? e).getD e = e := by
      unfold Execution.unkept?
      rw [hwritten, hiteration]
      cases e.isFinal <;> rfl
    exact congrArg Except.error hsame

/-- A failure for a type is passed on. -/
theorem isPassedOn_of_failsForType {r : Except Error Value} (h : FailsForType r) :
    IsPassedOn r := by
  obtain ⟨e, rfl, htype⟩ := h
  rintro _ ⟨⟩
  cases e with
  | fault f => cases f <;> first | exact ⟨rfl, rfl⟩ | cases htype
  | raised kind message =>
    obtain rfl : kind = "TypeError" := by simpa [Error.isType] using htype
    simp [Error.unwritten?, Error.unwrittenKinds, Error.endsIteration]
  | _ => cases htype

/-- In the place of an error that is not passed on another one is delivered. -/
theorem delivered_ne_of_not_isPassedOn {r : Except Error Value} (h : ¬ IsPassedOn r) :
    ∃ e failure, r = .error e ∧ delivered r = .error failure ∧ failure ≠ e := by
  obtain ⟨e, rfl, hlost⟩ : ∃ e, r = .error e ∧
      ¬ (e.unwritten? = none ∧ e.endsIteration = false) := by
    simpa [IsPassedOn] using h
  refine ⟨e, (Execution.unkept? e).getD e, rfl, rfl, ?_⟩
  cases e with
  | fault f =>
    cases f with
    | @key u =>
      cases u with
      | none => exact absurd ⟨rfl, rfl⟩ hlost
      | some u => cases u <;> nofun
    | _ => exact absurd ⟨rfl, rfl⟩ hlost
  | raised kind message =>
    have hkind : kind = "BadRepr" ∨ kind = "StopIteration" := by
      by_contra hother
      obtain ⟨hwritten, hiteration⟩ := not_or.mp hother
      exact hlost (by
        simp [Error.unwritten?, Error.unwrittenKinds, Error.endsIteration, hwritten, hiteration])
    rcases hkind with rfl | rfl <;>
      simp [Execution.unkept?, Error.isFinal, Error.finalKinds, Error.unwritten?,
        Error.unwrittenKinds, Error.endsIteration]
  | _ => exact absurd ⟨rfl, rfl⟩ hlost

/-! ## What is seen -/

theorem seen_eq_of_observe {r : Outcome} {s t : State} (h : s.store.observe = t.store.observe) :
    State.seen (r, s) = State.seen (r, t) := by
  unfold State.seen
  rw [h]

theorem failsForType_seen_iff {r : Outcome × State} :
    FailsForType (State.seen r) ↔ FailsForType r.1 := by
  obtain ⟨o, s⟩ := r
  cases o with
  | ok v => exact iff_of_false nofun nofun
  | error e => simp [FailsForType, State.seen, Except.map]

/-- Of two runs that are one run, or the first of which fails for a type, the same is seen exactly
when they give the same. -/
theorem agrees_seen_iff {l d : Outcome × State} (h : l = d ∨ FailsForType l.1) :
    Agrees (State.seen l) (State.seen d) ↔ Agrees l.1 d.1 := by
  unfold Agrees
  rw [failsForType_seen_iff, failsForType_seen_iff]
  cases h with
  | inl hsame => exact iff_of_true (.inl (by rw [hsame])) (.inl (by rw [hsame]))
  | inr hfail =>
    refine or_congr_left' fun hnot => iff_of_false (fun hseen => ?_) fun hgiven => ?_
    · exact hnot ⟨hfail, failsForType_seen_iff.mp (hseen ▸ failsForType_seen_iff.mpr hfail)⟩
    · exact hnot ⟨hfail, hgiven ▸ hfail⟩

/-- What is delivered of a run is seen as another one when the runs agree and the other one is
passed on. -/
theorem agrees_seen_delivered_iff {l d : Outcome × State} {t : State}
    (h : l = d ∨ FailsForType l.1) (ht : t.store.observe = l.2.store.observe) :
    Agrees (State.seen (delivered l.1, t)) (State.seen d) ↔ Agrees l.1 d.1 ∧ IsPassedOn d.1 := by
  by_cases hpassed : IsPassedOn l.1
  · rw [delivered_of_isPassedOn hpassed, seen_eq_of_observe ht, agrees_seen_iff h]
    refine (and_iff_left_of_imp fun hagrees => ?_).symm
    cases hagrees with
    | inl hsame => exact hsame ▸ hpassed
    | inr hfail => exact isPassedOn_of_failsForType hfail.2
  · -- another error is delivered, and it is none for a type that it takes the place of
    obtain rfl := h.resolve_right fun hfail => hpassed (isPassedOn_of_failsForType hfail)
    refine iff_of_false (fun hagrees => ?_) fun hboth => hpassed hboth.2
    obtain ⟨e, failure, he, hdelivered, hne⟩ := delivered_ne_of_not_isPassedOn hpassed
    cases hagrees with
    | inl hsame =>
      unfold State.seen at hsame
      rw [hdelivered, he] at hsame
      exact hne (Except.error.inj hsame)
    | inr hfail =>
      exact hpassed (isPassedOn_of_failsForType (failsForType_seen_iff.mp hfail.2))

/-! ## Main statement -/

/-- The state in which the executor of a builder is called. -/
def asked (b : Builder) (s : State) : State := (b.context.execute s).2

/-- Nothing has been set on cells that are still to be made. -/
def IsUnmarked (s : State) : Prop :=
  ∀ a : Address, s.store.size ≤ a.index → ∀ name, s.store.mark? (.ref a) name = none

theorem steady_context (b : Builder) : Action.Steady b.context := by
  unfold context
  grind

/-- Making a context leaves the cells that are there. -/
theorem cell?_asked {b : Builder} {s : State} {a : Address} {c : Cell}
    (h : s.store.cell? a = some c) : (asked b s).store.cell? a = some c := by
  have hlt : a.index < s.store.size := (Array.getElem?_eq_some_iff.mp h).1
  have hmade := (Store.cell?_alloc_of_lt (.record .metadata
    [("operation_count", .int b.operations.length), ("chain_depth", .int b.operations.length)])
    hlt).trans h
  exact (Store.cell?_alloc_of_lt _ (Array.getElem?_eq_some_iff.mp hmade).1).trans hmade

/-- What an executor is told is a context of its own. -/
theorem exists_isContext {b : Builder} {s : State} (hmarks : IsUnmarked s) :
    ∃ context, b.context.execute s = (.ok context, asked b s) ∧
      IsContext b context (asked b s) := by
  -- the circumstances are made first, and the context behind them
  let depth := Value.int b.operations.length
  let made : State := { s with
    store := (s.store.alloc (.record .metadata
      [("operation_count", depth), ("chain_depth", depth)])).2 }
  have hsize : s.store.size ≤ made.store.size :=
    State.Evolves.size_le (s.evolves_alloc _)
  refine ⟨.ref ⟨made.store.size⟩, rfl, ?_⟩
  refine ⟨⟨made.store.size⟩, .ref ⟨s.store.size⟩, rfl, ?_, hmarks ⟨made.store.size⟩ hsize⟩
  exact Store.cell?_alloc made.store _

/-- Calling an executor over a list runs the operations over the list. -/
theorem execute_ask_memory (depth : Nat) {b : Builder} {s : State} {x : Address} {line : String}
    {items policy context : Value} (hsummary : b.summary = .ok line)
    (hcontext : b.context.execute s = (.ok context, asked b s)) (hexecutor : b.executor = .ref x)
    (hx : s.store.cell? x = some (.executor (.memory items policy))) :
    (ask (applyAt (depth + 2)) b).execute s =
      (runOver (applyAt (depth + 1)) items policy context).execute (asked b s) := by
  rw [execute_ask_of_context _ hsummary hcontext, hexecutor]
  show (Action.cell x >>= _).execute (asked b s) = _
  rw [Action.execute_bind_of_ok (Action.execute_cell (cell?_asked hx))]
  rfl

/-- What is seen of a query over a list that is waited for is what is seen of its calls on a
collection over a copy of the list, exactly when every call for pages that leaves out the page alone
fails for a type anyway, and the calls do not fail with an error that is not passed on. -/
theorem await_agrees_direct_iff {depth : Nat} {root b : Builder} {ls : List Link} {s t u : State}
    {q x y : Address} {policy : Value} {xs : List Value} (hempty : root.operations = [])
    (hroot : root.ShowsItself s) (hrecorded : (root.recorded ls).execute s = (.ok b, t))
    (hlater : t.Evolves u) (hmarks : IsUnmarked u) (hq : u.store.cell? q = some (.builder b))
    (hnew : b.execution = none) (hexecutor : root.executor = .ref x)
    (hx : u.store.cell? x = some (.executor (.memory (.ref y) policy)))
    (hy : u.store.cell? y = some (.list xs)) (hrecordable : ∀ l ∈ ls, l.IsRecordable)
    (hopen : ∀ a w, (opened (.ref y) policy root.validators).execute (asked b u) = (.ok a, w) →
      Link.Throughout (applyAt depth) Link.IsOpen (.ref a) ls w)
    (hplain : ∀ v w, (direct (applyAt depth) (.ref y) policy root.validators ls).execute
      (asked b u) = (.ok v, w) → isAwaitable v w = false) :
    Agrees (State.seen ((await (applyAt (depth + 2)) q).execute u))
        (State.seen ((direct (applyAt depth) (.ref y) policy root.validators ls).execute
          (asked b u))) ↔
      (∀ a w, (opened (.ref y) policy root.validators).execute (asked b u) = (.ok a, w) →
        Link.Throughout (applyAt depth) (Link.IsHarmless (applyAt depth)) (.ref a) ls w) ∧
      IsPassedOn
        ((direct (applyAt depth) (.ref y) policy root.validators ls).execute (asked b u)).1 := by
  obtain ⟨-, hsame, hvalidators, ⟨o, hshown, hoperations⟩, os, hos, hrecords⟩ :=
    records_recorded hroot hrecorded
  rw [hempty, List.nil_append] at hos
  subst hos
  obtain ⟨context, hmake, hcontext⟩ := exists_isContext (b := b) hmarks
  obtain ⟨line, hsummary⟩ := exists_summary hrecords
  have hask := execute_ask_memory depth hsummary hmake (hsame.trans hexecutor) hx
  -- the record is there when the executor is called
  have hmade : t.Evolves (asked b u) := hlater.trans (steady_context b u)
  have hops : (asked b u).store.cell? o = some (.tuple (b.operations.map Operation.shown)) :=
    hmade.tuple hoperations
  have hrecords' : List.Forall₂ (IsRecord (asked b u)) ls (b.operations.map Operation.shown) :=
    List.forall₂_map_right_iff.mpr (hrecords.imp fun _ _ h => h.1.evolve hmade)
  rw [← hvalidators] at hopen hplain ⊢
  have hrun := execute_runOver_eq_or_fails (cell?_asked hy) hcontext hshown hops hrecords'
    hrecordable hopen
  have hagrees := agrees_runOver_iff (cell?_asked hy) hcontext hshown hops hrecords'
    hrecordable hopen
  cases hresult : (runOver (applyAt (depth + 1)) (.ref y) policy context).execute (asked b u) with
  | mk r w =>
    rw [hresult] at hask hrun hagrees
    have hnone : ∀ v, r = .ok v → isAwaitable v w = false := by
      rintro v rfl
      cases hrun with
      | inl h => exact hplain v w h.symm
      | inr h =>
        obtain ⟨e, he, -⟩ := h
        cases he
    obtain ⟨t', hawait, hseen⟩ :=
      execute_await_of_ask (steady_applyAt (depth + 2)) hq hnew hsummary hask hnone
    rw [hawait, ← hagrees]
    exact agrees_seen_delivered_iff hrun hseen

/-- A list of three numbers, with an executor over it. -/
def listState : State where
  store := { cells := State.initial.store.cells ++ #[
    .list [.int 1, .int 2, .int 3],
    .executor (.memory (.ref ⟨2⟩) .null),
    .tuple []] }

/-- A query over the list that has recorded nothing. -/
def listQuery : Builder where
  executor := .ref ⟨3⟩
  validators := .null
  operations := []
  shown := .ref ⟨4⟩

/-- The query with more recorded, and the state in which it is kept. -/
def kept (ls : List Link) : Builder × State :=
  match (listQuery.recorded ls).execute listState with
  | (.ok b, t) => (b, { t with store := (t.store.alloc (.builder b)).2 })
  | (.error _, t) => (listQuery, t)

/-- The first two numbers of the list in reverse. -/
def twoOfReverse : List Link :=
  [{ method := .reverse },
    { method := .paginate, args := { named := [("per_page", .int 2), ("page", .int 1)] } }]

/-- The query for the first two numbers of the list in reverse is answered as the calls are. -/
theorem await_agrees_direct_twoOfReverse :
    Agrees (State.seen ((await (applyAt (8 + 2)) ⟨9⟩).execute (kept twoOfReverse).2))
      (State.seen ((direct (applyAt 8) (.ref ⟨2⟩) .null .null twoOfReverse).execute
        (asked (kept twoOfReverse).1 (kept twoOfReverse).2))) := by
  have hshown : listQuery.ShowsItself listState := ⟨⟨4⟩, rfl, rfl⟩
  have hrecorded : (listQuery.recorded twoOfReverse).execute listState =
      (.ok (kept twoOfReverse).1, ((listQuery.recorded twoOfReverse).execute listState).2) := rfl
  have hlater : ((listQuery.recorded twoOfReverse).execute listState).2.Evolves
      (kept twoOfReverse).2 := State.evolves_alloc _ _
  have hmarks : IsUnmarked (kept twoOfReverse).2 := fun _ _ _ => rfl
  have hq : (kept twoOfReverse).2.store.cell? ⟨9⟩ = some (.builder (kept twoOfReverse).1) := rfl
  have hx : (kept twoOfReverse).2.store.cell? ⟨3⟩ =
      some (.executor (.memory (.ref ⟨2⟩) .null)) := rfl
  have hy : (kept twoOfReverse).2.store.cell? ⟨2⟩ =
      some (.list [.int 1, .int 2, .int 3]) := rfl
  have hrecordable : ∀ l ∈ twoOfReverse, l.IsRecordable := by decide +kernel
  refine (await_agrees_direct_iff rfl hshown hrecorded hlater hmarks hq rfl rfl hx hy hrecordable
    ?_ ?_).mpr ⟨?_, ?_⟩
  · decide +kernel
  · decide +kernel
  · decide +kernel
  · decide +kernel

/-- Five numbers of the list, with no word on which page. -/
def fiveOfList : List Link :=
  [{ method := .paginate, args := { named := [("per_page", .int 5)] } }]

/-- The query for five numbers of the list fails for a type, where the call gives the first page. -/
theorem not_agrees_fiveOfList :
    ¬ Agrees (State.seen ((await apply ⟨7⟩).execute (kept fiveOfList).2))
      (State.seen ((direct apply (.ref ⟨2⟩) .null .null fiveOfList).execute
        (asked (kept fiveOfList).1 (kept fiveOfList).2))) := by
  have hawait : FailsForType ((await apply ⟨7⟩).execute (kept fiveOfList).2).1 := by
    decide +kernel
  have hdirect : ¬ FailsForType ((direct apply (.ref ⟨2⟩) .null .null fiveOfList).execute
      (asked (kept fiveOfList).1 (kept fiveOfList).2)).1 := by
    decide +kernel
  rw [← failsForType_seen_iff] at hawait hdirect
  rintro (hsame | hboth)
  · exact hdirect (hsame ▸ hawait)
  · exact hdirect hboth.2

end Recordset.Builder
