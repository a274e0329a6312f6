import Recordset.Deferred.Execution
import Recordset.Proofs.Scope.Presenting
set_option autoImplicit false

/-!
# Deferred queries within a scope

A builder takes its record, its operators and its executor from the scope that it is in.  A replay
copies the items that it is about, and whoever waits for a builder changes no other builder than
that one, unless its executor gives another.
-/

namespace Recordset

open Recordset.Action Recordset.Scope

variable {sc : Scope} {v w : Value} {a : Address} {xs args : List Value} {o : Operation}
  {b : Builder} {e : Execution}

/-! ## Building -/

namespace Builder

theorem has_trim (hargs : sc.Has args) : sc.Has (trim args) := by
  refine has_map fun v hv => ?_
  have hsub : (args.reverse.dropWhile Value.isMissing).Sublist args.reverse :=
    List.dropWhile_sublist _
  have hgiven : sc.Has v := hargs.reverse.of_sublist hsub |>.reverse.mem hv
  split
  · exact has_null sc
  · exact hgiven

@[grind ←]
theorem within_operation (hxs : sc.Has xs) : Within sc (operation xs) :=
  within_bind (within_make (has_cell_tuple.mpr hxs)) fun _ hshown => within_pure ⟨hxs, hshown⟩

theorem has_shown {operations : List Operation} (h : sc.Has operations) :
    sc.Has (operations.map Operation.shown) :=
  has_map fun _ ho => (has_operation_iff.mp (h.mem ho)).2

@[grind ←]
theorem within_record (hb : sc.Has b) (ho : sc.Has o) : Within sc (b.record o) := by
  obtain ⟨hexecutor, hvalidators, -, hoperations, -⟩ := has_builder_iff.mp hb
  have hlonger : sc.Has (b.operations ++ [o]) :=
    has_append.mpr ⟨hoperations, has_cons.mpr ⟨ho, has_nil sc⟩⟩
  unfold record
  refine within_bind (within_make (has_cell_tuple.mpr (has_shown hlonger))) fun shown hshown => ?_
  exact within_pure ⟨hexecutor, hvalidators, hshown, hlonger, has_none sc⟩

/-- What a builder records in place of arguments that are left out is the marker for them. -/
theorem has_params (sc : Scope) (m : Method) : sc.Has (signature m).params := by
  refine has_map fun p _ => ?_
  show sc.Has (p.default.map fun _ => Value.missing)
  cases p.default with
  | none => exact has_none sc
  | some d => exact has_some.mpr (has_missing sc)

@[grind ←]
theorem within_chain {given : Arguments} (hb : sc.Has b) (m : Method) (hgiven : sc.Has given) :
    Within sc (b.chain m given) := by
  unfold chain
  refine within_bind (within_ofExcept (Signature.has_bind (has_params sc m) hgiven))
    fun values hvalues => ?_
  refine within_bind (within_operation (has_cons.mpr ⟨has_str sc _, has_trim hvalues⟩))
    fun o ho => ?_
  exact within_record hb ho

theorem has_name (ho : sc.Has o) : sc.Has o.name := by
  have hparts := (has_operation_iff.mp ho).1
  unfold Operation.name
  split
  · rename_i hv
    rw [hv] at hparts
    exact has_ok.mpr (has_cons.mp hparts).1
  · exact has_error sc _

@[grind ←]
theorem within_describe (ho : sc.Has o) : Within sc (describe o) := by
  have hargs : sc.Has o.args := (has_operation_iff.mp ho).1.drop 1
  unfold describe
  refine within_bind (within_ofExcept (has_name ho)) fun name hname => ?_
  refine within_bind (within_mapM hargs fun v hv => within_look fun _ _ h =>
    ⟨h.shown hv, has_inert sc _⟩) fun written _ => ?_
  refine within_bind (within_make (has_cell_list.mpr (has_map fun _ _ => has_str sc _)))
    fun args hargs => ?_
  exact within_make (has_cell_dict.mpr (by simp [hname, hargs]))

theorem executorName_eq {s t : Store} (h : sc.SameStore s t) (hv : sc.Has v) :
    executorName s v = executorName t v := by
  unfold executorName
  split
  · rfl
  · exact congrArg (· ++ "." ++ _) (h.kind (has_ref.mpr (has_method.mp hv).2))
  · exact h.kind hv

theorem validatorNames_eq {s t : Store} (h : sc.SameStore s t) (hv : sc.Has v) :
    validatorNames s v = validatorNames t v := by
  unfold validatorNames
  rw [h.entries? hv]

@[grind ←]
theorem within_details (hb : sc.Has b) : Within sc b.details := by
  obtain ⟨hexecutor, hvalidators, -, hoperations, -⟩ := has_builder_iff.mp hb
  unfold details
  refine within_get_eq fun s t h => ⟨?_, ?_⟩
  · dsimp only
    rw [validatorNames_eq h.toSameStore hvalidators, executorName_eq h.toSameStore hexecutor]
  · refine within_bind (within_make (has_cell_list.mpr (has_map fun _ _ => has_str sc _)))
      fun names hnames => ?_
    refine within_bind (within_mapM hoperations fun o ho => within_describe ho)
      fun described hdescribed => ?_
    refine within_bind (within_make (has_cell_list.mpr hdescribed)) fun operations hoperations => ?_
    exact within_make (has_cell_dict.mpr (by simp [hnames, hoperations]))

@[grind ←]
theorem within_explain (hb : sc.Has b) (hv : sc.Has v) : Within sc (b.explain v) := by
  unfold explain
  refine within_bind (within_equal hv (has_str sc _)) fun json _ => ?_
  split
  · exact within_details hb
  · exact within_bind (within_ofExcept (has_inert sc _)) fun _ _ => within_pure (has_str sc _)

end Builder

/-! ## Contexts -/

namespace Context

@[grind ←]
theorem within_make {shown validators : Value} (hshown : sc.Has shown)
    (hvalidators : sc.Has validators) (count : Nat) :
    Within sc (make shown validators count) := by
  unfold make
  refine within_bind (Action.within_make (has_cell_record.mpr ?_)) fun metadata hmetadata => ?_
  · simp
  · exact Action.within_make (has_cell_record.mpr (by simp [hshown, hvalidators, hmetadata]))

@[grind ←]
theorem within_timeZone (hv : sc.Has v) : Within sc (timeZone v) := by
  unfold timeZone
  refine within_get_eq fun s t h => ⟨by rw [h.view hv], ?_⟩
  split
  · exact within_pure (has_str sc _)
  · exact within_lacking hv _

/-- The rest of the description of a context, once the operators are described. -/
theorem within_describeWith {operations validators context : Value}
    (hoperations : sc.Has operations) (hvalidators : sc.Has validators)
    (hcontext : sc.Has context) : Within sc (do
      let metadata ← Action.attributeOf context "metadata"
      let count ← Action.attributeOf metadata "operation_count"
      let depth ← Action.attributeOf metadata "chain_depth"
      Action.make (.dict [(.str "operations", operations), (.str "validators", validators),
        (.str "operation_count", count), (.str "chain_depth", depth),
        (.str "utc", ← timeZone metadata)])) := by
  refine within_bind (within_attributeOf hcontext _) fun metadata hmetadata => ?_
  refine within_bind (within_attributeOf hmetadata _) fun count hcount => ?_
  refine within_bind (within_attributeOf hmetadata _) fun depth hdepth => ?_
  refine within_bind (within_timeZone hmetadata) fun zone hzone => ?_
  exact Action.within_make (has_cell_dict.mpr
    (by simp [hoperations, hvalidators, hcount, hdepth, hzone]))

@[grind ←]
theorem within_describe (hv : sc.Has v) : Within sc (describe v) := by
  unfold describe
  refine within_bind (within_attributeOf hv _) fun operations hoperations => ?_
  refine within_bind (within_attributeOf hv _) fun given hgiven => ?_
  refine within_get_eq fun s t h => ⟨?_, ?_⟩
  · dsimp only
    rw [Builder.validatorNames_eq h.toSameStore hgiven]
  · dsimp only
    split
    · exact within_bind (within_pure (has_null sc)) fun validators hvalidators =>
        within_describeWith hoperations hvalidators hv
    · refine within_bind (Action.within_make (has_cell_list.mpr ?_))
        fun validators hvalidators => ?_
      · exact has_map fun _ _ => has_str sc _
      · exact within_describeWith hoperations hvalidators hv

end Context

/-! ## Executors -/

namespace Executor

@[grind ←]
theorem within_parts (hv : sc.Has v) : Within sc (parts v) := by
  unfold parts
  refine within_get_eq fun s t h => ⟨?_, ?_⟩
  · dsimp only
    rw [h.item hv (has_int sc 0), h.view hv, h.elements hv]
  · refine within_bind (within_ofExcept (h.closed.item hv _)) fun name hname => ?_
    split
    · exact within_fault _
    · exact within_fault _
    · exact within_bind (within_ofExcept (h.closed.elements hv)) fun xs hxs =>
        within_pure ⟨hname, hxs.drop 1⟩

@[grind ←]
theorem within_policyOf (hv : sc.Has v) : Within sc (policyOf v) := by
  unfold policyOf
  refine within_get_eq fun s t h => ⟨?_, ?_⟩
  · dsimp only
    rw [h.view hv, h.truth hv]
  · dsimp only
    split
    · exact within_pure (has_some.mpr (has_ref.mp hv))
    · split
      · exact within_fault _
      · exact within_pure (has_none sc)

@[grind ←]
theorem within_echo (hv : sc.Has v) : Within sc (echo v) := by
  unfold echo
  refine within_bind (within_attributeOf hv _) fun recorded hrecorded => ?_
  refine within_bind (within_iterate hrecorded) fun operations hoperations => ?_
  refine within_bind (within_mapM hoperations fun o ho => ?_) fun lists hlists =>
    within_make (has_cell_list.mpr hlists)
  exact within_bind (within_iterate ho) fun xs hxs => within_make (has_cell_list.mpr hxs)

@[grind ←]
theorem within_behave (behaviour : Behaviour) (hv : sc.Has v) (hw : sc.Has w) :
    Within sc (behave behaviour v w) := by
  unfold behave
  split
  · exact within_echo hw
  · exact within_pure hv
  · exact within_throw _
  · exact within_make (has_cell_work.mpr (has_ok.mpr hv))
  · exact within_make (has_cell_work.mpr (has_error sc _))
  · exact within_make (has_cell_work.mpr (has_error sc _))

section

variable {caller : Caller} (hcaller : WithinCaller sc caller)
include hcaller

@[grind ←]
theorem within_perform {current name : Value} (hcurrent : sc.Has current) (hname : sc.Has name)
    (hargs : sc.Has args) : Within sc (perform caller current name args) := by
  have hunknown : Within sc (do
      Action.refuse (.unknownOperation (← Action.look (Store.text · name))) : Action Value) :=
    within_bind (within_look fun _ _ h => ⟨h.text hname, has_inert sc _⟩) fun _ _ => within_refuse _
  unfold perform
  dsimp only
  split
  · refine within_bind (within_attribute? hcurrent _) fun found hfound => ?_
    split
    · have hf := has_some.mp hfound
      refine within_get_eq fun s t h => ⟨by rw [h.isCallable hf], ?_⟩
      split
      · exact hcaller _ _ hf hargs
      · exact hunknown
    · exact Request.within_answer hcaller _ hcurrent hargs
    · exact hunknown
  · exact within_fault _

theorem within_replay {operations : List Value} (hoperations : sc.Has operations) :
    ∀ {current : Value}, sc.Has current → Within sc (replay caller current operations) := by
  induction operations with
  | nil => exact fun hcurrent => within_pure hcurrent
  | cons operation rest ih =>
    intro current hcurrent
    obtain ⟨hoperation, hrest⟩ := has_cons.mp hoperations
    unfold replay
    refine within_bind (within_parts hoperation) fun given hgiven => ?_
    have hname : sc.Has given.1 := has_fst hgiven
    refine within_bind (within_perform hcaller hcurrent hname (has_snd hgiven)) fun next hnext => ?_
    refine within_get_eq fun s t h => ⟨by rw [h.collection? hnext], ?_⟩
    split
    · exact within_pure hnext
    · exact ih hrest hnext
    · refine within_bind (within_parts (has_cons.mp hrest).1) fun after hafter => ?_
      have hfollowing : sc.Has after.1 := has_fst hafter
      refine within_bind (within_look fun _ _ h => ⟨h.text hfollowing, has_inert sc _⟩)
        fun _ _ => ?_
      exact within_bind (within_look fun _ _ h => ⟨h.text hname, has_inert sc _⟩) fun _ _ =>
        within_refuse _

@[grind ←]
theorem within_runOver {items policy context : Value} (hitems : sc.Has items)
    (hpolicy : sc.Has policy) (hcontext : sc.Has context) :
    Within sc (runOver caller items policy context) := by
  unfold runOver
  refine within_bind (within_deepCopy (has_cons.mpr ⟨hitems, has_nil sc⟩)) fun copies hcopies => ?_
  refine within_bind (within_attributeOf hcontext _) fun validators hvalidators => ?_
  refine within_bind (within_policyOf hpolicy) fun policy hpolicy => ?_
  have hcopy : sc.Has (copies.headD .null) := by
    cases copies with
    | nil => exact has_null sc
    | cons x xs => exact (has_cons.mp hcopies).1
  refine within_bind (Collection.within_construct hcopy hvalidators hpolicy (has_none sc))
    fun a ha => ?_
  refine within_bind (within_attributeOf hcontext _) fun recorded hrecorded => ?_
  refine within_bind (within_iterate hrecorded) fun operations hoperations => ?_
  refine within_bind (within_replay hcaller hoperations (has_ref.mpr ha)) fun result hresult => ?_
  exact within_bind (within_look fun _ _ h => ⟨h.length hitems, has_inert sc _⟩) fun _ _ =>
    within_plain hresult

@[grind ←]
theorem within_call {executor : Executor} (ha : sc.Has a) (hexecutor : sc.Has executor)
    (hargs : sc.Has args) : Within sc (call caller a executor args) := by
  unfold call
  split
  · obtain ⟨hitems, hpolicy⟩ := has_memory.mp hexecutor
    exact within_runOver hcaller hitems hpolicy (has_cons.mp hargs).1
  · obtain ⟨hvalue, hcontexts⟩ := has_recorder.mp hexecutor
    have hcontext := (has_cons.mp hargs).1
    refine within_bind (within_write ha ?_) fun _ _ => within_behave _ hvalue hcontext
    exact has_cell_executor.mpr (has_recorder.mpr ⟨hvalue, Collection.has_kept hcontexts hcontext⟩)
  · exact within_fault _

end

end Executor

/-! ## Executions -/

namespace Builder

@[grind ←]
theorem within_read (ha : sc.Has a) : Within sc (read a) := by
  refine within_bind (within_cell ha) fun c hc => ?_
  cases c with
  | builder b => exact within_pure (has_cell_builder.mp hc)
  | _ => exact within_fault _

@[grind ←]
theorem within_keep (ha : sc.Has a) (he : sc.Has e) : Within sc (keep a e) := by
  unfold keep
  refine within_bind (within_read ha) fun b hb => within_write ha ?_
  obtain ⟨hexecutor, hvalidators, hshown, hoperations, -⟩ := has_builder_iff.mp hb
  exact has_cell_builder.mpr ⟨hexecutor, hvalidators, hshown, hoperations, has_some.mpr he⟩

theorem has_mapError {r : Except Error Value} (hr : sc.Has r) (f : Error → Error) :
    sc.Has (r.mapError f) := by
  cases r with
  | ok x => exact hr
  | error e => exact has_error sc _

theorem has_following {started : Except Error Execution} (h : sc.Has started) :
    sc.Has (Execution.following started) := by
  cases started with
  | ok e =>
    have he : sc.Has e := has_ok.mp h
    exact has_execution_iff.mpr (has_execution_iff.mp he)
  | error x => exact has_execution_iff.mpr (has_error sc x)

section

variable {follow : Address → Action Execution} (hfollow : ∀ a, sc.Has a → Within sc (follow a))
include hfollow

theorem within_executionOf (hv : sc.Has v) : Within sc (executionOf follow v) := by
  unfold executionOf
  refine within_get_eq fun s t h => ⟨by rw [h.view hv], ?_⟩
  split
  · rename_i o hview
    have ho := has_cell_work.mp (h.closed.has_of_view hv hview)
    exact within_pure (has_mapError ho _)
  · exact within_bind (within_lift_run (hfollow _ (has_ref.mp hv))) fun started hstarted =>
      within_pure (has_following hstarted)
  · exact within_pure (has_ok.mpr hv)

variable {caller : Caller} (hcaller : WithinCaller sc caller)
include hcaller

theorem within_start (hb : sc.Has b) : Within sc (start caller follow b) := by
  obtain ⟨hexecutor, hvalidators, hshown, -, -⟩ := has_builder_iff.mp hb
  unfold start
  refine within_bind (within_ofExcept (has_inert sc _)) fun _ _ => ?_
  refine within_bind (Context.within_make hshown hvalidators _) fun context hcontext => ?_
  have hargs : sc.Has [context] := has_cons.mpr ⟨hcontext, has_nil sc⟩
  refine within_bind (within_lift_run (hcaller _ _ hexecutor hargs)) fun r hr => ?_
  cases r with
  | ok v => exact within_executionOf hfollow (has_ok.mp hr)
  | error x =>
    dsimp only
    split
    · exact within_throw _
    · exact within_pure (has_error sc x)

end

section

variable {caller : Caller} (hcaller : WithinCaller sc caller)
include hcaller

/-- Starting an execution stays within a scope, however long the chain of builders that wait for
each other. -/
theorem within_ensureStartedAt (fuel : Nat) : ∀ a, sc.Has a →
    Within sc (ensureStartedAt caller fuel a) := by
  induction fuel with
  | zero => exact fun _ _ => within_fault _
  | succ fuel ih =>
    intro a ha
    unfold ensureStartedAt
    refine within_bind (within_read ha) fun b hb => ?_
    have hexecution := (has_builder_iff.mp hb).2.2.2.2
    split
    · rename_i e he
      exact within_pure (hexecution e he)
    · refine within_bind (within_start ih hcaller hb) fun e he => ?_
      exact within_bind (within_keep ha he) fun _ _ => within_pure he

@[grind ←]
theorem within_ensureStarted (ha : sc.Has a) : Within sc (ensureStarted caller a) :=
  within_ensureStartedAt hcaller chainLength a ha

/-- Whoever waits for a builder of a scope stays within the scope. -/
@[grind ←]
theorem within_await (ha : sc.Has a) : Within sc (await caller a) := by
  unfold await settle
  refine within_bind (within_bind (within_ensureStarted hcaller ha) fun e he => ?_) fun o ho =>
    within_ofExcept ho
  exact within_bind (within_keep ha (e := e.settle) he) fun _ _ => within_pure he

@[grind ←]
theorem within_cancel (ha : sc.Has a) : Within sc (cancel caller a) := by
  unfold cancel
  refine within_bind (within_ensureStarted hcaller ha) fun e he => ?_
  refine within_bind (within_keep ha (e := e.settle) he) fun _ _ => ?_
  split
  · exact within_ofExcept he
  · exact within_throw _

end

end Builder

end Recordset
