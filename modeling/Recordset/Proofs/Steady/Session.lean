import Recordset.Proofs.Parts
import Recordset.Proofs.Steady.Collection
set_option autoImplicit false

/-!
# Sessions are steady

Builders, executors, builtin functions, methods called by name and callbacks.  A callback can do no
more than call what is steady itself, so that by induction on the depth of calls every call is
steady: `steady_apply`.
-/

namespace Recordset

open Recordset.Action

/-! ## Deferred queries -/

namespace Builder

@[grind ←]
theorem steady_operation (parts : List Value) : Steady (operation parts) := by
  unfold operation
  grind

@[grind ←]
theorem steady_record (b : Builder) (o : Operation) : Steady (b.record o) := by
  unfold record
  grind

@[grind ←]
theorem steady_chain (b : Builder) (m : Method) (args : Arguments) :
    Steady (b.chain m args) := by
  unfold chain
  grind

@[grind ←]
theorem steady_describe (o : Operation) : Steady (describe o) := by
  unfold describe
  grind

@[grind ←]
theorem steady_details (b : Builder) : Steady b.details := by
  unfold details
  grind

@[grind ←]
theorem steady_explain (b : Builder) (format : Value) : Steady (b.explain format) := by
  unfold explain
  grind

end Builder

namespace Context

@[grind ←]
theorem steady_make (shown validators : Value) (count : Nat) :
    Steady (make shown validators count) := by
  unfold make
  grind

@[grind ←]
theorem steady_timeZone (metadata : Value) : Steady (timeZone metadata) := by
  unfold timeZone
  grind

@[grind ←]
theorem steady_describe (context : Value) : Steady (describe context) := by
  unfold describe
  refine steady_bind (steady_attributeOf _ _) fun operations => ?_
  refine steady_bind (steady_attributeOf _ _) fun given => steady_bind steady_get fun s => ?_
  dsimp only
  split
  · grind
  · grind

end Context

namespace Executor

@[grind ←]
theorem steady_parts (operation : Value) : Steady (parts operation) := by
  unfold parts
  grind

@[grind ←]
theorem steady_policyOf (policy : Value) : Steady (policyOf policy) := by
  unfold policyOf
  grind

@[grind ←]
theorem steady_echo (context : Value) : Steady (echo context) := by
  unfold echo
  grind

@[grind ←]
theorem steady_behave (b : Behaviour) (value context : Value) :
    Steady (behave b value context) := by
  unfold behave
  grind

section

variable {caller : Caller} (hcaller : SteadyCaller caller)
include hcaller

@[grind ←]
theorem steady_perform (current name : Value) (args : List Value) :
    Steady (perform caller current name args) := by
  unfold perform
  grind

theorem steady_replay (operations : List Value) :
    ∀ current, Steady (replay caller current operations) := by
  induction operations with
  | nil => exact fun current => steady_pure current
  | cons operation rest ih =>
    intro current
    unfold replay
    refine steady_bind (steady_parts operation) fun parts => ?_
    refine steady_bind (steady_perform hcaller current parts.1 parts.2) fun next => ?_
    grind

@[grind ←]
theorem steady_runOver (items policy context : Value) :
    Steady (runOver caller items policy context) := by
  unfold runOver
  refine steady_bind (steady_deepCopy _) fun copies => ?_
  refine steady_bind (steady_attributeOf _ _) fun validators => ?_
  grind [steady_replay]

/-- An executor is called with a context. -/
theorem steadyFrom_call {s : State} {a : Address} {e : Executor}
    (he : s.store.cell? a = some (.executor e)) (args : List Value) :
    SteadyFrom s (call caller a e args) := by
  unfold call
  split
  · exact steady_runOver hcaller _ _ _ s
  · exact steadyFrom_bind (steadyFrom_write he (.executor _ _)) fun _ => steady_behave _ _ _
  · exact steady_fault _ s

end

end Executor

namespace Builder

@[grind ←]
theorem steady_read (a : Address) : Steady (read a) := by
  unfold read
  grind

@[grind ←]
theorem steady_keep (a : Address) (e : Execution) : Steady (keep a e) := by
  unfold keep read
  rw [bind_assoc]
  refine steady_cell_bind fun c s hc => ?_
  cases c with
  | builder b => exact steadyFrom_write hc (.builder b (some e))
  | _ => exact .refl s

theorem steady_executionOf {follow : Address → Action Execution}
    (hfollow : ∀ a, Steady (follow a)) (v : Value) : Steady (executionOf follow v) := by
  unfold executionOf
  refine steady_bind steady_get fun s => ?_
  split
  · exact steady_pure _
  · exact steady_bind (steady_lift (steadily_run (hfollow _))) fun _ => steady_pure _
  · exact steady_pure _

section

variable {caller : Caller} (hcaller : SteadyCaller caller)
include hcaller

theorem steady_start {follow : Address → Action Execution} (hfollow : ∀ a, Steady (follow a))
    (b : Builder) : Steady (start caller follow b) := by
  unfold start
  refine steady_bind (steady_ofExcept _) fun _ => ?_
  refine steady_bind (Context.steady_make _ _ _) fun context => ?_
  refine steady_bind (steady_lift (steadily_run (hcaller _ _))) fun r => ?_
  cases r with
  | ok v => exact steady_executionOf hfollow v
  | error e => grind

/-- Starting an execution is steady, however long the chain of builders that wait for each
other. -/
theorem steady_ensureStartedAt (fuel : Nat) :
    ∀ a, Steady (ensureStartedAt caller fuel a) := by
  induction fuel with
  | zero => exact fun a => steady_fault _
  | succ fuel ih =>
    intro a
    unfold ensureStartedAt
    refine steady_bind (steady_read a) fun b => ?_
    cases b.execution with
    | some e => exact steady_pure e
    | none =>
      refine steady_bind (steady_start hcaller ih b) fun e => ?_
      exact steady_bind (steady_keep a e) fun _ => steady_pure e

@[grind ←]
theorem steady_ensureStarted (a : Address) : Steady (ensureStarted caller a) :=
  steady_ensureStartedAt hcaller chainLength a

@[grind ←]
theorem steady_await (a : Address) : Steady (await caller a) := by
  unfold await settle
  grind

@[grind ←]
theorem steady_cancel (a : Address) : Steady (cancel caller a) := by
  unfold cancel
  grind

end

end Builder

/-! ## Builtin functions -/

namespace Builtin

@[grind ←]
theorem steady_whole (v : Value) : Steady (whole v) := by
  unfold whole ofReading
  grind

@[grind ←]
theorem steady_best (c : Comparison) (first : Value × Value) (rest : Ranked) :
    Steady (best c first rest) := by
  unfold best
  grind

@[grind ←]
theorem steady_candidates (args : List Value) : Steady (candidates args) := by
  unfold candidates
  grind

variable {caller : Caller} (hcaller : SteadyCaller caller)
include hcaller

@[grind ←]
theorem steady_ranked (key : Value) (vs : List Value) : Steady (ranked caller key vs) := by
  unfold ranked
  grind

@[grind ←]
theorem steady_extreme (c : Comparison) (key : Value) (vs : List Value) :
    Steady (extreme caller c key vs) := by
  unfold extreme
  grind

@[grind ←]
theorem steady_extremeOf (c : Comparison) (args : List Value) (named : List (String × Value)) :
    Steady (extremeOf caller c args named) := by
  unfold extremeOf
  grind

@[grind ←]
theorem steady_total (v start : Value) : Steady (total caller v start) := by
  unfold total
  grind

@[grind ←]
theorem steady_ascending (v key backwards : Value) :
    Steady (ascending caller v key backwards) := by
  unfold ascending
  grind

@[grind ←]
theorem steady_call (b : Builtin) (args : Arguments) : Steady (b.call caller args) := by
  unfold call
  grind

end Builtin

/-! ## Methods called by name -/

namespace Invoke

@[grind ←]
theorem steady_attributeName (args : Arguments) : Steady (attributeName args) := by
  unfold attributeName
  grind

@[grind ←]
theorem steady_isSame (v : Value) (args : Arguments) : Steady (isSame v args) := by
  unfold isSame
  grind

@[grind ←]
theorem steady_nameList (v : Value) : Steady (nameList v) := by
  unfold nameList
  grind

@[grind ←]
theorem steady_sortedNames (names : List String) : Steady (sortedNames names) := by
  unfold sortedNames
  grind

@[grind ←]
theorem steady_onRegistry (a : Address) (name : String) (args : Arguments) :
    Steady (onRegistry a name args) := by
  unfold onRegistry
  refine steady_bind steady_get fun s => ?_
  dsimp only
  split
  · exact steady_fault _
  · refine steady_bind (steady_ofExcept _) fun values => ?_
    split
    · grind
    · grind
    · grind
    · split
      · exact steady_bind (steady_pure _) fun names => by grind
      · exact steady_bind (steady_nameList _) fun names => by grind
    · grind
    · grind

variable {caller : Caller} (hcaller : SteadyCaller caller)
include hcaller

@[grind ←]
theorem steady_request (r : Request) (v : Value) (args : Arguments) :
    Steady (request caller r v args) := by
  unfold request
  grind

@[grind ←]
theorem steady_onBuilder (a : Address) (b : Builder) (name : String) (args : Arguments) :
    Steady (onBuilder caller a b name args) := by
  unfold onBuilder
  grind

@[grind ←]
theorem steady_onCell (a : Address) (name : String) (args : Arguments) :
    Steady (onCell caller a name args) := by
  unfold onCell
  grind

end Invoke

section

variable {caller : Caller} (hcaller : SteadyCaller caller)
include hcaller

@[grind ←]
theorem steady_callWith (f : Value) : ∀ args, Steady (callWith caller f args) := by
  induction f with
  | extension serial g receiver ih =>
    intro args
    unfold callWith
    exact ih _
  | _ =>
    intro args
    unfold callWith
    grind

@[grind ←]
theorem Invoke.steady_onAttribute (v : Value) (name : String) (args : Arguments) :
    Steady (onAttribute caller v name args) := by
  unfold onAttribute
  grind

@[grind ←]
theorem Invoke.steady_onValue (v : Value) (name : String) (args : Arguments) :
    Steady (onValue caller v name args) := by
  unfold onValue
  refine steady_get_bind fun s => ?_
  dsimp only
  split
  case h_3 a xs x hview =>
    exact steadyFrom_bind (steadyFrom_write hview (.list xs _)) fun _ => steady_pure _
  all_goals
    apply steadyFrom_of_steady
    grind

@[grind ←]
theorem steady_invoke (v : Value) (name : String) (args : Arguments) :
    Steady (invoke caller v name args) := by
  unfold invoke
  grind

end

/-! ## Callbacks -/

namespace Action

@[grind ←]
theorem steady_record (v : Value) : Steady (record v) :=
  steady_modify fun _ => State.evolves_of_store rfl

@[grind ←]
theorem steady_makeSet (vs : List Value) : Steady (makeSet vs) := by
  unfold makeSet
  grind

@[grind ←]
theorem steady_makeEntries (keys values : List Value) : Steady (makeEntries keys values) := by
  unfold makeEntries
  grind

@[grind ←]
theorem steady_makeCollection (items : List Value) : Steady (makeCollection items) := by
  unfold makeCollection
  grind

@[grind ←]
theorem steady_makeMemory (items policy : Value) : Steady (makeMemory items policy) := by
  unfold makeMemory
  grind

end Action

namespace Expr

/-! ## Groups of expressions -/

section

variable {caller : Caller} {frame : Frame} {e : Expr}

/-- Several expressions are steady, where each of them is. -/
theorem steady_evalAll {es : List Expr} (hes : ∀ p ∈ es, Steady (p.eval caller frame)) :
    Steady (evalAll caller frame es) := by
  induction es with
  | nil => exact steady_pure []
  | cons e es ih =>
    unfold evalAll
    refine steady_bind (hes e (.head _)) fun v => ?_
    exact steady_bind (ih fun p hp => hes p (.tail _ hp)) fun vs => steady_pure _

theorem steady_evalLeaf (hgroup : e.group = .leaf) : Steady (e.eval caller frame) := by
  cases e with
  | lit v => exact steady_pure v
  | bound name => exact steady_lookup name
  | nan => exact steady_number _
  | pattern source ignoreCase =>
    unfold eval
    grind
  | hostile | unsteady | args | function _ _ _ => exact steady_make _
  | arg i => exact steady_pure _
  | outer i => exact steady_ofExcept _
  | raise kind message => exact steady_throw _
  | _ => cases hgroup

theorem steady_evalTest (hgroup : e.group = .test)
    (hparts : ∀ p ∈ e.parts, Steady (p.eval caller frame)) : Steady (e.eval caller frame) := by
  cases e with
  | both left right | either left right =>
    have hright := hparts right (.tail _ (.head _))
    unfold eval Expression.truthOf
    exact steady_bind (hparts left (.head _)) fun v => by grind
  | not e =>
    unfold eval Expression.truthOf
    exact steady_bind (hparts e (.head _)) fun v => by grind
  | cond test yes no =>
    have hyes := hparts yes (.tail _ (.head _))
    have hno := hparts no (.tail _ (.tail _ (.head _)))
    unfold eval Expression.truthOf
    exact steady_bind (hparts test (.head _)) fun v => by grind
  | _ => cases hgroup

theorem steady_evalOperation (hcaller : SteadyCaller caller) (hgroup : e.group = .operation)
    (hparts : ∀ p ∈ e.parts, Steady (p.eval caller frame)) : Steady (e.eval caller frame) := by
  cases e with
  | get e f | item e f | binary _ e f =>
    unfold eval
    refine steady_bind (hparts e (.head _)) fun v => ?_
    exact steady_bind (hparts f (.tail _ (.head _))) fun w => by grind
  | length e | text e | log e =>
    unfold eval
    exact steady_bind (hparts e (.head _)) fun v => by grind
  | seq es =>
    unfold eval
    exact steady_bind (steady_evalAll hparts) fun vs => steady_pure _
  | assign target key value =>
    unfold eval
    refine steady_bind (hparts target (.head _)) fun t => ?_
    refine steady_bind (hparts key (.tail _ (.head _))) fun k => ?_
    exact steady_bind (hparts value (.tail _ (.tail _ (.head _)))) fun v => by grind
  | call receiver method es =>
    unfold eval
    refine steady_bind (hparts receiver (.head _)) fun r => ?_
    refine steady_bind (steady_evalAll fun p hp => hparts p (.tail _ hp)) fun vs => ?_
    exact steady_invoke hcaller r method _
  | _ => cases hgroup

theorem steady_making {α : Type} {x : Action α} (hx : Steady x) (cell : α → Cell) :
    Steady (do Action.make (cell (← x))) :=
  steady_bind hx fun _ => steady_make _

theorem steady_evalContainer (hgroup : e.group = .container)
    (hparts : ∀ p ∈ e.parts, Steady (p.eval caller frame)) : Steady (e.eval caller frame) := by
  cases e with
  | list es | tuple es | iterator es | object _ es | custom _ _ es =>
    unfold eval
    exact steady_making (steady_evalAll hparts) _
  | set es =>
    unfold eval
    exact steady_bind (steady_evalAll hparts) fun vs => steady_makeSet vs
  | collection es =>
    unfold eval
    exact steady_bind (steady_evalAll hparts) fun vs => steady_makeCollection vs
  | dict keys values | frozen keys values =>
    unfold eval
    refine steady_bind (steady_evalAll fun p hp => hparts p (List.mem_append_left _ hp))
      fun ks => ?_
    refine steady_bind (steady_evalAll fun p hp => hparts p (List.mem_append_right _ hp))
      fun vs => ?_
    exact steady_making (steady_makeEntries ks vs) _
  | _ => cases hgroup

theorem steady_evalExecutor (hgroup : e.group = .executor)
    (hparts : ∀ p ∈ e.parts, Steady (p.eval caller frame)) : Steady (e.eval caller frame) := by
  cases e with
  | memory items policy =>
    cases policy with
    | none =>
      unfold eval
      exact steady_bind (hparts items (.head _)) fun v => steady_makeMemory v _
    | some policy =>
      obtain ⟨perPage, separator, direction, seed⟩ := policy
      simp only [parts, List.forall_mem_cons] at hparts
      obtain ⟨hitems, hperPage, hseparator, hdirection, hseed, -⟩ := hparts
      unfold eval
      refine steady_bind hitems fun v => steady_bind hperPage fun p => ?_
      refine steady_bind hseparator fun q => steady_bind hdirection fun d => ?_
      exact steady_bind hseed fun r => by grind
  | recorder behaviour value =>
    unfold eval
    exact steady_making (hparts value (.head _)) _
  | _ => cases hgroup

theorem steady_eval (hcaller : SteadyCaller caller) (frame : Frame) (e : Expr) :
    Steady (e.eval caller frame) := by
  induction e using byParts with
  | step e hparts =>
    cases hgroup : e.group with
    | leaf => exact steady_evalLeaf hgroup
    | test => exact steady_evalTest hgroup hparts
    | operation => exact steady_evalOperation hcaller hgroup hparts
    | container => exact steady_evalContainer hgroup hparts
    | executor => exact steady_evalExecutor hgroup hparts

end

attribute [grind ←] steady_eval

end Expr

namespace Function

variable {caller : Caller} (hcaller : SteadyCaller caller)
include hcaller

@[grind ←]
theorem steady_produce (check : Option Expr) (answer : FactoryAnswer) (path operand : Value) :
    Steady (produce caller check answer path operand) := by
  unfold produce
  grind

@[grind ←]
theorem steady_run (f : Function) (args : List Value) : Steady (f.run caller args) := by
  unfold run
  grind

end Function

/-- Calls are steady at every depth. -/
theorem steady_applyAt (depth : Nat) : SteadyCaller (applyAt depth) := by
  induction depth with
  | zero => exact fun f args => steady_fault _
  | succ depth ih =>
    intro f args
    unfold applyAt
    cases f with
    | builtin b => exact Builtin.steady_call ih b _
    | extension serial g receiver => exact ih g _
    | method serial a name => exact Invoke.steady_onCell ih a name _
    | ref a =>
      refine steady_cell_bind fun c s hc => ?_
      cases c with
      | function g => exact Function.steady_run ih g args s
      | executor e => exact Executor.steadyFrom_call ih hc args
      | _ => exact steady_fault _ s
    | _ => exact steady_fault _

/-- Calls are steady. -/
theorem steady_apply : SteadyCaller apply := steady_applyAt callDepth

end Recordset
