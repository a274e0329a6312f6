import Recordset.Proofs.Calls
import Recordset.Proofs.Query.Optimize
set_option autoImplicit false

/-!
# Optimizing reaches a normal form

In a normal expression no conjunction is a part of a conjunction, and no negation is negated
(`Expression.IsNormal`).  An optimized expression is normal, and optimizing a normal one gives it
back.

Merging and dropping leave not only the answers alone but also the calls that are made to find them:
`Expression.calls` lists the predicates that an expression calls on an item, with their arguments
and in order.  `Expression.optimize_faithful_and_normal` is the main statement.
-/

namespace Recordset.Expression

/-! ## The calls of an expression -/

section

variable (caller : Caller) (item : Value) (index : Int)

/-- The call of a predicate on an item, and on its index when the predicate takes two arguments. -/
def predicateCall (f : Value) (s : State) : FunctionCall :=
  if Callback.isNarrow s.store f 2 then
    ⟨f, [item, .int index].take (Callback.arity s.store f)⟩
  else ⟨f, [item, .int index]⟩

mutual
/-- The calls that an expression makes on an item, from a state on. -/
def calls : Expression → State → List FunctionCall
  | all parts, s => callsAll parts s
  | not inner, s => calls inner s
  | always, _ => []
  | term _ _ _, _ => []
  | custom _ _ f, _ => [⟨f, [item]⟩]
  | predicate f, s => [predicateCall item index f s]

/-- The calls of a conjunction: those of its parts, up to the first part that does not hold. -/
def callsAll : List Expression → State → List FunctionCall
  | [], _ => []
  | e :: es, s =>
    match (test caller item index e).execute s with
    | (.ok true, t) => calls e s ++ callsAll es t
    | _ => calls e s
end

/-- What a predicate gives counts as true or not without a call. -/
theorem silent_truthOf (v : Value) (s : State) : Action.Silent (fun _ => truthOf v) s :=
  fun _ _ => rfl

/-- A predicate is called once. -/
theorem makes_predicate (f : Value) (s : State) :
    Action.Makes caller (fun c => Callback.call c f 2 [item, .int index]) s
      [predicateCall item index f s] := by
  have hone : ∀ args, Action.Makes caller (fun c => c f args) s [⟨f, args⟩] := fun args =>
    Action.makes_call f args s
  unfold predicateCall
  by_cases hnarrow : Callback.isNarrow s.store f 2 = true
  · rw [if_pos hnarrow]
    refine (hone _).congr fun c => ?_
    unfold Callback.call
    rw [Action.execute_get_bind, if_pos hnarrow]
  · rw [if_neg hnarrow]
    refine (hone _).congr fun c => ?_
    unfold Callback.call
    rw [Action.execute_get_bind, if_neg hnarrow]

mutual

/-- An expression makes its calls when it is tested. -/
theorem makes_test : ∀ (e : Expression) (s : State),
    Action.Makes caller (fun c => e.test c item index) s (e.calls caller item index s)
  | .all es, s => by
    rw [calls]
    exact (makes_testAll es s).congr fun c => by rw [test]
  | .not e, s => by
    rw [calls]
    refine ((makes_test e s).bind_silent (f := fun b _ => pure !b) fun _ _ _ _ => rfl).congr ?_
    intro c
    rw [test]
  | .always, s => by
    rw [calls]
    exact .silent fun c d => by rw [test, test]
  | .term path op operand, s => by
    rw [calls]
    exact .silent fun c d => by rw [test, test]
  | .custom path symbol f, s => by
    rw [calls]
    refine ((Action.makes_call f [item] s).bind_silent (f := fun v _ => truthOf v) ?_).congr ?_
    · exact silent_truthOf
    · intro c
      rw [test]
  | .predicate f, s => by
    rw [calls]
    refine ((makes_predicate caller item index f s).bind_silent (f := fun v _ => truthOf v)
      ?_).congr ?_
    · exact silent_truthOf
    · intro c
      rw [test]

/-- A conjunction makes its calls when its parts are tested. -/
theorem makes_testAll : ∀ (es : List Expression) (s : State),
    Action.Makes caller (fun c => testAll c item index es) s (callsAll caller item index es s)
  | [], s => by
    rw [callsAll]
    exact .silent fun c d => by rw [testAll_nil, testAll_nil]
  | e :: es, s => by
    have hfirst := makes_test e s
    let next : Bool → Caller → Action Bool := fun b c =>
      if b then testAll c item index es else pure false
    have hcons : ∀ c, (testAll c item index (e :: es)).execute s =
        (test c item index e >>= fun b => next b c).execute s := fun c => by rw [testAll_cons]
    rw [callsAll]
    cases hrun : (test caller item index e).execute s with
    | mk r t =>
      cases r with
      | error x => exact (hfirst.bind_of_error hrun).congr hcons
      | ok b =>
        cases b with
        | false =>
          have hnone : Action.Makes caller (next false) t [] := .silent fun c d => rfl
          simpa using (hfirst.bind_of_ok hrun hnone).congr hcons
        | true => exact (hfirst.bind_of_ok hrun (makes_testAll es t)).congr hcons

end

/-! ### What optimizing does to the calls -/

@[simp] theorem callsAll_nil (s : State) : callsAll caller item index [] s = [] := by
  rw [callsAll]

theorem callsAll_cons (e : Expression) (es : List Expression) (s : State) :
    callsAll caller item index (e :: es) s =
      match (test caller item index e).execute s with
      | (.ok true, t) => calls caller item index e s ++ callsAll caller item index es t
      | _ => calls caller item index e s := by
  rw [callsAll]

/-- A conjunction of one part makes the calls of that part. -/
@[simp] theorem callsAll_singleton (e : Expression) (s : State) :
    callsAll caller item index [e] s = calls caller item index e s := by
  rw [callsAll_cons]
  split <;> simp

/-- A conjunction comes to the calls of its second half when its first half holds. -/
theorem callsAll_append (ds es : List Expression) : ∀ s : State,
    callsAll caller item index (ds ++ es) s =
      match (testAll caller item index ds).execute s with
      | (.ok true, t) => callsAll caller item index ds s ++ callsAll caller item index es t
      | _ => callsAll caller item index ds s := by
  induction ds with
  | nil => intro s; simp
  | cons d ds ih =>
    intro s
    rw [List.cons_append, callsAll_cons, callsAll_cons, testAll_cons, Action.execute_bind]
    cases hrun : (test caller item index d).execute s with
    | mk r t =>
      cases r with
      | error x => rfl
      | ok b =>
        cases b with
        | false => rfl
        | true =>
          simp only [if_true]
          rw [ih t]
          split <;> simp

/-- What an expression contributes to a conjunction makes the calls of the expression. -/
theorem callsAll_parts (e : Expression) (s : State) :
    callsAll caller item index e.parts s = calls caller item index e s := by
  cases e with
  | all es => rw [parts, calls]
  | _ => simp [parts]

theorem calls_not (e : Expression) (s : State) :
    calls caller item index (.not e) s = calls caller item index e s := by
  rw [calls]

/-- A negation makes the calls of what it negates, also when a double negation is dropped. -/
theorem calls_negate (e : Expression) (s : State) :
    calls caller item index e.negate s = calls caller item index e s := by
  cases e with
  | not inner => exact (calls_not caller item index inner s).symm
  | _ => exact calls_not caller item index _ s

mutual

/-- An optimized expression makes the same calls as the expression. -/
theorem calls_optimize : ∀ (e : Expression) (s : State),
    calls caller item index e.optimize s = calls caller item index e s
  | .all es, s => by rw [optimize, calls, calls, callsAll_optimizeParts es]
  | .not inner, s => by rw [optimize, calls_negate, calls_not, calls_optimize inner]
  | .always, _ | .term _ _ _, _ | .custom _ _ _, _ | .predicate _, _ => rfl

/-- The merged parts of a conjunction make the same calls as the parts. -/
theorem callsAll_optimizeParts : ∀ (es : List Expression) (s : State),
    callsAll caller item index (optimizeParts es) s = callsAll caller item index es s
  | [], s => by rw [optimizeParts]
  | e :: es, s => by
    rw [optimizeParts, callsAll_append, testAll_parts, test_optimize, callsAll_parts,
      calls_optimize e, callsAll_cons]
    split
    · rw [callsAll_optimizeParts es]
    · rfl

end

end

/-! ## Normal expressions -/

/-- Whether an expression is a conjunction. -/
def IsConjunction : Expression → Prop
  | all _ => True
  | _ => False

/-- Whether an expression is a negation. -/
def IsNegation : Expression → Prop
  | not _ => True
  | _ => False

/-- At no depth is a conjunction a part of a conjunction, or a negation negated. -/
inductive IsNormal : Expression → Prop where
  | all {es : List Expression} (hparts : ∀ e ∈ es, IsNormal e)
    (hflat : ∀ e ∈ es, ¬ IsConjunction e) : IsNormal (all es)
  | not {e : Expression} (hinner : IsNormal e) (hsingle : ¬ IsNegation e) : IsNormal (not e)
  | always : IsNormal always
  | term (path : Value) (op : Operator) (operand : Value) : IsNormal (term path op operand)
  | custom (path : Value) (symbol : String) (f : Value) : IsNormal (custom path symbol f)
  | predicate (f : Value) : IsNormal (predicate f)

/-- A normal expression contributes normal parts to a conjunction, none of them a conjunction. -/
theorem IsNormal.parts {e : Expression} (h : e.IsNormal) :
    ∀ d ∈ e.parts, d.IsNormal ∧ ¬ IsConjunction d := by
  cases h with
  | all hparts hflat => exact fun d hd => ⟨hparts d hd, hflat d hd⟩
  | not hinner hsingle =>
    intro d hd
    obtain rfl := List.mem_singleton.mp hd
    exact ⟨.not hinner hsingle, id⟩
  | _ =>
    intro d hd
    obtain rfl := List.mem_singleton.mp hd
    exact ⟨by constructor, id⟩

/-- The negation of a normal expression is normal: a double negation is dropped, and what it leaves
is no negation. -/
theorem IsNormal.negate {e : Expression} (h : e.IsNormal) : e.negate.IsNormal := by
  cases h with
  | not hinner hsingle => exact hinner
  | all hparts hflat => exact .not (.all hparts hflat) id
  | _ => exact .not (by constructor) id

mutual

/-- Optimizing gives a normal expression. -/
theorem isNormal_optimize : ∀ e : Expression, e.optimize.IsNormal
  | .all es => by
    rw [optimize]
    have hparts := isNormal_optimizeParts es
    exact .all (fun d hd => (hparts d hd).1) fun d hd => (hparts d hd).2
  | .not inner => by
    rw [optimize]
    exact (isNormal_optimize inner).negate
  | .always => .always
  | .term path op operand => .term path op operand
  | .custom path symbol f => .custom path symbol f
  | .predicate f => .predicate f

/-- The merged parts of a conjunction are normal, and none of them is a conjunction. -/
theorem isNormal_optimizeParts : ∀ (es : List Expression),
    ∀ d ∈ optimizeParts es, d.IsNormal ∧ ¬ IsConjunction d
  | [] => by
    intro d hd
    rw [optimizeParts] at hd
    cases hd
  | e :: es => by
    intro d hd
    rw [optimizeParts] at hd
    rcases List.mem_append.mp hd with hfirst | hrest
    · exact (isNormal_optimize e).parts d hfirst
    · exact isNormal_optimizeParts es d hrest

end

/-- Optimizing leaves the parts of a conjunction alone when it leaves each of them alone and none is
a conjunction. -/
theorem optimizeParts_eq_self {es : List Expression} (hsame : ∀ e ∈ es, e.optimize = e)
    (hflat : ∀ e ∈ es, ¬ IsConjunction e) : optimizeParts es = es := by
  induction es with
  | nil => rw [optimizeParts]
  | cons e es ih =>
    have hfirst : e.parts = [e] := by
      have hnone : ¬ IsConjunction e := hflat e List.mem_cons_self
      cases e with
      | all ds => exact absurd trivial hnone
      | _ => rfl
    have hrest : optimizeParts es = es :=
      ih (fun d hd => hsame d (List.mem_cons_of_mem e hd)) fun d hd =>
        hflat d (List.mem_cons_of_mem e hd)
    rw [optimizeParts, hsame e List.mem_cons_self, hfirst, hrest]
    rfl

/-- Optimizing leaves a normal expression alone. -/
theorem IsNormal.optimize_eq {e : Expression} (h : e.IsNormal) : e.optimize = e := by
  induction h with
  | all _ hflat ih => rw [optimize, optimizeParts_eq_self ih hflat]
  | @not e _ hsingle ih =>
    rw [optimize, ih]
    cases e with
    | not inner => exact absurd trivial hsingle
    | _ => rfl
  | _ => rfl

/-! ## Main statement -/

/-- On every item at every index, an optimized expression does what the expression does: it makes
the same calls in the same order, gives the same answer or fails alike, and leaves the same state.
It is normal, and optimizing it again changes nothing. -/
theorem optimize_faithful_and_normal (e : Expression) :
    (∀ (caller : Caller) (item : Value) (index : Int) (s : State),
      (e.optimize.test caller item index).execute s = (e.test caller item index).execute s ∧
        Action.Makes caller (fun c => e.test c item index) s (e.calls caller item index s) ∧
        Action.Makes caller (fun c => e.optimize.test c item index) s
          (e.calls caller item index s)) ∧
      e.optimize.IsNormal ∧ e.optimize.optimize = e.optimize := by
  have hnormal : e.optimize.IsNormal := isNormal_optimize e
  refine ⟨fun caller item index s => ⟨?_, makes_test caller item index e s, ?_⟩, hnormal,
    hnormal.optimize_eq⟩
  · rw [test_optimize]
  · rw [← calls_optimize]
    exact makes_test caller item index e.optimize s

/-- A double negation is dropped around a conjunction, which is merged into the one around it. -/
example (f g : Value) :
    (all [not (not (all [predicate f, always])), not (not (not (predicate g)))]).optimize =
      all [predicate f, always, not (predicate g)] := by
  rfl

end Recordset.Expression
