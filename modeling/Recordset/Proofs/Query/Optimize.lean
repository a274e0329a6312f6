import Recordset.Query.Compile
import Recordset.Proofs.Action
set_option autoImplicit false

/-!
# Optimizing preserves the answers

Merging nested conjunctions and dropping double negations changes neither the answer of a query nor
what is called to find it, in which order, or where it fails: the optimized expression is the same
action on every item at every index.
-/

namespace Recordset.Expression

variable (caller : Caller) (item : Value) (index : Int)

/-- Answering and then going on as the answer says is answering, when nothing follows. -/
theorem bind_answer (x : Action Bool) :
    (x >>= fun b => if b then pure true else pure false) = x := by
  have hanswer : (fun b : Bool => if b then (pure true : Action Bool) else pure false) = pure := by
    funext b
    cases b <;> rfl
  rw [hanswer, bind_pure]

@[simp] theorem testAll_nil : testAll caller item index [] = pure true := by
  rw [testAll]

theorem testAll_cons (e : Expression) (es : List Expression) :
    testAll caller item index (e :: es) =
      test caller item index e >>= fun b =>
        if b then testAll caller item index es else pure false := by
  rw [testAll]

/-- A conjunction of one part is that part. -/
@[simp] theorem testAll_singleton (e : Expression) :
    testAll caller item index [e] = test caller item index e := by
  rw [testAll_cons, testAll_nil, bind_answer]

/-- A conjunction goes on with its second half when its first half holds. -/
theorem testAll_append (ds es : List Expression) :
    testAll caller item index (ds ++ es) =
      testAll caller item index ds >>= fun b =>
        if b then testAll caller item index es else pure false := by
  induction ds with
  | nil => simp
  | cons d ds ih =>
    rw [List.cons_append, testAll_cons, testAll_cons, ih, bind_assoc]
    congr 1
    funext b
    cases b with
    | true => rfl
    | false => simp

/-- What an expression contributes to a conjunction asks for the same as the expression. -/
theorem testAll_parts (e : Expression) :
    testAll caller item index e.parts = test caller item index e := by
  cases e with
  | all es => rw [parts, test]
  | _ => simp [parts]

theorem test_not (e : Expression) :
    test caller item index (.not e) = (! ·) <$> test caller item index e := by
  rw [test, map_eq_pure_bind]

/-- The negation of an expression answers the opposite, also when a double negation is dropped. -/
theorem test_negate (e : Expression) :
    test caller item index e.negate = (! ·) <$> test caller item index e := by
  cases e with
  | not inner => simp [negate, test_not, Functor.map_map]
  | _ =>
    rw [negate, test_not]
    simp

mutual

/-- An optimized expression is the same action on an item as the expression. -/
theorem test_optimize :
    ∀ e : Expression, test caller item index e.optimize = test caller item index e
  | .all es => by rw [optimize, test, test, testAll_optimizeParts es]
  | .not inner => by rw [optimize, test_negate, test_not, test_optimize inner]
  | .always | .term _ _ _ | .custom _ _ _ | .predicate _ => by simp [optimize]

/-- The merged parts of a conjunction ask for the same as the parts. -/
theorem testAll_optimizeParts :
    ∀ es : List Expression,
      testAll caller item index (optimizeParts es) = testAll caller item index es
  | [] => by rw [optimizeParts]
  | e :: es => by
    rw [optimizeParts, testAll_append, testAll_parts, test_optimize e,
      testAll_optimizeParts es, testAll_cons]

end

end Recordset.Expression

namespace Recordset.Query

variable (caller : Caller) (item : Value) (index : Int)

/-- The expression of a clause asks for all of its parts. -/
theorem test_conjunction (es : List Expression) :
    (conjunction es).test caller item index = Expression.testAll caller item index es := by
  cases es with
  | nil => rw [conjunction, Expression.test]; simp
  | cons e es =>
    cases es with
    | nil => rw [conjunction, Expression.testAll_singleton]
    | cons d es => rw [conjunction, Expression.test]; simp

/-- The expression of a query asks for all of its parts, whether it is optimized or not. -/
theorem test_assemble (es : List Expression) :
    (assemble es).test caller item index = Expression.testAll caller item index es := by
  cases es with
  | nil => rw [assemble, Expression.test, Expression.testAll_nil]
  | cons e es =>
    cases es with
    | nil => rw [assemble, Expression.testAll_singleton]
    | cons d es =>
      rw [assemble, Expression.test_optimize, Expression.test]
      all_goals simp

end Recordset.Query
