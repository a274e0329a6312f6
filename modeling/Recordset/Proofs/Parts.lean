import Recordset.Script.Expr
set_option autoImplicit false

/-!
# The parts of an expression

An expression is evaluated through the expressions that it is put together from (`Expr.parts`), so
that what passes from these to it holds of every expression: `Expr.byParts`.  `Expr.group` sorts
the expressions by what becomes of the values of their parts.
-/

namespace Recordset.Expr

/-- The expressions whose values an expression uses. -/
def parts : Expr → List Expr
  | lit _ | bound _ | nan | pattern _ _ | hostile | unsteady | arg _ | args | outer _ | raise _ _
  | function _ _ _ => []
  | not e | length e | text e | log e | recorder _ e | memory e none => [e]
  | get e f | item e f | binary _ e f | both e f | either e f => [e, f]
  | cond e f g | assign e f g => [e, f, g]
  | list es | tuple es | set es | iterator es | collection es | object _ es | custom _ _ es
  | seq es => es
  | dict es fs | frozen es fs => es ++ fs
  | memory e (some (perPage, separator, direction, seed)) =>
    [e, perPage, separator, direction, seed]
  | call receiver _ es => receiver :: es

theorem sizeOf_lt_of_mem_parts {e p : Expr} (h : p ∈ e.parts) : sizeOf p < sizeOf e := by
  unfold parts at h
  split at h
  all_goals grind [→ List.sizeOf_lt_of_mem]

/-- What passes from its parts to an expression holds of every one. -/
@[elab_as_elim]
theorem byParts {P : Expr → Prop} (step : ∀ e, (∀ p ∈ e.parts, P p) → P e) (e : Expr) : P e :=
  step e fun p _ => byParts step p
termination_by sizeOf e
decreasing_by exact sizeOf_lt_of_mem_parts ‹_›

/-- What becomes of the values of the parts of an expression. -/
inductive Group where
  /-- there are no parts -/
  | leaf
  /-- the truth of one decides -/
  | test
  /-- something is computed from them -/
  | operation
  /-- they are put together in a new cell -/
  | container
  /-- an executor is made with them -/
  | executor

/-- The group of an expression. -/
def group : Expr → Group
  | lit _ | bound _ | nan | pattern _ _ | hostile | unsteady | arg _ | args | outer _ | raise _ _
  | function _ _ _ => .leaf
  | both _ _ | either _ _ | not _ | cond _ _ _ => .test
  | get _ _ | item _ _ | binary _ _ _ | length _ | text _ | log _ | seq _ | assign _ _ _
  | call _ _ _ => .operation
  | list _ | tuple _ | set _ | iterator _ | collection _ | dict _ _ | frozen _ _ | object _ _
  | custom _ _ _ => .container
  | memory _ _ | recorder _ _ => .executor

end Recordset.Expr
