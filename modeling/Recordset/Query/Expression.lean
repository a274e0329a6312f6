import Recordset.Callback
import Recordset.Query.Operator
set_option autoImplicit false

/-!
# Query expressions

A compiled query is a tree of conjunctions and negations over terms: an operator on the value at a
path, a custom operator, or a predicate of the caller.  Conjunctions are evaluated from left to
right and stop at the first part that fails.

`Expression.optimize` merges nested conjunctions and drops double negations.
-/

namespace Recordset

/-- A compiled query. -/
inductive Expression where
  | all (parts : List Expression)
  | not (inner : Expression)
  | always
  | term (path : Value) (op : Operator) (operand : Value)
  /-- a predicate on the whole item that a custom operator made -/
  | custom (path : Value) (symbol : String) (predicate : Value)
  /-- a predicate of the caller, on an item and its index -/
  | predicate (f : Value)
  deriving Inhabited

namespace Expression

/-- Whether a value that a predicate gave counts as true. -/
def truthOf (v : Value) : Action Bool := return (← get).store.truth v

mutual
/-- Whether an item at an index satisfies the query. -/
def test (caller : Caller) (item : Value) (index : Int) : Expression → Action Bool
  | all parts => testAll caller item index parts
  | not inner => return !(← test caller item index inner)
  | always => return true
  | term path op operand => do
    let source ← Path.value item path
    Action.look fun s => op.test s source operand
  | custom _ _ f => do truthOf (← caller f [item])
  | predicate f => do truthOf (← Callback.call caller f 2 [item, .int index])

/-- Whether an item satisfies every part, up to the first that it does not. -/
def testAll (caller : Caller) (item : Value) (index : Int) : List Expression → Action Bool
  | [] => return true
  | e :: es => do
    if ← test caller item index e then testAll caller item index es else return false
end

/-- The parts that an expression contributes to a conjunction. -/
def parts : Expression → List Expression
  | all es => es
  | e => [e]

/-- The negation of an expression; of a negation, what it negates. -/
def negate : Expression → Expression
  | not inner => inner
  | e => not e

mutual
/-- Merges nested conjunctions and drops double negations. -/
def optimize : Expression → Expression
  | all es => all (optimizeParts es)
  | not inner => negate (optimize inner)
  | e => e

/-- The parts of a conjunction, optimized and merged. -/
def optimizeParts : List Expression → List Expression
  | [] => []
  | e :: es => parts (optimize e) ++ optimizeParts es
end

/-- The written form of a term. -/
def shown (s : Store) (path : Value) (op : Operator) (operand : Value) : Except Error String := do
  return "Term(" ++ (← s.shown path) ++ " " ++ op.symbol ++ " " ++ (← s.shown operand) ++ ")"

end Expression

end Recordset
