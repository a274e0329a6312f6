import Recordset.Query.Operator
set_option autoImplicit false

/-!
# Shorthand queries

A query on one path can be given as the path and a value, or as the path, a comparison sign and a
value.  The signs stand for operators; the sign for inequality negates.
-/

namespace Recordset.Query

/-- The comparison signs and the operators that they stand for. -/
def signs : List (String × String) :=
  [("=", "$eq"), ("==", "$eq"), ("!=", "$not"), (">", "$gt"), ("<", "$lt"), (">=", "$gte"),
    ("<=", "$lte"), ("in", "$in"), ("includes", "$includes")]

/-- The operator that a sign stands for. -/
def signOperator? : Value → Option String
  | .str t => (signs.find? (·.1 == t)).map (·.2)
  | _ => none

/-- The query that asks for one operator at one path. -/
def single (path : Value) (symbol : String) (operand : Value) : Action Value := do
  let s := (← get).store
  if s.isKey path then
    let clause ← Action.make (.dict [(.str symbol, operand)])
    Action.make (.dict [(path, clause)])
  else Action.fault .type

/-- The query that the arguments of a shorthand stand for. -/
def ofShorthand : List Value → Action Value
  | [path, operand] => single path "$eq" operand
  | [path, sign, operand] => do
    match signOperator? sign with
    | some symbol => single path symbol operand
    | none =>
      let shown ← Action.look (Store.shown · sign)
      Action.refuse (.unknownComparison shown (Store.commaSeparated (signs.map (·.1))))
  | args => Action.refuse (.whereArguments args.length)

end Recordset.Query
