import Recordset.Path
import Recordset.Value.Order
import Recordset.Value.Shown
set_option autoImplicit false

/-!
# Operators

An operator compares the value found at a path with an operand of the query.  A value that is not
there satisfies none of them.  Equality keeps truth values and numbers apart and never fails; an
order between values that have none does not hold.
-/

namespace Recordset

/-- The operators of the query language. -/
inductive Operator where
  | equal
  | greater
  | greaterOrEqual
  | lower
  | lowerOrEqual
  /-- equal to one of the operand's elements -/
  | oneOf
  /-- holding the operand: a text as a part, anything else as an element -/
  | contains
  /-- a text in which a pattern is found -/
  | found
  deriving DecidableEq, Repr

namespace Operator

/-- The symbol under which a term shows its operator. -/
def symbol : Operator → String
  | equal => "$eq"
  | greater => "$gt"
  | greaterOrEqual => "$gte"
  | lower => "$lt"
  | lowerOrEqual => "$lte"
  | oneOf => "$in"
  | contains => "$contains"
  | found => "$regex"

/-- The symbols that a query can use, with their operators. -/
def symbols : List (String × Operator) :=
  [("$eq", equal), ("$gt", greater), ("$gte", greaterOrEqual), ("$lt", lower),
    ("$lte", lowerOrEqual), ("$in", oneOf), ("$contains", contains), ("$includes", contains)]

/-- The operator of a symbol. -/
def ofSymbol? (symbol : String) : Option Operator :=
  (symbols.find? (·.1 == symbol)).map (·.2)

/-- The symbol that negates. -/
def negation : String := "$not"

/-- Whether a symbol belongs to the query language itself. -/
def isBuiltin (symbol : String) : Bool := symbol == negation || (ofSymbol? symbol).isSome

/-- Equality that keeps truth values and numbers apart.  A comparison that fails is no equality. -/
def strictEqual (s : Store) (source operand : Value) : Bool :=
  if source.isMissing then false
  else if source.isBool != operand.isBool then false
  else Store.succeeds (s.equal source operand)

/-- Order between two values that are there; none where the values have no order. -/
def ordered (s : Store) (c : Comparison) (source operand : Value) : Except Error Bool :=
  if source.isAbsent ∨ operand matches .null then .ok false
  else
    match s.compare c source operand with
    | .error e => if e.isType then .ok false else .error e
    | r => r

/-- Whether a value is a container in which the operator looks for an element. -/
def isContainer (s : Store) (v : Value) : Bool :=
  match s.view v with
  | some (.list _) | some (.tuple _) | some (.set _) | some (.collection _) => true
  | some (.custom kind _) => kind.isContainer
  | _ => false

/-- Whether a text has a part, or a container an element.  A container that fails for its kind when
it is iterated has none. -/
def holds (s : Store) (source operand : Value) : Except Error Bool :=
  match source with
  | .str whole =>
    match operand with
    | .str part => .ok (Store.isPart part whole)
    | _ => .ok false
  | _ =>
    if isContainer s source then
      match s.elements source with
      | .ok xs => .ok (xs.any fun x => strictEqual s x operand)
      | .error e => if e.isType then .ok false else .error e
    else .ok false

/-- Whether a pattern is found in a text. -/
def isFound (source operand : Value) : Bool :=
  match source, operand with
  | .str t, .pattern p => p.foundIn t
  | _, _ => false

/-- Whether a value satisfies an operator with an operand. -/
def test (op : Operator) (s : Store) (source operand : Value) : Except Error Bool :=
  match op with
  | equal => .ok (strictEqual s source operand)
  | greater => ordered s .greater source operand
  | greaterOrEqual => ordered s .greaterEqual source operand
  | lower => ordered s .less source operand
  | lowerOrEqual => ordered s .lessEqual source operand
  | oneOf =>
    if source.isMissing then .ok false
    else do return (← s.elements operand).any fun x => strictEqual s source x
  | contains => holds s source operand
  | found => .ok (isFound source operand)

/-- Checks an operand when a query is compiled, and gives the operand to keep: a list of its own
for the operator that asks for one of several values. -/
def prepare (op : Operator) (operand : Value) : Action Value := do
  match op with
  | oneOf =>
    let s := (← get).store
    let refused := match operand with
      | .str _ => true
      | .bytes _ => true
      | _ => s.isMapping operand || !s.isIterable operand
    if refused then Action.refuse (.notAList (s.kind operand))
    else
      let xs ← Action.iterate operand
      Action.make (.list xs)
  | _ => return operand

/-- The operator that a value names. -/
def named (symbol : Value) : Action Operator := do
  let s := (← get).store
  match symbol with
  | .str t =>
    match ofSymbol? t with
    | some op => return op
    | none => Action.refuse (.unknownOperator t)
  | _ =>
    match s.view symbol with
    | some .hostile => Action.fault .value
    | _ => Action.refuse (.unknownOperator (← Action.ofExcept (s.text symbol)))

end Operator

end Recordset
