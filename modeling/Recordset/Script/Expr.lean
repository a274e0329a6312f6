import Recordset.Custom
import Recordset.Deferred.Basic
set_option autoImplicit false

/-!
# The language of callbacks

Callbacks are written in a small language of expressions.  An expression is evaluated with the
arguments of the call (`Expr.arg`, `Expr.args`) and, inside a callback that another one made, with
the arguments of the enclosing call (`Expr.outer`).  Expressions for values with parts make fresh
ones at every evaluation, and a variable stands for what is bound to it at that moment.
-/

namespace Recordset

/-- An order between two values. -/
inductive Comparison where
  | less
  | lessEqual
  | greater
  | greaterEqual
  deriving DecidableEq, Repr

namespace Comparison

/-- The sign of a comparison. -/
def symbol : Comparison → String
  | less => "<"
  | lessEqual => "<="
  | greater => ">"
  | greaterEqual => ">="

/-- The comparison with its sides exchanged. -/
def swap : Comparison → Comparison
  | less => greater
  | lessEqual => greaterEqual
  | greater => less
  | greaterEqual => lessEqual

/-- Whether a comparison holds of two things that compare in a given way. -/
def holds : Comparison → Ordering → Bool
  | less, o => o == .lt
  | lessEqual, o => o != .gt
  | greater, o => o == .gt
  | greaterEqual, o => o != .lt

end Comparison

/-- An operation on two values. -/
inductive BinaryOp where
  | add
  | sub
  | mul
  | divide
  | floorDivide
  | modulo
  | equal
  | unequal
  | compare (c : Comparison)
  /-- whether the first value is an element of the second -/
  | member
  deriving DecidableEq, Repr

/-- The parameters of a callback. -/
structure Shape where
  /-- how many arguments it takes by position -/
  positional : Nat
  /-- how many of those, the last ones, may be left out -/
  optional : Nat := 0
  /-- whether it takes any number of arguments after those -/
  rest : Bool := false
  deriving DecidableEq, Repr

namespace Shape

/-- The arity of a callback that takes any number of arguments. -/
def unbounded : Nat := 255

/-- How many arguments a callback takes by position. -/
def arity (s : Shape) : Nat := if s.rest then unbounded else s.positional

/-- Whether a callback can be called with `count` arguments. -/
def accepts (s : Shape) (count : Nat) : Bool :=
  s.positional - s.optional ≤ count && (s.rest || count ≤ s.positional)

end Shape

/-- An expression of the callback language. -/
inductive Expr where
  | lit (v : Value)
  /-- what is bound to a variable -/
  | bound (name : String)
  /-- a fresh not-a-number -/
  | nan
  | pattern (source : String) (ignoreCase : Bool)
  | hostile
  | unsteady
  /-- an argument of the call, null when it was not passed; counted from the end when negative -/
  | arg (i : Int)
  | args
  /-- an argument of the enclosing call -/
  | outer (i : Int)
  /-- the value at a path, null when it is absent -/
  | get (e path : Expr)
  | item (e key : Expr)
  | binary (op : BinaryOp) (left right : Expr)
  | both (left right : Expr)
  | either (left right : Expr)
  | not (e : Expr)
  | cond (test yes no : Expr)
  | length (e : Expr)
  | text (e : Expr)
  | list (items : List Expr)
  | tuple (items : List Expr)
  | set (items : List Expr)
  | iterator (items : List Expr)
  | collection (items : List Expr)
  | dict (keys values : List Expr)
  | frozen (keys values : List Expr)
  | object (names : List String) (values : List Expr)
  | custom (kind : CustomKind) (names : List String) (values : List Expr)
  /-- records what the value looks like now, and gives the value -/
  | log (e : Expr)
  /-- evaluates all and gives the last -/
  | seq (es : List Expr)
  | assign (target key value : Expr)
  | raise (kind message : String)
  /-- a callback, which sees the arguments of this call when it is enclosed in it -/
  | function (enclosed : Bool) (shape : Shape) (body : Expr)
  /-- an executor over items; the policy is given by its four parts -/
  | memory (items : Expr) (policy : Option (Expr × Expr × Expr × Expr))
  | recorder (behaviour : Behaviour) (value : Expr)
  | call (receiver : Expr) (method : String) (args : List Expr)

/-- What the factory of a custom operator gives for a path and an operand. -/
inductive FactoryAnswer where
  /-- a predicate, whose body sees the path, the operand and the item -/
  | predicate (body : Expr)
  | value (e : Expr)

/-- A function in the store. -/
inductive Function where
  /-- a callback and the arguments of the call that encloses it -/
  | closure (shape : Shape) (body : Expr) (outer : Option (List Value))
  /-- the factory of a custom operator: a check that may fail, and then an answer -/
  | factory (check : Option Expr) (answer : FactoryAnswer)
  /-- a predicate that a factory made for a path and an operand -/
  | predicate (body : Expr) (path operand : Value)

end Recordset
