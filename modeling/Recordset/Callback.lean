import Recordset.Value.Kind
set_option autoImplicit false

/-!
# Callbacks and their arity

The library offers a callback more arguments than it may want, an item and its index for instance.
A callback is called with as many of them as it takes by position, and with all of them when it
takes at least as many.
-/

namespace Recordset.Callback

/-- How many arguments a builtin function takes; none where it does not say. -/
def builtinPositional? : Builtin → Option Nat
  | .len | .abs | .repr | .sorted => some 1
  | .sum | .isInstance => some 2
  | .str | .bool | .int | .max | .min => none

/-- How many arguments a signature has by position. -/
def signaturePositional (s : Signature) : Nat :=
  if s.rest then Shape.unbounded else s.params.length

/-- The signature of a method of a shared value. -/
def methodSignature? (c : Cell) (name : String) : Option Signature :=
  match c with
  | .collection _ => (Method.ofName? name).map Method.signature
  | .builder _ =>
    match Builder.ofName? name with
    | some m => some (Builder.signature m)
    | none => Builder.others.lookup name
  | .registry _ => Registry.methods.lookup name
  | _ => none

/-- How many arguments a function in the store takes by position. -/
def functionPositional : Function → Nat
  | .closure shape _ _ => shape.arity
  | .factory _ _ => 2
  | .predicate _ _ _ => 1

/-- How many arguments a value takes by position when it is called; none where it does not say.  An
extension has been given one of them already. -/
def positional? (s : Store) : Value → Option Nat
  | .builtin b => builtinPositional? b
  | .method _ a name =>
    ((s.cell? a).bind (methodSignature? · name)).map signaturePositional
  | .extension _ f _ =>
    match positional? s f with
    | none | some 0 => none
    | some n => some (if n = Shape.unbounded then n else n - 1)
  | v =>
    match s.view v with
    | some (.function f) => some (functionPositional f)
    | some (.executor _) => some 1
    | _ => none

/-- How many arguments a value takes by position when it is called; one where it does not say. -/
def arity (s : Store) (v : Value) : Nat := (positional? s v).getD 1

/-- Whether a callback that is offered so many arguments takes fewer. -/
def isNarrow (s : Store) (f : Value) (offered : Nat) : Bool := decide (arity s f < offered)

/-- Calls a callback that is offered `offered` arguments; it is given as many as it takes. -/
def call (caller : Caller) (f : Value) (offered : Nat) (args : List Value) : Action Value := do
  let s := (← get).store
  if isNarrow s f offered then caller f (args.take (arity s f)) else caller f args

end Recordset.Callback
