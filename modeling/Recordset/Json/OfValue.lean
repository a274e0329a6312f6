import Recordset.Json.Basic
import Recordset.Value.Kind
set_option autoImplicit false

/-!
# JSON documents of values

Null, truth values, numbers, texts, lists, tuples and mappings have documents of their own.  Any
other value is handed to a function that may give another one in its place; without a function it
is a fault.  A key has to be a text, a number, a truth value or null, and is written as a text.  A
value that comes up inside of itself, through the function or by itself, is a fault.
-/

namespace Recordset.Json

/-- A fractional number as JSON writes it. -/
def floatText (x : Float) : String :=
  if x.isNaN then "NaN"
  else if x.isInf then (if x < 0.0 then "-Infinity" else "Infinity")
  else Number.floatText x

/-- A value without parts as JSON writes it. -/
def constant? : Value → Option String
  | .null => some "null"
  | .bool b => some (if b then "true" else "false")
  | .int n => some (toString n)
  | .float x => some (floatText x)
  | .nan _ => some "NaN"
  | _ => none

/-- A key as a text. -/
def key (v : Value) : Action String :=
  match v with
  | .str t => pure t
  | _ =>
    match constant? v with
    | some t => pure t
    | none => Action.fault .type

/-- The documents of several values. -/
def ofAll (document : Value → Action Json) : List Value → Action (List Json)
  | [] => return []
  | v :: vs => do
    let d ← document v
    let ds ← ofAll document vs
    return d :: ds

/-- The documents of the values of entries, under their keys as texts. -/
def ofEntries (document : Value → Action Json) : Entries → Action (List (String × Json))
  | [] => return []
  | (k, v) :: es => do
    let name ← key k
    let d ← document v
    let ds ← ofEntries document es
    return (name, d) :: ds

/-- The value that stands for one without a document. -/
def substitute (caller : Caller) (default v : Value) : Action Value :=
  match default with
  | .null => Action.fault .type
  | f => caller f [v]

/-- The document of a value inside of others, within a bound on the nesting. -/
def ofValueAt (caller : Caller) (default : Value) : Nat → List Value → Value → Action Json
  | 0, _, _ => Action.fault .recursion
  | fuel + 1, outer, v => do
    match v, constant? v with
    | .str t, _ => return .text t
    | _, some t => return .literal t
    | _, none =>
      let inner := ofValueAt caller default fuel (v :: outer)
      let s := (← get).store
      if outer.any v.same then Action.fault .value
      else
        match s.view v with
        | some (.list xs) | some (.tuple xs) => return .array (← ofAll inner xs)
        | some (.dict es) => return .object (← ofEntries inner es)
        | _ => do inner (← substitute caller default v)

/-- The nesting that substitutes may add to a value. -/
def nesting : Nat := 1000

/-- The document of a value. -/
def ofValue (caller : Caller) (default v : Value) : Action Json := do
  ofValueAt caller default ((← get).store.depth + nesting) [] v

end Recordset.Json
