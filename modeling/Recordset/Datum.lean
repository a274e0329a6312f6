import Recordset.Value
set_option autoImplicit false

/-!
# Observed values

What an observer sees of a value at one moment: a tree without sharing, which later changes of the
store do not reach.
-/

namespace Recordset

/-- A value as it was seen. -/
inductive Datum where
  | null
  | missing
  | bool (b : Bool)
  | int (n : Int)
  | float (x : Float)
  | str (s : String)
  | bytes (bs : List UInt8)
  | pattern (p : Pattern)
  | list (items : List Datum)
  | tuple (items : List Datum)
  | set (items : List Datum)
  | dict (entries : List (Datum × Datum))
  | frozen (entries : List (Datum × Datum))
  | object (fields : List (String × Datum))
  | collection (items : List Datum)
  | hostile
  | unsteady
  | callable
  | iterator
  | registry
  | executor
  | context
  | policy (perPage separator : Datum) (direction : String) (seed : Datum)
  /-- a builder, by the tuples that show the operations it has recorded -/
  | deferred (operations : List Datum)
  deriving Inhabited

end Recordset
