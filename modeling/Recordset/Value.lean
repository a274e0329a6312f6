import Recordset.Number.Basic
import Recordset.Pattern.Basic
set_option autoImplicit false

/-!
# Values

What a record field, an item or an argument can be.  Simple values are held directly.  Everything
that has parts or can change lives in a cell of the store and is held by its address, so that two
places can share it and both see a change.
-/

namespace Recordset

/-- The place of a cell in the store. -/
structure Address where
  index : Nat
  deriving DecidableEq, Repr

/-- The functions that every callback can name. -/
inductive Builtin where
  | len
  | str
  | abs
  | bool
  | int
  | max
  | min
  | sum
  | repr
  | sorted
  | isInstance
  deriving DecidableEq, Repr

/-- A value. -/
inductive Value where
  | null
  /-- the marker for a field that is not there, which is not a stored null -/
  | missing
  | bool (b : Bool)
  | int (n : Int)
  | float (x : Float)
  /-- not-a-number; the serial number tells one occurrence from another -/
  | nan (serial : Nat)
  | str (s : String)
  | bytes (bs : List UInt8)
  | pattern (p : Pattern)
  | builtin (b : Builtin)
  /-- an extension: a function that has been given its first argument, and waits for the others; the
  serial number tells one occurrence from another -/
  | extension (serial : Nat) (function receiver : Value)
  /-- a method of a shared value, waiting for its arguments; the serial number tells one occurrence
  from another -/
  | method (serial : Nat) (receiver : Address) (name : String)
  /-- a value in the store -/
  | ref (address : Address)
  deriving Inhabited

namespace Value

/-- Whether two values are one and the same, which for shared ones means the same cell. -/
def same : Value → Value → Bool
  | null, null => true
  | missing, missing => true
  | bool a, bool b => a == b
  | int a, int b => a == b
  | float x, float y => x.toBits == y.toBits
  | nan a, nan b => a == b
  | str a, str b => a == b
  | bytes a, bytes b => a == b
  | pattern a, pattern b => a == b
  | builtin a, builtin b => a == b
  | extension a _ _, extension b _ _ => a == b
  | method a _ _, method b _ _ => a == b
  | ref a, ref b => a == b
  | _, _ => false

/-- The null value, and the marker for an absent field. -/
def isAbsent : Value → Bool
  | null => true
  | missing => true
  | _ => false

/-- The marker for an absent field. -/
def isMissing : Value → Bool
  | missing => true
  | _ => false

/-- A truth value. -/
def isBool : Value → Bool
  | bool _ => true
  | _ => false

/-- The number that a value is; a truth value counts as one or zero. -/
def number? : Value → Option Number
  | bool b => some (.int (if b then 1 else 0))
  | int n => some (.int n)
  | float x => some (.float x)
  | nan _ => some (.float Number.notANumber)
  | _ => Option.none

/-- The whole number that a value is, as an index needs it. -/
def index? : Value → Option Int
  | bool b => some (if b then 1 else 0)
  | int n => some n
  | _ => Option.none

/-- The text that a value is. -/
def str? : Value → Option String
  | str s => some s
  | _ => Option.none

/-- The function that an extension of extensions is about, and all that it has been given before
`given`. -/
def appliedTo : Value → List Value → Value × List Value
  | extension _ f receiver, given => f.appliedTo (receiver :: given)
  | f, given => (f, given)

/-- The address of a shared value. -/
def address? : Value → Option Address
  | ref a => some a
  | _ => Option.none

end Value

/-- The entries of a mapping, in the order in which their keys were first put in. -/
abbrev Entries := List (Value × Value)

end Recordset
