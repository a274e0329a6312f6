import Recordset.Value
set_option autoImplicit false

/-!
# Policies

The defaults that a collection applies when its caller gives none.  The page size is at least one;
the separator and the seed are whatever the caller chose.
-/

namespace Recordset

/-- A sort direction. -/
inductive Direction where
  | asc
  | desc
  deriving DecidableEq, Repr

namespace Direction

/-- The written form of a direction. -/
def text : Direction → String
  | asc => "asc"
  | desc => "desc"

/-- Reads a direction. -/
def ofText? (s : String) : Option Direction :=
  if s = "asc" then some asc else if s = "desc" then some desc else none

end Direction

/-- The defaults of a collection. -/
structure Policy where
  perPage : Value := .int 20
  separator : Value := .str ", "
  direction : Direction := .asc
  seed : Value := .null

end Recordset
