import Recordset.Error
set_option autoImplicit false

/-!
# Kinds of one's own

An item can be of a kind that comes neither with the language nor with the library.  Such a kind
says which of its attributes are computed, and fail whenever they are looked up, and whether its
values are containers.  A container of such a kind has a length, and fails when it is iterated; one
that is a sequence fails when it is read at a position, too.
-/

namespace Recordset

/-- What values of a kind of its own are taken for. -/
inductive Role where
  /-- nothing that is iterated -/
  | plain
  | container
  /-- a container that is read by position -/
  | sequence
  deriving DecidableEq, Repr

/-- A kind of its own. -/
structure CustomKind where
  name : String
  /-- how its values are written -/
  written : String
  role : Role := .plain
  /-- the attributes that fail when they are looked up, and how -/
  failing : List (String × Error) := []
  /-- how iterating or reading fails -/
  failure : Error := .fault .type
  deriving DecidableEq, Repr

namespace CustomKind

/-- Whether its values are containers. -/
def isContainer (k : CustomKind) : Bool := k.role != .plain

/-- Whether an attribute is a computed one, which can not be set. -/
def isComputed (k : CustomKind) (name : String) : Bool := k.failing.any (·.1 == name)

/-- How looking an attribute up fails; an attribute that says that it is not there does not. -/
def failure? (k : CustomKind) (name : String) : Option Error :=
  (k.failing.lookup name).filter fun e => !e.isAttribute

/-- A container that fails for its kind when it is iterated. -/
def unsteady : CustomKind where
  name := "BadIter"
  written := "<baditer>"
  role := .container

end CustomKind

end Recordset
