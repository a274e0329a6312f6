import Recordset.Value.Shown
set_option autoImplicit false

/-!
# Reports of refusals

A refusal is reported with its message and its code.  Without a message of its own it is reported
under the name of its family, and without a code of its own under that of its family.
-/

namespace Recordset

namespace Family

/-- Every family. -/
def all : List Family := [base, validation, query, collision, unsupported]

/-- The family of a name. -/
def ofName? (name : String) : Option Family := all.find? (·.name == name)

end Family

/-- A refusal as it is reported. -/
structure Report where
  family : Family
  message : Value
  code : Value

namespace Report

/-- The report of a family, with a message and a code of its own where they are given. -/
def make (s : Store) (family : Family) (message code : Value) : Report where
  family := family
  message := if s.truth message then message else .str family.name
  code := if code matches .null then .int family.code else code

/-- The text of a report. -/
def text (s : Store) (r : Report) : Except Error String := do
  return r.family.name ++ "(" ++ (← s.text r.code) ++ "): " ++ (← s.text r.message)

end Report

end Recordset
