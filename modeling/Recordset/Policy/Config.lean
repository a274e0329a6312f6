import Recordset.Ini.Document
import Recordset.Policy.Make
import Recordset.Text.Integer
set_option autoImplicit false

/-!
# Policies of configurations

The options of one section of a configuration are read as texts and numbers, and make a policy; an
option that is absent has its default.
-/

namespace Recordset.Policy

/-- The section of a configuration that holds a policy. -/
def sectionName : String := "collection"

/-- The longest part of a text that a message shows. -/
def shownLength : Nat := 200

/-- Why a text is no whole number. -/
def integerReason (t : String) : Text.IntegerFault → String
  | .malformed =>
    "invalid literal for int() with base 10: " ++
      String.ofList ((Text.quoted t).toList.take shownLength)
  | .tooLong digits =>
    "Exceeds the limit (" ++ toString Text.digitLimit ++
      " digits) for integer string conversion: value has " ++ toString digits ++
      " digits; use sys.set_int_max_str_digits() to increase the limit"

/-- Reads an option that has to be a whole number. -/
def integerOption (t : String) : Except Error Value :=
  match Text.readInteger t with
  | .ok n => .ok (.int n)
  | .error e => .error (.refusal (.configuration (integerReason t e)))

/-- The value of an option of a policy, or its default. -/
def option (d : Ini.Document) (name : String) : Except Error (Option String) :=
  (d.get? sectionName name).mapError .ini

/-- The policy of a configuration. -/
def ofDocument (d : Ini.Document) : Action Policy := do
  if !d.hasSection sectionName then return {}
  else
    let seed ← Action.ofExcept (option d "random_seed")
    let perPage ← match ← Action.ofExcept (option d "per_page") with
      | some t => Action.ofExcept (integerOption t)
      | none => pure ({} : Policy).perPage
    let separator ← match ← Action.ofExcept (option d "separator") with
      | some t => pure (Value.str t)
      | none => pure ({} : Policy).separator
    let direction ← match ← Action.ofExcept (option d "sort_direction") with
      | some t => pure (Text.lower (Text.trim t))
      | none => pure ({} : Policy).direction.text
    let seed ← match seed with
      | none | some "" => pure Value.null
      | some t => Action.ofExcept (integerOption t)
    make perPage separator (.str direction) seed

end Recordset.Policy
