import Recordset.Text.Quoted
set_option autoImplicit false

/-!
# Refusals and faults

An operation fails for one of four reasons.  The library refuses what it was asked for, and says
why (`Refusal`); the evaluation of values goes wrong (`Fault`); a callback raises an error of its
own; or the program is asked to end.  Every refusal belongs to a family, and each family has a
code.
-/

namespace Recordset

/-- The families of refusals, each more special than the one it extends. -/
inductive Family where
  | base
  | validation
  | query
  | collision
  | unsupported
  deriving DecidableEq, Repr

namespace Family

/-- The code of a family. -/
def code : Family → Int
  | base => 1000
  | validation => 1001
  | query => 1002
  | collision => 1003
  | unsupported => 1004

/-- The name under which a family is reported. -/
def name : Family → String
  | base => "EloquentBaseException"
  | validation => "EloquentValidationException"
  | query => "QueryCompilationException"
  | collision => "MacroCollisionException"
  | unsupported => "EloquentNotSupportedException"

/-- A family and those it extends, the most special first. -/
def ancestry : Family → List Family
  | base => [base]
  | validation => [validation, base]
  | query => [query, validation, base]
  | collision => [collision, validation, base]
  | unsupported => [unsupported, base]

end Family

/-- Why the library refuses.  Values appear in their written form. -/
inductive Refusal where
  -- queries
  | notAQuery (type : String)
  | notNested (shown : String)
  | unknownQueryKey (key : String)
  | unknownOperator (symbol : String)
  | notAList (type : String)
  | mixedOperators (shown : String)
  | notAPredicate (symbol type : String)
  | unknownComparison (shown symbols : String)
  | whereArguments (count : Nat)
  -- collections
  | everyArguments (count : Nat)
  | updateArguments (count : Nat)
  | notAPatch (type : String)
  | unmergeable (type : String)
  | chunkSize (shown : String)
  | page (page perPage : String)
  | direction (shown : String)
  | incomparableKeys (reason : String)
  | incomparable (current next : String)
  -- policies
  | perPage (text : String)
  | sortDirection (shown : String)
  | configuration (reason : String)
  -- extensions
  | invalidName (shown : String)
  | notCallable (name type : String)
  | reservedName (name : String)
  | reservedNames (shown : String)
  -- deferred queries
  | notAnExecutor (type : String)
  | afterTerminal (name terminal : String)
  | unknownOperation (name : String)
  deriving DecidableEq, Repr

namespace Refusal

/-- The family of a refusal. -/
def family : Refusal → Family
  | notAQuery _ | notNested _ | unknownQueryKey _ | unknownOperator _ | notAList _
  | mixedOperators _ | notAPredicate _ _ | unknownComparison _ _ | whereArguments _ => .query
  | reservedName _ | reservedNames _ => .collision
  | unknownOperation _ => .unsupported
  | _ => .validation

/-- The two sort directions as a message lists them. -/
def directions : String := "('asc', 'desc')"

/-- The text of a refusal. -/
def message : Refusal → String
  | notAQuery type => "Query must be a mapping or a callable, got " ++ type
  | notNested shown => "$not at query level expects a nested query, got " ++ shown
  | unknownQueryKey key => "Unknown query level operator: " ++ key ++ "!"
  | unknownOperator symbol => "Unknown operator: " ++ symbol ++ "!"
  | notAList type => "$in expects a list of values, got " ++ type
  | mixedOperators shown => "Operator object mixes operators and plain fields: " ++ shown
  | notAPredicate symbol type =>
    "Validator " ++ symbol ++ " must return a predicate, got " ++ type
  | unknownComparison shown symbols =>
    shown ++ " is not a valid operator, use one of: " ++ symbols
  | whereArguments count =>
    "where() expects (key, value) or (key, operator, value), got " ++ toString count ++
      " arguments"
  | everyArguments count => "every() got " ++ toString count ++ " arguments, expected 1 to 3"
  | updateArguments count =>
    "update() expects (patch) or (spec, patch), got " ++ toString count ++ " arguments"
  | notAPatch type => "update() patch must be a mapping or a callable, got " ++ type
  | unmergeable type => "Can not merge a patch into an item of type " ++ type
  | chunkSize shown => "chunk size must be a positive integer, got " ++ shown
  | page number size =>
    "paginate() needs page >= 1 and per_page >= 1, got " ++ number ++ ", " ++ size
  | direction shown => "direction must be one of " ++ directions ++ ", got " ++ shown
  | incomparableKeys reason => "sort() keys are not mutually comparable: " ++ reason
  | incomparable current next => "Can not compare " ++ current ++ " with " ++ next
  | perPage text => "per_page must be >= 1, got " ++ text
  | sortDirection shown => "sort_direction must be one of " ++ directions ++ ", got " ++ shown
  | configuration reason => "Invalid [collection] configuration: " ++ reason
  | invalidName shown => "Invalid macro name: " ++ shown
  | notCallable name type => "Macro " ++ name ++ " must be callable, got " ++ type
  | reservedName name => name ++ " is a built-in method and can not be used as a macro"
  | reservedNames shown =>
    "Macros " ++ shown ++ " use built-in names and can not be used with this collection"
  | notAnExecutor type => "executor must be callable, got " ++ type
  | afterTerminal name terminal =>
    name ++ "() can not follow " ++ terminal ++ "(), which does not return a collection"
  | unknownOperation name => "Operation " ++ name ++ " is not supported"

end Refusal

/-- Why a value has no written form. -/
inductive Unwritten where
  /-- a whole number of too many digits -/
  | digits
  /-- nesting without end -/
  | nesting
  /-- an operation without a name -/
  | nameless
  /-- an operation whose name is no text -/
  | misnamed
  deriving DecidableEq, Repr

/-- What goes wrong in the evaluation of values. -/
inductive Fault where
  /-- an operation on a value of a kind that does not have it -/
  | type
  /-- a comparison of two values that have no order -/
  | unordered (symbol left right : String)
  | value
  /-- a key that is not there, and why it has no written form, if it has none -/
  | key {unwritten : Option Unwritten}
  | index
  | attribute
  | overflow
  | zeroDivision
  /-- a change of what nobody can change -/
  | frozen
  /-- a result that is too large to be kept -/
  | memory
  /-- nesting without end -/
  | recursion
  /-- a text that is no pattern -/
  | pattern
  /-- the end of an iteration, announced where nothing is iterated -/
  | runtime
  deriving DecidableEq, Repr

namespace Fault

/-- A fault of a kind: a missing operation, or a missing order. -/
def isType : Fault → Bool
  | type => true
  | unordered _ _ _ => true
  | _ => false

/-- The fault of writing a value that has no written form. -/
def ofUnwritten : Unwritten → Fault
  | .digits => value
  | .nesting => recursion
  | .nameless => index
  | .misnamed => type

/-- The text of a fault, where a message quotes it. -/
def message : Fault → String
  | unordered symbol left right =>
    "'" ++ symbol ++ "' not supported between instances of '" ++ left ++ "' and '" ++ right ++ "'"
  | _ => ""

end Fault

/-- What is wrong with the text of a configuration. -/
inductive IniFault where
  | missingHeader
  | duplicateSection
  | duplicateOption
  | parsing
  | interpolationSyntax
  | interpolationMissing
  | interpolationDepth
  deriving DecidableEq, Repr

/-- Why an operation has no result. -/
inductive Error where
  | refusal (r : Refusal)
  | fault (f : Fault)
  /-- raised by a callback or an executor -/
  | raised (kind message : String)
  /-- a collection has no attribute and no extension of this name -/
  | noAttribute (name : String)
  /-- nothing is bound to a variable -/
  | unbound (name : String)
  | ini (f : IniFault)
  | cancelled
  /-- the program is to end with this code -/
  | exit (code : Nat)
  deriving DecidableEq, Repr

namespace Error

/-- An error that says that a value is of a kind without the operation. -/
def isType : Error → Bool
  | fault f => f.isType
  | raised kind _ => kind == "TypeError"
  | _ => false

/-- An error that says that there is no such attribute. -/
def isAttribute : Error → Bool
  | fault .attribute | fault .frozen | noAttribute _ => true
  | raised kind _ => kind == "AttributeError"
  | _ => false

/-- The kinds of errors that say that there is no such position. -/
def positionKinds : List String :=
  ["TypeError", "IndexError", "ValueError", "UnicodeError", "UnicodeDecodeError",
    "UnicodeEncodeError", "UnicodeTranslateError"]

/-- An error that says that there is no such position. -/
def isPosition : Error → Bool
  | fault .value | fault .index => true
  | fault f => f.isType
  | raised kind _ => positionKinds.contains kind
  | _ => false

/-- The kinds of errors that can not be written. -/
def unwrittenKinds : List String := ["BadRepr"]

/-- The failure to write an error, of those that can not be written. -/
def unwritten? : Error → Option Error
  | fault (@Fault.key u) => u.map fun u => fault (.ofUnwritten u)
  | raised kind _ => if unwrittenKinds.contains kind then some (fault .value) else none
  | _ => none

/-- The kinds of errors that end the program or the work at hand, and are never kept as a result. -/
def finalKinds : List String :=
  ["SystemExit", "KeyboardInterrupt", "GeneratorExit", "CancelledError", "BaseException"]

/-- An error that ends the program or the work at hand. -/
def isFinal : Error → Bool
  | exit _ | cancelled | unbound _ => true
  | raised kind _ => finalKinds.contains kind
  | _ => false

/-- An error that ends the program, whatever else goes on in it. -/
def endsProgram : Error → Bool
  | exit _ => true
  | raised kind _ => kind == "SystemExit" || kind == "KeyboardInterrupt"
  | _ => false

/-- The announcement that an iteration has ended. -/
def endsIteration : Error → Bool
  | raised kind _ => kind == "StopIteration"
  | _ => false

/-- The text of an error that has one of its own.  A fault has none: its kind says all. -/
def message? : Error → Option String
  | refusal r => some r.message
  | raised _ message => some message
  | noAttribute name => some ("'Collection' object has no attribute '" ++ name ++ "'")
  | exit code => some (toString code)
  | _ => none

end Error

end Recordset
