import Recordset.Value.Kind
import Recordset.Text.Quoted
set_option autoImplicit false

/-!
# The written form of values

`Store.shown` writes a value so that its kind can be told: texts are quoted, a tuple of one has a
comma, a collection has its name.  A container that comes up inside of itself is written as dots.
`Store.text` is the same but for a text, which stands as it is, and for a mapping that nobody can
change, which is written as the mapping it shows.  A whole number of too many digits is not written.
-/

namespace Recordset.Store

/-- Parts with commas between them. -/
def commaSeparated (parts : List String) : String := ", ".intercalate parts

/-- A mapping in braces. -/
def braced (parts : List (String × String)) : String :=
  "\x7b" ++ commaSeparated (parts.map fun (k, v) => k ++ ": " ++ v) ++ "\x7d"

/-- The name of a builtin function. -/
def builtinName : Builtin → String
  | .len => "len"
  | .str => "str"
  | .abs => "abs"
  | .bool => "bool"
  | .int => "int"
  | .max => "max"
  | .min => "min"
  | .sum => "sum"
  | .repr => "repr"
  | .sorted => "sorted"
  | .isInstance => "isinstance"

/-- The written form of a builtin function. -/
def builtinShown (b : Builtin) : String :=
  match b with
  | .str | .bool | .int => "<class '" ++ builtinName b ++ "'>"
  | _ => "<built-in function " ++ builtinName b ++ ">"

/-- The written form of the switches of a pattern. -/
def switchesShown (s : Switches) : String :=
  "|".intercalate ((if s.ignoreCase then ["re.IGNORECASE"] else []) ++
    (if s.multiline then ["re.MULTILINE"] else []) ++ (if s.dotAll then ["re.DOTALL"] else []) ++
    (if s.verbose then ["re.VERBOSE"] else []) ++ (if s.ascii then ["re.ASCII"] else []))

/-- The written form of a pattern. -/
def patternShown (p : Pattern) : String :=
  let source := String.ofList ((Text.quoted p.source).toList.take 200)
  let switches := switchesShown p.switches
  "re.compile(" ++ source ++ (if switches = "" then "" else ", " ++ switches) ++ ")"

/-- The written form of a whole number. -/
def wholeShown (n : Int) : Except Error String :=
  match Text.writeInteger? n with
  | some t => .ok t
  | none => .error (.fault .value)

/-- The parts of a mapping, written. -/
def entriesShown (write : Value → Except Error String) (es : Entries) :
    Except Error (List (String × String)) :=
  es.mapM fun (k, v) => do return (← write k, ← write v)

/-- The name of an operation, or several of them in a row. -/
def operationsShown (operations : List Operation) : Except Error String := do
  return " -> ".intercalate (← operations.mapM Operation.nameText)

/-- The written form of a value, within a bound on its nesting; `outer` are the containers that are
being written. -/
def shownAt (s : Store) : Nat → List Address → Value → Except Error String
  | 0, _, _ => .error (.fault .recursion)
  | fuel + 1, outer, v =>
    match v with
    | .null => return "None"
    | .missing => return "<MISSING>"
    | .bool b => return if b then "True" else "False"
    | .int n => wholeShown n
    | .float x => return Number.floatText x
    | .nan _ => return "nan"
    | .str t => return Text.quoted t
    | .bytes bs => return Text.quotedBytes bs
    | .pattern p => return patternShown p
    | .builtin b => return builtinShown b
    | .extension _ f receiver => do
      let (f, receivers) := f.appliedTo [receiver]
      let parts ← (f :: receivers).mapM (s.shownAt fuel outer)
      return "functools.partial(" ++ commaSeparated parts ++ ")"
    | .method _ a name => do
      return "<bound method " ++ s.kind (.ref a) ++ "." ++ name ++ " of " ++
        (← s.shownAt fuel outer (.ref a)) ++ ">"
    | .ref a =>
      let again := outer.contains a
      let all (xs : List Value) : Except Error String := do
        if again then return "..." else
          return commaSeparated (← xs.mapM (s.shownAt fuel (a :: outer)))
      let mapping (es : Entries) : Except Error String := do
        if again then return "\x7b...\x7d" else
          return braced (← entriesShown (s.shownAt fuel (a :: outer)) es)
      match s.cell? a with
      | some (.list xs) => do return "[" ++ (← all xs) ++ "]"
      | some (.tuple [x]) => do
        if again then return "(...)" else return "(" ++ (← s.shownAt fuel (a :: outer) x) ++ ",)"
      | some (.tuple xs) => do return "(" ++ (← all xs) ++ ")"
      | some (.set []) => return "set()"
      | some (.set xs) => do
        if again then return "set(...)" else return "\x7b" ++ (← all xs) ++ "\x7d"
      | some (.dict es) => mapping es
      | some (.frozen es) => do return "mappingproxy(" ++ (← mapping es) ++ ")"
      | some (.object _) => return "<obj>"
      | some .hostile => return "<hostile>"
      | some (.custom kind _) => return kind.written
      | some (.function _) => return "<fn>"
      | some (.collection c) => do return "Collection([" ++ (← all (s.items c)) ++ "])"
      | some (.policy p) => do
        return "Policy(per_page=" ++ (← s.shownAt fuel outer p.perPage) ++ ", separator=" ++
          (← s.shownAt fuel outer p.separator) ++ ", sort_direction=" ++
          Text.quoted p.direction.text ++ ", random_seed=" ++
          (← s.shownAt fuel outer p.seed) ++ ")"
      | some (.builder b) => do
        let names ← operationsShown b.operations
        return "AsyncCollection(" ++ (if names = "" then "<empty>" else names) ++ ")"
      | some c => return "<" ++ cellKind c ++ ">"
      | none => return "<object>"

/-- Why a value has no written form, by what writing it fails with. -/
def unwrittenOf : Error → Unwritten
  | .fault .value => .digits
  | .fault .recursion => .nesting
  | .fault .index => .nameless
  | _ => .misnamed

/-- The written form of a value. -/
def shown (s : Store) (v : Value) : Except Error String := s.shownAt s.depth [] v

/-- A value as a text. -/
def text (s : Store) (v : Value) : Except Error String :=
  match v with
  | .str t => return t
  | _ =>
    match s.view v with
    | some (.frozen es) => do return braced (← entriesShown s.shown es)
    | _ => s.shown v

end Recordset.Store
