import Recordset.Ini.Document
import Recordset.Text.Blank
set_option autoImplicit false

/-!
# Reading configuration texts

A line names a section in brackets, or an option and its value with an equals sign or a colon
between them.  A line that is indented further than the option before it goes on with its value.
Lines that start with a number sign or a semicolon are comments.  A section and an option of a
section may be named once; a line that is none of these is a fault of the whole text.
-/

namespace Recordset.Ini

/-- What has been read so far; the values of options as lists of lines. -/
structure Reading where
  sections : List (String × List (String × List String)) := [(defaultSection, [])]
  /-- the section that is being read -/
  current : Option String := none
  /-- the option that a further indented line goes on with -/
  option : Option String := none
  indent : Nat := 0
  /-- whether a line was none of what a line can be -/
  faulty : Bool := false

namespace Reading

/-- Changes the options of a section. -/
def change (r : Reading) (name : String)
    (f : List (String × List String) → List (String × List String)) : Reading :=
  { r with sections := r.sections.map fun s => if s.1 == name then (s.1, f s.2) else s }

/-- Goes on with the value of the current option. -/
def extend (r : Reading) (line : String) : Reading :=
  match r.current, r.option with
  | some name, some option =>
    r.change name (·.map fun o => if o.1 == option then (o.1, o.2 ++ [line]) else o)
  | _, _ => r

/-- Starts a section. -/
def enter (r : Reading) (name : String) : Except IniFault Reading :=
  if name = defaultSection then .ok { r with current := some name, option := none }
  else if r.sections.any (·.1 == name) then .error .duplicateSection
  else
    .ok { r with sections := r.sections ++ [(name, [])], current := some name, option := none }

/-- Whether a section has an option already. -/
def hasOption (r : Reading) (name option : String) : Bool :=
  r.sections.any fun s => s.1 == name && s.2.any (·.1 == option)

/-- Adds an option to a section. -/
def add (r : Reading) (name option value : String) : Except IniFault Reading :=
  if r.hasOption name option then .error .duplicateOption
  else
    let r := r.change name (· ++ [(option, [value])])
    .ok { r with option := if option = "" then none else some option,
                 faulty := r.faulty || option = "" }

end Reading

/-- The name in the brackets of a section's line, up to the last closing one. -/
def sectionName? : List Char → Option String
  | '[' :: rest =>
    match (rest.reverse.dropWhile (· != ']')).drop 1 with
    | [] => none
    | name => some (String.ofList name.reverse)
  | _ => none

/-- A sign between an option and its value. -/
def isDelimiter (c : Char) : Bool := c == '=' || c == ':'

/-- The name of an option and its value. -/
def option? (cs : List Char) : Option (String × String) :=
  match cs.dropWhile fun c => !isDelimiter c with
  | [] => none
  | _ :: value =>
    let name := String.ofList (cs.takeWhile fun c => !isDelimiter c)
    some (Text.lower (Text.trimEnd name), Text.trim (String.ofList value))

/-- A comment. -/
def isComment (trimmed : List Char) : Bool :=
  trimmed.head? == some '#' || trimmed.head? == some ';'

/-- Reads a line that is neither blank nor a comment nor the rest of a value. -/
def readEntry (r : Reading) (cs : List Char) : Except IniFault Reading :=
  match sectionName? cs, r.current with
  | some name, _ => r.enter name
  | none, none => .error .missingHeader
  | none, some name =>
    match option? cs with
    | some (option, value) => r.add name option value
    | none => .ok { r with faulty := true }

/-- Reads a line. -/
def readLine (r : Reading) (line : List Char) : Except IniFault Reading :=
  let trimmed := Text.trimChars line
  if isComment trimmed then .ok r
  else if trimmed.isEmpty then .ok (r.extend "")
  else
    let indent := (line.takeWhile Text.isBlank).length
    if r.current.isSome ∧ r.option.isSome ∧ r.indent < indent then
      .ok (r.extend (String.ofList trimmed))
    else readEntry { r with indent } trimmed

/-- The value of an option from its lines. -/
def joinLines (lines : List String) : String := Text.trimEnd ("\n".intercalate lines)

/-- What has been read, as a configuration. -/
def Reading.document (r : Reading) : Document :=
  ⟨r.sections.map fun s => (s.1, s.2.map fun o => (o.1, joinLines o.2))⟩

/-- Reads a configuration. -/
def read (text : String) : Except IniFault Document := do
  let r ← (text.toList.splitOn '\n').foldlM readLine {}
  if r.faulty then throw .parsing else return r.document

/-- A text with every kind of line break written as a line feed. -/
def unifyBreaks : List Char → List Char
  | [] => []
  | '\r' :: '\n' :: rest => '\n' :: unifyBreaks rest
  | '\r' :: rest => '\n' :: unifyBreaks rest
  | c :: rest => c :: unifyBreaks rest

/-- Reads a configuration whose lines end in any of the usual breaks. -/
def readUnified (text : String) : Except IniFault Document :=
  read (String.ofList (unifyBreaks text.toList))

end Recordset.Ini
