import Recordset.Error
import Recordset.Text.Lowercase
set_option autoImplicit false

/-!
# Configuration texts

A configuration is a list of named sections, each with options.  The options of the default
section stand in for those that another section lacks.  A value can name other options of its
section: `Document.get?` puts their values in, to a bounded depth.
-/

namespace Recordset.Ini

/-- The options of a section, their names in lower case. -/
abbrev Options := List (String × String)

/-- A configuration. -/
structure Document where
  sections : List (String × Options) := []

/-- The name of the section whose options stand in for missing ones. -/
def defaultSection : String := "DEFAULT"

/-- The value of an option. -/
def Options.value? (os : Options) (name : String) : Option String :=
  (os.find? (·.1 == name)).map (·.2)

namespace Document

/-- The options of a section, none when there is no such section. -/
def options (d : Document) (name : String) : Options :=
  ((d.sections.find? (·.1 == name)).map (·.2)).getD []

/-- Whether there is a section of a name besides the default section. -/
def hasSection (d : Document) (name : String) : Bool :=
  name != defaultSection && d.sections.any (·.1 == name)

/-- The value of an option as it is written, from the section or from the default section. -/
def raw? (d : Document) (name option : String) : Option String :=
  (Options.value? (d.options name) option).orElse fun _ =>
    Options.value? (d.options defaultSection) option

end Document

/-- The deepest nesting of options that name each other. -/
def maxDepth : Nat := 10

/-- The name in parentheses at the front of a text, followed by its closing sign, and the rest. -/
def spanName (cs : List Char) : Option (String × List Char) :=
  let name := cs.takeWhile (· != ')')
  match name, cs.dropWhile (· != ')') with
  | _ :: _, ')' :: 's' :: rest => some (Text.lower (String.ofList name), rest)
  | _, _ => none

/-- Puts in the values of the options that a text names; `inner` expands such a value. -/
def expandWith (find? : String → Option String) (inner : String → Except IniFault String) :
    Nat → List Char → Except IniFault String
  | 0, _ => .ok ""
  | fuel + 1, cs =>
    match cs with
    | [] => .ok ""
    | '%' :: '%' :: rest => do return "%" ++ (← expandWith find? inner fuel rest)
    | '%' :: '(' :: rest =>
      match spanName rest with
      | none => .error .interpolationSyntax
      | some (name, rest) =>
        match find? name with
        | none => .error .interpolationMissing
        | some v => do
          let expanded ← if v.toList.contains '%' then inner v else .ok v
          return expanded ++ (← expandWith find? inner fuel rest)
    | '%' :: _ => .error .interpolationSyntax
    | c :: rest => do return String.singleton c ++ (← expandWith find? inner fuel rest)

/-- Puts in the values of the options that a text names, to a depth. -/
def expand (find? : String → Option String) : Nat → String → Except IniFault String
  | 0, _ => .error .interpolationDepth
  | depth + 1, t => expandWith find? (expand find? depth) (t.length + 1) t.toList

/-- The value of an option with the values of the options that it names. -/
def Document.get? (d : Document) (name option : String) : Except IniFault (Option String) :=
  match d.raw? name option with
  | none => .ok none
  | some t => (expand (d.raw? name) maxDepth t).map some

end Recordset.Ini
