import Recordset.Text.Quoted
set_option autoImplicit false

/-!
# JSON texts

A JSON document as a tree, and its written form: on one line, or with every element on a line of
its own behind an indentation for each level.  Written texts are ASCII; a character beyond the
first 65,536 is written as two escapes, its surrogates.
-/

namespace Recordset

/-- A JSON document. -/
inductive Json where
  /-- a number or a constant, as it is written -/
  | literal (text : String)
  | text (s : String)
  | array (parts : List Json)
  | object (parts : List (String × Json))
  deriving Inhabited

namespace Json

/-- The escape of a sixteen bit unit. -/
def unitEscape (n : Nat) : List Char := '\\' :: 'u' :: Text.hexDigits 4 n

/-- One character inside a quoted text. -/
def escapeChar (c : Char) : List Char :=
  if c = '"' then ['\\', '"']
  else if c = '\\' then ['\\', '\\']
  else if c = '\n' then ['\\', 'n']
  else if c = '\r' then ['\\', 'r']
  else if c = '\t' then ['\\', 't']
  else if c = '\x0c' then ['\\', 'f']
  else if c = '\x08' then ['\\', 'b']
  else if 32 ≤ c.toNat ∧ c.toNat < 127 then [c]
  else if c.toNat < 0x10000 then unitEscape c.toNat
  else
    let n := c.toNat - 0x10000
    unitEscape (0xd800 + n / 0x400) ++ unitEscape (0xdc00 + n % 0x400)

/-- A text in quotes. -/
def quoted (s : String) : String := String.ofList ('"' :: s.toList.flatMap escapeChar ++ ['"'])

/-- Where a new line starts: nowhere on one line, or behind the indentation of a level. -/
def lineStart (indent : Option String) (level : Nat) : String :=
  match indent with
  | none => ""
  | some unit => "\n" ++ String.join (List.replicate level unit)

/-- What stands between two elements. -/
def separator (indent : Option String) (level : Nat) : String :=
  match indent with
  | none => ", "
  | some _ => "," ++ lineStart indent level

/-- Parts between brackets. -/
def bracketed (indent : Option String) (level : Nat) (opening closing : String)
    (parts : List String) : String :=
  if parts.isEmpty then opening ++ closing
  else
    opening ++ lineStart indent (level + 1) ++ (separator indent (level + 1)).intercalate parts ++
      lineStart indent level ++ closing

mutual
/-- The written form of a document at a level of indentation. -/
def write (indent : Option String) (level : Nat) : Json → String
  | literal t => t
  | text s => quoted s
  | array parts => bracketed indent level "[" "]" (writeAll indent (level + 1) parts)
  | object parts => bracketed indent level "\x7b" "\x7d" (writeEntries indent (level + 1) parts)

/-- The written forms of several documents. -/
def writeAll (indent : Option String) (level : Nat) : List Json → List String
  | [] => []
  | d :: ds => write indent level d :: writeAll indent level ds

/-- The written forms of the entries of an object. -/
def writeEntries (indent : Option String) (level : Nat) : List (String × Json) → List String
  | [] => []
  | (key, d) :: ds =>
    (quoted key ++ ": " ++ write indent level d) :: writeEntries indent level ds
end

/-- The text of a document. -/
def render (indent : Option String) (d : Json) : String := write indent 0 d

end Json

end Recordset
