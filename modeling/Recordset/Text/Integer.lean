import Recordset.Text.Blank
import Recordset.Text.Digit
set_option autoImplicit false

/-!
# Reading and writing whole numbers

A whole number is written as an optional sign and decimal digits of any script, with single
underscores allowed between digits and blanks around the whole; the ASCII separators do not count
as blanks here.  A text of more digits than `digitLimit` is refused although it is well formed.
-/

namespace Recordset.Text

/-- Why a text is not read as a whole number. -/
inductive IntegerFault where
  | malformed
  | tooLong (digits : Nat)
  deriving DecidableEq, Repr

/-- The most digits that are read. -/
def digitLimit : Nat := 4300

/-- The values of the digits at the front of a text, between which single underscores may stand, and
the rest of the text; none when an underscore does not stand between digits, or a digit is missing
at the front.  `pending` says that a digit has to come next. -/
def spanDigits (digit? : Char → Option Nat) (pending : Bool) :
    List Char → Option (List Nat × List Char)
  | [] => if pending then none else some ([], [])
  | c :: rest =>
    match digit? c with
    | some d => (spanDigits digit? false rest).map fun (ds, more) => (d :: ds, more)
    | none =>
      if pending then none
      else if c = '_' then spanDigits digit? true rest
      else some ([], c :: rest)

/-- The number that a list of decimal digits denotes. -/
def ofDigits (ds : List Nat) : Nat := ds.foldl (fun n d => 10 * n + d) 0

/-- Reads the digits after the sign.  Too many digits are refused whatever follows them. -/
def readDigits (digit? : Char → Option Nat) (cs : List Char) : Except IntegerFault Nat :=
  match spanDigits digit? true cs with
  | none => .error .malformed
  | some (ds, rest) =>
    if digitLimit < ds.length then .error (.tooLong ds.length)
    else if rest.isEmpty then .ok (ofDigits ds)
    else .error .malformed

/-- Reads a sign and digits. -/
def readSigned (digit? : Char → Option Nat) : List Char → Except IntegerFault Int
  | '-' :: rest => (readDigits digit? rest).map fun n => -(n : Int)
  | '+' :: rest => (readDigits digit? rest).map Int.ofNat
  | cs => (readDigits digit? cs).map Int.ofNat

/-- An ASCII blank. -/
def isAsciiBlank (c : Char) : Bool := (9 ≤ c.toNat && c.toNat ≤ 13) || c.toNat == 32

/-- A blank that may stand around a number. -/
def isPadding (c : Char) : Bool := isAsciiBlank c || (127 < c.toNat && isBlank c)

/-- Reads a whole number from a text. -/
def readInteger (s : String) : Except IntegerFault Int :=
  readSigned decimalValue? (trimWhile isPadding s.toList)

/-- The value of an ASCII digit. -/
def asciiDigit? (c : Char) : Option Nat :=
  if 48 ≤ c.toNat ∧ c.toNat ≤ 57 then some (c.toNat - 48) else none

/-- Reads a whole number from bytes, which hold ASCII text only. -/
def readIntegerBytes (bytes : List UInt8) : Except IntegerFault Int :=
  let cs := bytes.map fun b => Char.ofNat b.toNat
  readSigned asciiDigit? (trimWhile isAsciiBlank cs)

/-- A whole number in decimal digits.  One of more digits than are read is not written either. -/
def writeInteger? (n : Int) : Option String :=
  if n.natAbs < Nat.pow 10 digitLimit then some (toString n) else none

end Recordset.Text
