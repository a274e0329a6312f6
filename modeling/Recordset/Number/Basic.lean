import Recordset.Number.Shortest
import Recordset.Text.Integer
set_option autoImplicit false

/-!
# Numbers

A number is a whole number of any size or a binary64 number.  Arithmetic on whole numbers is exact;
as soon as one operand is a binary64 number the other is rounded to one, which fails where it is
beyond the finite range.  Comparison never rounds: it compares the exact values, and says nothing
when one side is not-a-number.
-/

namespace Recordset

/-- A whole number or a binary64 number. -/
inductive Number where
  | int (n : Int)
  | float (x : Float)

/-- Why an arithmetic operation has no result. -/
inductive ArithmeticFault where
  /-- a whole number beyond the finite binary64 range -/
  | overflow
  /-- a division by zero -/
  | zeroDivision
  deriving DecidableEq, Repr

namespace Number

/-- The binary64 number nearest to a whole number. -/
def roundInt (n : Int) : Except ArithmeticFault Float :=
  match nearest? (decide (n < 0)) n.natAbs 1 with
  | some x => .ok x
  | none => .error .overflow

/-- A number as a binary64 number. -/
def toFloat : Number → Except ArithmeticFault Float
  | .int n => roundInt n
  | .float x => .ok x

/-- How two exact values compare, each a signed numerator over a positive denominator. -/
def compareRatios (a b : Int × Nat) : Ordering := compare (a.1 * b.2) (b.1 * a.2)

/-- How a binary64 number compares with an exact value; none for not-a-number. -/
def compareFloat (x : Float) (r : Int × Nat) : Option Ordering :=
  match Dyadic.ofFloat? x with
  | some d => some (compareRatios d.ratio r)
  | none => if x.isNaN then none else some (if isNegative x then .lt else .gt)

/-- How two numbers compare; none when one of them is not-a-number. -/
def compare? : Number → Number → Option Ordering
  | .int a, .int b => some (compare a b)
  | .float x, .int b => compareFloat x (b, 1)
  | .int a, .float y => (compareFloat y (a, 1)).map Ordering.swap
  | .float x, .float y =>
    if x.isNaN ∨ y.isNaN then none
    else if x < y then some .lt else if x == y then some .eq else some .gt

/-- Equality of values: no number equals not-a-number. -/
def equal (a b : Number) : Bool := compare? a b == some .eq

/-- Applies an operation on whole numbers, or after rounding one on binary64 numbers. -/
def combine (whole : Int → Int → Int) (rounded : Float → Float → Float) :
    Number → Number → Except ArithmeticFault Number
  | .int a, .int b => .ok (.int (whole a b))
  | a, b => do return .float (rounded (← a.toFloat) (← b.toFloat))

/-- Addition. -/
def add : Number → Number → Except ArithmeticFault Number := combine (· + ·) (· + ·)

/-- Subtraction. -/
def sub : Number → Number → Except ArithmeticFault Number := combine (· - ·) (· - ·)

/-- Multiplication. -/
def mul : Number → Number → Except ArithmeticFault Number := combine (· * ·) (· * ·)

/-- Division: the quotient of two whole numbers is rounded once, from its exact value. -/
def divide : Number → Number → Except ArithmeticFault Number
  | .int a, .int b =>
    if b = 0 then .error .zeroDivision
    else
      match nearest? (decide (a < 0) != decide (b < 0)) a.natAbs b.natAbs with
      | some x => .ok (.float x)
      | none => .error .overflow
  | a, b => do
    let x ← a.toFloat
    let y ← b.toFloat
    if y == 0.0 then .error .zeroDivision else return .float (x / y)

/-- The floor of a quotient and the remainder that has the divisor's sign, on binary64 numbers. -/
def floorDivMod (x y : Float) : Float × Float :=
  let rest := remainder x y
  let quotient := (x - rest) / y
  let (quotient, rest) :=
    if rest == 0.0 then (quotient, zeroLike y)
    else if decide (y < 0.0) != decide (rest < 0.0) then (quotient - 1.0, rest + y)
    else (quotient, rest)
  if quotient == 0.0 then (zeroLike (x / y), rest)
  else
    let whole := quotient.floor
    (if quotient - whole > 0.5 then whole + 1.0 else whole, rest)

/-- The floor of a quotient. -/
def floorDivide : Number → Number → Except ArithmeticFault Number
  | .int a, .int b => if b = 0 then .error .zeroDivision else .ok (.int (a.fdiv b))
  | a, b => do
    let x ← a.toFloat
    let y ← b.toFloat
    if y == 0.0 then .error .zeroDivision else return .float (floorDivMod x y).1

/-- The remainder that has the divisor's sign. -/
def modulo : Number → Number → Except ArithmeticFault Number
  | .int a, .int b => if b = 0 then .error .zeroDivision else .ok (.int (a.fmod b))
  | a, b => do
    let x ← a.toFloat
    let y ← b.toFloat
    if y == 0.0 then .error .zeroDivision else return .float (floorDivMod x y).2

/-- The number without its sign. -/
def abs : Number → Number
  | .int n => .int n.natAbs
  | .float x => .float x.abs

/-- The written form. -/
def text : Number → String
  | .int n => toString n
  | .float x => floatText x

end Number

namespace Number

/-- Why a binary64 number has no whole part. -/
inductive WholeFault where
  | infinite
  | notANumber
  deriving DecidableEq, Repr

/-- The whole part, towards zero. -/
def truncate (x : Float) : Except WholeFault Int :=
  match Dyadic.ofFloat? x with
  | some d => .ok d.truncate
  | none => .error (if x.isNaN then .notANumber else .infinite)

/-- The digits at the start of a text, and the rest. -/
def spanDigits (cs : List Char) : List Nat × List Char :=
  ((cs.takeWhile (Text.asciiDigit? · |>.isSome)).filterMap Text.asciiDigit?,
    cs.dropWhile (Text.asciiDigit? · |>.isSome))

/-- Reads an exponent after the digits of a decimal: a letter e and a signed whole number. -/
def readExponent : List Char → Option Int
  | [] => some 0
  | c :: rest =>
    if c = 'e' ∨ c = 'E' then
      (Text.readSigned Text.asciiDigit? rest).toOption
    else none

/-- The binary64 number nearest to `digits * 10^exponent`; beyond the finite range an infinity. -/
def ofDecimal (negative : Bool) (digits : Nat) (exponent : Int) : Float :=
  let (num, den) := powerOfTen exponent
  (nearest? negative (digits * num) den).getD (signedInfinity negative)

/-- Reads the decimal text of an unsigned number. -/
def readUnsigned (negative : Bool) (cs : List Char) : Option Float :=
  let (whole, rest) := spanDigits cs
  let (fraction, rest) := match rest with
    | '.' :: more => spanDigits more
    | _ => ([], rest)
  if whole.isEmpty && fraction.isEmpty then none
  else
    (readExponent rest).map fun e =>
      ofDecimal negative (Text.ofDigits (whole ++ fraction)) (e - fraction.length)

/-- Reads the text of a binary64 number: a decimal, an infinity or not-a-number. -/
def readFloat (s : String) : Option Float :=
  let (negative, body) := match s.toList with
    | '-' :: rest => (true, rest)
    | '+' :: rest => (false, rest)
    | cs => (false, cs)
  let name := String.ofList body
  if name = "nan" then some notANumber
  else if name = "inf" then some (signedInfinity negative)
  else readUnsigned negative body

end Number

end Recordset
