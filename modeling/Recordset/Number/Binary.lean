set_option autoImplicit false

/-!
# Binary64 numbers as exact quantities

A finite binary64 number is a mantissa times a power of two.  This module reads that pair off the
word (`Dyadic.ofFloat?`) and goes back from an exact quotient to the nearest number, ties to the
even neighbour (`nearest?`).  Everything in between is done on natural numbers, so rounding happens
once and in one place.
-/

namespace Recordset.Number

/-- The finite number `(-1)^negative * mantissa * 2^exponent`. -/
structure Dyadic where
  negative : Bool
  mantissa : Nat
  exponent : Int
  deriving DecidableEq, Repr

/-- The exact value of a finite number; none for the infinities and for not-a-number. -/
def Dyadic.ofFloat? (x : Float) : Option Dyadic :=
  let word := x.toBits.toNat
  let field : Nat := word >>> 52 % (1 <<< 11)
  let fraction : Nat := word % (1 <<< 52)
  let negative := decide (1 <<< 63 ≤ word)
  if field = 2047 then none
  else if field = 0 then some ⟨negative, fraction, -1074⟩
  else some ⟨negative, 1 <<< 52 + fraction, (field : Int) - 1075⟩

/-- `n * 2^e` as a fraction: the numerator and the denominator. -/
def scaleByTwo (n : Nat) (e : Int) : Nat × Nat :=
  if 0 ≤ e then (n <<< e.toNat, 1) else (n, 1 <<< (-e).toNat)

/-- The signed numerator and the denominator of an exact value. -/
def Dyadic.ratio (d : Dyadic) : Int × Nat :=
  let (num, den) := scaleByTwo d.mantissa d.exponent
  (if d.negative then -(num : Int) else num, den)

/-- The whole part of an exact value, towards zero. -/
def Dyadic.truncate (d : Dyadic) : Int :=
  let (num, den) := d.ratio
  num.tdiv den

/-- The quotient of two natural numbers rounded to the nearest, a half to the even neighbour. -/
def roundHalfEven (num den : Nat) : Nat :=
  let whole := num / den
  let rest := num % den
  if 2 * rest < den then whole
  else if den < 2 * rest then whole + 1
  else whole + whole % 2

/-- The greatest `e` with `2^e ≤ num / den`, for positive `num` and `den`. -/
def floorLog2 (num den : Nat) : Int :=
  let guess : Int := (num.log2 : Int) - (den.log2 : Int)
  let (low, high) := scaleByTwo den guess
  if low ≤ num * high then guess else guess - 1

/-- The word of the number nearest to `num / den`, and whether it is beyond the finite range. -/
def nearestWord (num den : Nat) : Nat :=
  if num = 0 then 0
  else
    let exponent := max (floorLog2 num den - 52) (-1074)
    let mantissa :=
      if 0 ≤ exponent then roundHalfEven num (den <<< exponent.toNat)
      else roundHalfEven (num <<< (-exponent).toNat) den
    (exponent + 1074).toNat <<< 52 + mantissa

/-- The word at which the infinities start. -/
def infinityWord : Nat := 2047 <<< 52

/-- The number nearest to a signed quotient; none where the finite range ends below it. -/
def nearest? (negative : Bool) (num den : Nat) : Option Float :=
  let word := nearestWord num den
  if infinityWord ≤ word then none
  else some (Float.ofBits (UInt64.ofNat (word + if negative then 1 <<< 63 else 0)))

/-- Positive infinity. -/
def infinity : Float := Float.ofBits (UInt64.ofNat infinityWord)

/-- The negative infinity or the positive one. -/
def signedInfinity (negative : Bool) : Float := if negative then -infinity else infinity

/-- Not-a-number. -/
def notANumber : Float := Float.ofBits (UInt64.ofNat (infinityWord + 1 <<< 51))

/-- The sign bit, which also zeros and infinities have. -/
def isNegative (x : Float) : Bool := decide (1 <<< 63 ≤ x.toBits.toNat)

/-- A zero with the sign of `x`. -/
def zeroLike (x : Float) : Float := if isNegative x then -0.0 else 0.0

/-- The remainder of `x` by `y`, exact and with the sign of `x`. -/
def remainder (x y : Float) : Float :=
  match Dyadic.ofFloat? x, Dyadic.ofFloat? y with
  | some a, some b =>
    if b.mantissa = 0 then notANumber
    else
      let least := min a.exponent b.exponent
      let left := a.mantissa <<< (a.exponent - least).toNat
      let right := b.mantissa <<< (b.exponent - least).toNat
      let (num, den) := scaleByTwo (left % right) least
      (nearest? a.negative num den).getD notANumber
  | some _, none => if y.isNaN then notANumber else x
  | none, _ => notANumber

end Recordset.Number
