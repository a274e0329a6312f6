import Recordset.Number.Shortest
set_option autoImplicit false

/-!
# Decimals of a given precision

A number written with so many digits, each time from its exact value and rounded once, a half to the
even neighbour: `positional` gives places after the point, `scientific` one digit before the point
and an exponent, and `general` the one or the other with so many significant digits.  The point and
the zeros at the end are kept where `alternate` asks for them.
-/

namespace Recordset.Number

/-- The decimal digits of a natural number. -/
def digitsOf (n : Nat) : List Char := (Nat.repr n).toList

/-- Digits with zeros in front, at least `count` of them. -/
def padDigits (count : Nat) (ds : List Char) : List Char :=
  List.replicate (count - ds.length) '0' ++ ds

/-- Digits before and after the point; without digits after it the point is left out unless asked
for. -/
def pointed (alternate : Bool) (whole fraction : List Char) : List Char :=
  if fraction.isEmpty && !alternate then whole else whole ++ '.' :: fraction

/-- Digits without the zeros at the end. -/
def dropZeros (ds : List Char) : List Char := (ds.reverse.dropWhile (· == '0')).reverse

/-- A quotient with `places` digits after the point. -/
def positional (alternate : Bool) (places num den : Nat) : List Char :=
  let ds := padDigits (places + 1) (digitsOf (roundHalfEven (num * Nat.pow 10 places) den))
  let whole := ds.length - places
  pointed alternate (ds.take whole) (ds.drop whole)

/-- A quotient rounded to `places` digits after the leading one: all the digits, and the exponent of
the leading one. -/
def significant (places num den : Nat) : List Char × Int :=
  if num = 0 then (List.replicate (places + 1) '0', 0)
  else
    let leading := floorLog10 num den
    let (p, q) := powerOfTen (leading - places)
    let ds := digitsOf (roundHalfEven (num * q) (den * p))
    if ds.length = places + 1 then (ds, leading) else (ds.take (places + 1), leading + 1)

/-- An exponent of at least two digits. -/
def exponentText (e : Int) : List Char :=
  'e' :: (if e < 0 then '-' else '+') :: padDigits 2 (digitsOf e.natAbs)

/-- A quotient with one digit before the point, `places` after it, and an exponent. -/
def scientific (alternate : Bool) (places num den : Nat) : List Char :=
  let (ds, e) := significant places num den
  pointed alternate (ds.take 1) (ds.drop 1) ++ exponentText e

/-- A quotient with `precision` significant digits, positional where that is short. -/
def general (alternate : Bool) (precision num den : Nat) : List Char :=
  let precision := max precision 1
  let (ds, e) := significant (precision - 1) num den
  let kept (fraction : List Char) : List Char := if alternate then fraction else dropZeros fraction
  if e < -4 ∨ precision ≤ e then
    pointed alternate (ds.take 1) (kept (ds.drop 1)) ++ exponentText e
  else if e < 0 then
    pointed alternate ['0'] (kept (List.replicate (-e - 1).toNat '0' ++ ds))
  else pointed alternate (ds.take (e.toNat + 1)) (kept (ds.drop (e.toNat + 1)))

end Recordset.Number
