import Recordset.Number.Binary
set_option autoImplicit false

/-!
# The shortest decimal that reads back

Among the decimals that round to a given number, the written one has the fewest digits, and of
those with as few it is the nearest.  The search runs over the decimal grids with one digit, two
digits and so on: a grid holds such a decimal exactly when one of the two grid points around the
number does, so two exact comparisons settle each grid.
-/

namespace Recordset.Number

/-- The decimal `digits * 10^exponent`. -/
structure Decimal where
  digits : Nat
  exponent : Int
  deriving DecidableEq, Repr

/-- `10^e` as a fraction: the numerator and the denominator. -/
def powerOfTen (e : Int) : Nat × Nat :=
  if 0 ≤ e then (Nat.pow 10 e.toNat, 1) else (1, Nat.pow 10 (-e).toNat)

/-- The greatest `e` with `10^e ≤ num / den`, for positive `num` and `den`. -/
def floorLog10 (num den : Nat) : Int :=
  let guess := (floorLog2 num den * 30103).fdiv 100000
  let reaches (e : Int) : Bool :=
    let (p, q) := powerOfTen e
    decide (p * den ≤ num * q)
  if reaches (guess + 1) then guess + 1
  else if reaches guess then guess
  else guess - 1

/-- The reals that round to one number: `value`, and the ends `low` and `high`, all over the
denominator `scale`.  The ends belong to the interval when the mantissa is even. -/
structure Rounding where
  value : Nat
  low : Nat
  high : Nat
  scale : Nat
  closed : Bool

/-- The interval of a positive finite number.  Below a power of two the numbers lie twice as
dense, so the lower end is nearer there. -/
def Rounding.ofDyadic (d : Dyadic) : Rounding :=
  let below := if d.mantissa = 1 <<< 52 ∧ d.exponent ≠ -1074 then 1 else 2
  let (unit, scale) := scaleByTwo 1 (d.exponent - 2)
  { value := 4 * d.mantissa * unit
    low := (4 * d.mantissa - below) * unit
    high := (4 * d.mantissa + 2) * unit
    scale := scale
    closed := d.mantissa % 2 == 0 }

/-- The grid point of the multiples of `10^exponent` that lies in the interval and is nearest to
its value, if there is one. -/
def Rounding.onGrid (r : Rounding) (exponent : Int) : Option Decimal :=
  let (p, q) := powerOfTen exponent
  let value := r.value * q
  let step := p * r.scale
  let below := value / step
  let above := below + 1
  let lowIn :=
    if r.closed then decide (r.low * q ≤ below * step) else decide (r.low * q < below * step)
  let highIn :=
    if r.closed then decide (above * step ≤ r.high * q) else decide (above * step < r.high * q)
  match lowIn, highIn with
  | true, true =>
    let down := value - below * step
    let up := above * step - value
    let chosen := if down < up ∨ (down = up ∧ below % 2 = 0) then below else above
    some ⟨chosen, exponent⟩
  | true, false => some ⟨below, exponent⟩
  | false, true => some ⟨above, exponent⟩
  | false, false => none

/-- The same decimal without trailing zeros; `fuel` bounds how many are dropped. -/
def Decimal.strip : Nat → Decimal → Decimal
  | 0, d => d
  | fuel + 1, d =>
    if d.digits ≠ 0 ∧ d.digits % 10 = 0 then Decimal.strip fuel ⟨d.digits / 10, d.exponent + 1⟩
    else d

/-- The shortest decimal that rounds to a positive finite number. -/
def shortest (d : Dyadic) : Decimal :=
  let r := Rounding.ofDyadic d
  let leading := floorLog10 r.value r.scale
  let found := (List.range 17).findSome? fun (n : Nat) => r.onGrid (leading - n)
  (found.getD ⟨0, 0⟩).strip 20

/-- Exponents of ten, of the leading digit, that are written out in positions. -/
def isPositional (leading : Int) : Bool := decide (-4 ≤ leading) && decide (leading < 16)

/-- `n` zeros. -/
def zeros (n : Nat) : String := String.ofList (List.replicate n '0')

/-- The text of a decimal: positional with at least one place after the point, or one digit before
the point and an exponent of at least two digits. -/
def Decimal.text (d : Decimal) : String :=
  let ds := (Nat.repr d.digits).toList
  let count := ds.length
  let leading := d.exponent + count - 1
  if isPositional leading then
    if 0 ≤ d.exponent then String.ofList ds ++ zeros d.exponent.toNat ++ ".0"
    else if 0 ≤ leading then
      let whole := leading.toNat + 1
      String.ofList (ds.take whole) ++ "." ++ String.ofList (ds.drop whole)
    else "0." ++ zeros (-leading - 1).toNat ++ String.ofList ds
  else
    let fraction := if count = 1 then "" else "." ++ String.ofList (ds.drop 1)
    let size := Nat.repr leading.natAbs
    let padded := if size.length < 2 then "0" ++ size else size
    String.ofList (ds.take 1) ++ fraction ++ "e" ++ (if leading < 0 then "-" else "+") ++ padded

/-- The text of a floating number. -/
def floatText (x : Float) : String :=
  match Dyadic.ofFloat? x with
  | none => if x.isNaN then "nan" else if isNegative x then "-inf" else "inf"
  | some d =>
    let magnitude := if d.mantissa = 0 then "0.0" else (shortest d).text
    if d.negative then "-" ++ magnitude else magnitude

end Recordset.Number
