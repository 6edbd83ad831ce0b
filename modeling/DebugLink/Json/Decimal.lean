import DebugLink.Json.Double

/-!
# Doubles in decimal

Three things: the double nearest to a decimal, a double times a power of ten, and the shortest
decimal to which a given double is nearest. `Double.shortest` walks the decimal grids from coarse to
fine and takes, on the first grid with a point in the rounding interval, the point nearest to the
number.
-/

set_option autoImplicit false

namespace DebugLink

namespace Double

/-- The number of decimal digits of a natural; zero has one. -/
def digitCount (n : Nat) : Nat :=
  (Nat.toDigits 10 n).length

/-- The double nearest to `digits * 10 ^ exponent`; none on overflow. Far beyond the range the
power is not formed: the number of digits already decides. -/
def ofDecimal (negative : Bool) (digits : Nat) (exponent : Int) : Option Double :=
  if digits = 0 then
    some (zero negative)
  else if 310 < exponent + digitCount digits then
    none
  else if exponent + digitCount digits < -330 then
    some (zero negative)
  else
    nearest negative (digits * Nat.pow 10 exponent.toNat) (Nat.pow 10 (-exponent).toNat)

def topPower : Nat := 308

def powerOfTen (k : Nat) : Double :=
  (nearest false (Nat.pow 10 k) 1).getD (zero false)

/-- Divides a double by the top power, and adds that to the exponent left, as long as the exponent
is below the range of powers. Three quotients make any double zero. -/
def lower : Nat → Double → Int → Double × Int
  | 0, d, exponent => (d, exponent)
  | more + 1, d, exponent =>
    if d.isZero || -(topPower : Int) ≤ exponent then (d, exponent)
    else
      lower more ((d.div? (powerOfTen topPower)).getD (zero d.negative)) (exponent + topPower)

/-- A double times `10 ^ exponent`, as a product or quotient with a rounded power of ten, after
quotients by the top power where the exponent is below the range of powers. Each of them is rounded.
None on overflow. -/
def scale? (d : Double) (exponent : Int) : Option Double :=
  let (d, exponent) := lower 3 d exponent
  if d.isZero then some d
  else if (topPower : Int) < exponent then none
  else if 0 ≤ exponent then d.mul? (powerOfTen exponent.toNat)
  else d.div? (powerOfTen (-exponent).toNat)

/-- Four times the ends of the interval of numbers that round to a double, over four times its
denominator: half a spacing to either side, a quarter below a power of two. -/
def roundingEnds (d : Double) : Nat × Nat :=
  let unit := Nat.pow 2 (max d.exponent 1 - 1075)
  let below := if d.fraction = 0 && 1 < d.exponent then 1 else 2
  (4 * d.numerator - below * unit, 4 * d.numerator + 2 * unit)

/-- Whether `n * 10 ^ e` rounds to `d`, where `d` is positive. -/
def isNearestTo (d : Double) (n : Nat) (e : Int) : Bool :=
  let (low, high) := d.roundingEnds
  let value := 4 * n * Nat.pow 10 e.toNat * d.denominator
  let unit := Nat.pow 10 (-e).toNat
  if d.significand % 2 = 0 then
    low * unit ≤ value && value ≤ high * unit
  else
    low * unit < value && value < high * unit

/-- The power of ten at the first digit: `10 ^ p ≤ num / den < 10 ^ (p + 1)`. -/
def leadingPower (num den : Nat) : Int :=
  if den ≤ num then (digitCount (num / den) : Int) - 1
  else -(digitCount ((den - 1) / num) : Int)

/-- Of the two neighbours of `d` on the grid of multiples of `10 ^ e`, the nearer one to which `d`
is nearest; a tie goes to the even one. -/
def gridPoint (d : Double) (e : Int) : Option Nat :=
  let num := d.numerator * Nat.pow 10 (-e).toNat
  let den := d.denominator * Nat.pow 10 e.toNat
  let low := num / den
  let near := roundHalfEven num den
  let far := if near = low then low + 1 else low
  if d.isNearestTo near e then some near
  else if d.isNearestTo far e then some far
  else none

/-- The shortest digits and their power of ten, looking at grids of `count` digits and more. -/
def shortestFrom (d : Double) (top : Int) : Nat → Nat → Nat × Int
  | 0, count => (roundHalfEven (d.numerator * Nat.pow 10 (count - 1 - top).toNat)
      (d.denominator * Nat.pow 10 (top - (count - 1)).toNat), top - (count - 1))
  | more + 1, count =>
    match d.gridPoint (top - (count - 1)) with
    | some n => (n, top - (count - 1))
    | none => shortestFrom d top more (count + 1)

/-- Drops the zeros at the end of a positive number into its power of ten. -/
def dropZeros : Nat → Nat → Int → Nat × Int
  | 0, n, e => (n, e)
  | more + 1, n, e => if n % 10 = 0 then dropZeros more (n / 10) (e + 1) else (n, e)

/-- The decimal with the fewest digits to which `d` is the nearest double, and among those the one
nearest to `d`. -/
def shortest (d : Double) : Nat × Int :=
  if d.isZero then (0, 0)
  else
    let (n, e) := shortestFrom d (leadingPower d.numerator d.denominator) 16 1
    dropZeros 17 n e

end Double

end DebugLink
