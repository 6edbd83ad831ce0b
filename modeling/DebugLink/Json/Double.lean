/-!
# Finite doubles

The 64-bit binary floating-point numbers other than the infinities and NaN, taken apart into
sign, biased exponent and fraction, so that every question about them is one about naturals.
`Double.nearest` rounds an exact ratio, to even on a tie; products and quotients are rounded so.
-/

set_option autoImplicit false

namespace DebugLink

/-- A finite double. Exponent 0 marks the numbers below the smallest normal one. -/
structure Double where
  negative : Bool
  exponent : Nat
  fraction : Nat
  exponent_lt : exponent < 2047
  fraction_lt : fraction < 0x10000000000000
deriving DecidableEq

namespace Double

def zero (negative : Bool) : Double :=
  ⟨negative, 0, 0, by decide, by decide⟩

instance : Inhabited Double := ⟨zero false⟩

/-- The integer factor of the magnitude, which is `significand * 2 ^ (max exponent 1 - 1075)`. -/
def significand (d : Double) : Nat :=
  if d.exponent = 0 then d.fraction else 0x10000000000000 + d.fraction

/-- The magnitude is exactly `numerator / denominator`. -/
def numerator (d : Double) : Nat :=
  d.significand * Nat.pow 2 (max d.exponent 1 - 1075)

def denominator (d : Double) : Nat :=
  Nat.pow 2 (1075 - max d.exponent 1)

theorem denominator_pos (d : Double) : 0 < d.denominator :=
  Nat.two_pow_pos _

def isZero (d : Double) : Bool :=
  d.exponent == 0 && d.fraction == 0

/-- Numeric equality: the two zeros are equal. -/
def equal (d e : Double) : Bool :=
  d == e || (d.isZero && e.isZero)

/-- The layout in memory: sign, then 11 bits of exponent, then 52 bits of fraction. -/
def bits (d : Double) : Nat :=
  (if d.negative then 0x8000000000000000 else 0) + d.exponent * 0x10000000000000 + d.fraction

def applySign (negative : Bool) (magnitude : Nat) : Int :=
  if negative then -(magnitude : Int) else magnitude

def whole? (d : Double) : Option Int :=
  if d.numerator % d.denominator = 0 then
    some (applySign d.negative (d.numerator / d.denominator))
  else
    none

/-- The quotient rounded to the nearest integer, a half to the even neighbour. -/
def roundHalfEven (num den : Nat) : Nat :=
  let low := num / den
  let rest := 2 * (num % den)
  if rest < den then low
  else if den < rest then low + 1
  else low + low % 2

/-- The greatest `k` with `2 ^ k ≤ num / den`, for positive arguments. -/
def floorLog2 (num den : Nat) : Int :=
  let k : Int := (num.log2 : Int) - den.log2
  if num * Nat.pow 2 (-k).toNat < den * Nat.pow 2 k.toNat then k - 1 else k

/-- `n * 2 ^ scale` as a double, for a factor below `2 ^ 53` that is normal or at the least
scale. -/
def ofParts? (negative : Bool) (n : Nat) (scale : Int) : Option Double :=
  if h : n < 0x10000000000000 then
    some ⟨negative, 0, n, by decide, h⟩
  else if h : (scale + 1075).toNat < 2047 ∧ n - 0x10000000000000 < 0x10000000000000 then
    some ⟨negative, (scale + 1075).toNat, n - 0x10000000000000, h.1, h.2⟩
  else
    none

/-- The double nearest to `num / den`; none when the rounded value is out of range. -/
def nearest (negative : Bool) (num den : Nat) : Option Double :=
  if num = 0 then
    some (zero negative)
  else
    let scale := max (floorLog2 num den - 52) (-1074)
    let n := roundHalfEven (num * Nat.pow 2 (-scale).toNat) (den * Nat.pow 2 scale.toNat)
    if n = 0x20000000000000 then ofParts? negative 0x10000000000000 (scale + 1)
    else ofParts? negative n scale

def mul? (d e : Double) : Option Double :=
  nearest (d.negative != e.negative) (d.numerator * e.numerator) (d.denominator * e.denominator)

def div? (d e : Double) : Option Double :=
  nearest (d.negative != e.negative) (d.numerator * e.denominator) (d.denominator * e.numerator)

def ofInt (n : Int) : Double :=
  (nearest (n < 0) n.natAbs 1).getD (zero false)

end Double

end DebugLink
