import DebugLink.Json.Basic
import DebugLink.Json.Decimal

/-!
# The numerals of JSON text

`Number.read?` reads a numeral. An integer literal that fits 64 bits is itself. Any other numeral is
a double, rounded step by step: its leading digits, as far as they spell a number below `2 ^ 64`,
are rounded to a double, and that is scaled by the power of ten that is left. Up to 15 digits and
powers of ten up to 22 this is the nearest double; elsewhere it may be a neighbour of it.
-/

set_option autoImplicit false

namespace DebugLink.Number

def splitDigits (cs : List Char) : List Char × List Char :=
  cs.span Char.isDigit

/-- Appends digits to a number while it stays below `2 ^ 64`: the number, and how many digits are
left over. -/
def gather (n : Nat) : List Char → Nat × Nat
  | [] => (n, 0)
  | c :: cs =>
    let next := n * 10 + (c.toNat - '0'.toNat)
    if next < 0x10000000000000000 then gather next cs else (n, cs.length + 1)

/-- The double of a numeral with the given digits before and after the point and the given power
of ten. Digits left over before the point count as zeros, and after it not at all. -/
def double? (negative : Bool) (whole fraction : List Char) (power : Int) : Option Double :=
  let (leading, dropped) := gather 0 whole
  let (leading, ignored) := gather leading fraction
  let exponent := power + dropped - (fraction.length - ignored)
  (Double.nearest negative leading 1).bind (·.scale? exponent)

/-- The number with the given digits before and after the point and the given power of ten. An
integer literal that fits 64 bits is one; any other number, `-0` too, is a double. -/
def ofParts? (negative : Bool) (whole fraction : List Char) (power : Option Int) :
    Option Number :=
  let double := (double? negative whole fraction (power.getD 0)).map .double
  let magnitude := Nat.ofDigitChars 10 whole 0
  if fraction.isEmpty && power.isNone && !(negative && magnitude == 0) then
    (ofInt? (Double.applySign negative magnitude)).or double
  else
    double

def readPower : List Char → Option Int
  | [] => none
  | sign :: rest =>
    let digits := if sign = '+' || sign = '-' then rest else sign :: rest
    if digits.isEmpty || !digits.all Char.isDigit then none
    else some (Double.applySign (sign = '-') (Nat.ofDigitChars 10 digits 0))

def readTail (negative : Bool) (whole : List Char) : List Char → Option Number
  | [] => ofParts? negative whole [] none
  | c :: rest =>
    if c = '.' then
      let (fraction, rest) := splitDigits rest
      if fraction.isEmpty then none
      else
        match rest with
        | [] => ofParts? negative whole fraction none
        | e :: power =>
          if e = 'e' || e = 'E' then do ofParts? negative whole fraction (some (← readPower power))
          else none
    else if c = 'e' || c = 'E' then do
      ofParts? negative whole [] (some (← readPower rest))
    else
      none

/-- Reads a number: no plus sign, no zero before another digit, digits on both sides of a point.
None also when the number is too large for a double. -/
def read? (cs : List Char) : Option Number :=
  let negative := cs.head? = some '-'
  let (whole, rest) := splitDigits (if negative then cs.tail else cs)
  match whole with
  | [] => none
  | first :: more => if first = '0' && !more.isEmpty then none else readTail negative whole rest

end DebugLink.Number
