import DebugLink.Json.Decimal
import DebugLink.Toml.Basic

/-!
# TOML numbers, booleans and dates

What a run of characters without quotes means. A number is told by its shape, and may turn out to
have no value: a float that is too large, a prefix without digits, or an integer that goes on with
other characters after an underscore. Dates and times have to be right at once.
-/

set_option autoImplicit false

namespace DebugLink.Toml.Scalar

def digitValue (c : Char) : Nat :=
  if c.isDigit then c.toNat - '0'.toNat else c.toLower.toNat - 'a'.toNat + 10

def isDigitIn (base : Nat) (c : Char) : Bool :=
  (c.isDigit || ('a' ≤ c.toLower && c.toLower ≤ 'f')) && digitValue c < base

/-- The digits of a numeral, without the underscores; none if there are no digits, or anything
else. -/
def digits? (base : Nat) (cs : List Char) : Option (List Char) :=
  let digits := cs.filter (· != '_')
  if digits.isEmpty || !digits.all (isDigitIn base) then none else some digits

def value (base : Nat) (digits : List Char) : Nat :=
  digits.foldl (fun value c => value * base + digitValue c) 0

/-- Whether each underscore of a numeral stands between digits. -/
def isGrouped (isDigit : Char → Bool) (cs : List Char) : Bool :=
  cs.head? != some '_' && cs.getLast? != some '_' &&
    (cs.zip cs.tail).all fun (a, b) => (a != '_' || isDigit b) && (b != '_' || isDigit a)

def signed : List Char → Bool × List Char
  | '-' :: rest => (true, rest)
  | '+' :: rest => (false, rest)
  | cs => (false, cs)

def isPowerMark (c : Char) : Bool := c = 'e' || c = 'E'

/-! ## Integers -/

def prefixed? (base : Nat) (cs : List Char) : Option Value :=
  if cs.all (fun c => c = '_' || isDigitIn base c) && isGrouped (isDigitIn base) cs then
    some (.integer ((digits? base cs).map fun digits => value base digits))
  else
    none

/-- Reads an integer in base ten, without a zero in front of others. What follows the first
underscore is not looked at closely: digits up to base sixteen may stand around underscores, and
other characters elsewhere. -/
def decimal? (cs : List Char) : Option Value :=
  let (negative, rest) := signed cs
  let group := rest.takeWhile Char.isDigit
  let others := rest.drop group.length
  let isInteger := others.isEmpty ||
    (others.head? = some '_' && !others.any fun c => c = '.' || isPowerMark c)
  if !rest.isEmpty && isInteger && (rest = ['0'] || rest.head? != some '0') &&
      isGrouped (isDigitIn 16) rest then
    some (.integer ((digits? 10 rest).map fun digits =>
      Double.applySign negative (value 10 digits)))
  else
    none

def integer? : List Char → Option Value
  | '0' :: 'x' :: cs => prefixed? 16 cs
  | '0' :: 'o' :: cs => prefixed? 8 cs
  | '0' :: 'b' :: cs => prefixed? 2 cs
  | cs => decimal? cs

/-! ## Floats -/

/-- Digits before the point, without a zero in front of others. -/
def whole? (cs : List Char) : Option (List Char) :=
  (digits? 10 cs).filter fun digits => digits.length = 1 || digits.head? != some '0'

/-- The digits after the point, which none or some may follow the whole part. -/
def fraction? : List Char → Option (List Char)
  | [] => some []
  | '.' :: cs => digits? 10 cs
  | _ => none

def exponent? : List Char → Option Int
  | [] => some 0
  | _ :: cs =>
    let (negative, rest) := signed cs
    (digits? 10 rest).map fun digits => Double.applySign negative (value 10 digits)

/-- Reads a float: a decimal with a point or a power of ten, or a special one. -/
def float? (cs : List Char) : Option Value :=
  let (negative, rest) := signed cs
  if rest = ['i', 'n', 'f'] || rest = ['n', 'a', 'n'] then some (.float (String.ofList cs) false)
  else
    let mantissa := rest.takeWhile fun c => !isPowerMark c
    let whole := mantissa.takeWhile (· != '.')
    match whole? whole, fraction? (mantissa.drop whole.length),
        exponent? (rest.drop mantissa.length) with
    | some digits, some fraction, some exponent =>
      if whole.length < rest.length && isGrouped Char.isDigit rest then
        let double := Double.ofDecimal negative (value 10 (digits ++ fraction))
          (exponent - fraction.length)
        some (.float (String.ofList cs) double.isNone)
      else
        none
    | _, _, _ => none

/-! ## Dates and times -/

def fixed? (count : Nat) (cs : List Char) : Option (Nat × List Char) :=
  let digits := cs.take count
  if digits.length = count && digits.all Char.isDigit then some (value 10 digits, cs.drop count)
  else none

def after? (c : Char) : List Char → Option (List Char)
  | first :: rest => if first = c then some rest else none
  | [] => none

def isLeap (year : Nat) : Bool :=
  year % 4 = 0 && (year % 100 ≠ 0 || year % 400 = 0)

def daysIn (year month : Nat) : Nat :=
  if month = 2 then (if isLeap year then 29 else 28)
  else if month = 4 || month = 6 || month = 9 || month = 11 then 30
  else 31

def date? (cs : List Char) : Option (List Char) := do
  let (year, cs) ← fixed? 4 cs
  let (month, cs) ← fixed? 2 (← after? '-' cs)
  let (day, cs) ← fixed? 2 (← after? '-' cs)
  if 1 ≤ month && month ≤ 12 && 1 ≤ day && day ≤ daysIn year month then some cs else none

def subseconds? : List Char → Option (List Char)
  | '.' :: cs =>
    if (cs.takeWhile Char.isDigit).isEmpty then none else some (cs.dropWhile Char.isDigit)
  | cs => some cs

/-- Takes a time off the front. The seconds may be absent. -/
def time? (cs : List Char) : Option (List Char) := do
  let (hour, cs) ← fixed? 2 cs
  let (minute, cs) ← fixed? 2 (← after? ':' cs)
  if 23 < hour || 59 < minute then none
  else
    match cs with
    | ':' :: cs => do
      let (second, cs) ← fixed? 2 cs
      if 60 < second then none else subseconds? cs
    | cs => some cs

/-- Whether characters are an offset from universal time, or none. -/
def isOffset : List Char → Bool
  | [] => true
  | ['Z'] | ['z'] => true
  | sign :: cs =>
    let read : Option Bool := do
      let (hour, cs) ← fixed? 2 cs
      let (minute, cs) ← fixed? 2 (← after? ':' cs)
      pure (hour ≤ 23 && minute ≤ 59 && cs.isEmpty)
    (sign = '+' || sign = '-') && read.getD false

def isDateTime (cs : List Char) : Bool :=
  match date? cs with
  | some [] => true
  | some (separator :: rest) =>
    (separator = 'T' || separator = 't' || separator = ' ') && ((time? rest).any isOffset)
  | none => time? cs = some []

def ofChars? (cs : List Char) : Option Value :=
  if cs = ['t', 'r', 'u', 'e'] then some (.boolean true)
  else if cs = ['f', 'a', 'l', 's', 'e'] then some (.boolean false)
  else
    integer? cs <|> float? cs <|>
      if isDateTime cs then some (.dateTime (String.ofList cs)) else none

end DebugLink.Toml.Scalar
