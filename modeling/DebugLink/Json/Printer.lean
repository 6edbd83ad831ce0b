import DebugLink.Json.Basic
import DebugLink.Json.Decimal

/-!
# Writing JSON text

`Json.render` writes a value without any blank. Doubles have the fewest digits that tell them
from other doubles, in positional notation from `1e-5` up to `1e16` and with a power of ten
elsewhere.
-/

set_option autoImplicit false

namespace DebugLink

namespace Double

/-- The decimal notation of positive digits times a power of ten. -/
def layout (digits : List Char) (exponent : Int) : List Char :=
  let count : Int := digits.length
  let point := count + exponent
  if 0 ≤ exponent && point ≤ 16 then
    digits ++ List.replicate exponent.toNat '0' ++ ['.', '0']
  else if 0 < point && point ≤ 16 then
    digits.take point.toNat ++ '.' :: digits.drop point.toNat
  else if -5 < point && point ≤ 0 then
    '0' :: '.' :: List.replicate (-point).toNat '0' ++ digits
  else
    let power := point - 1
    let mark := ['e', if power < 0 then '-' else '+'] ++ Nat.toDigits 10 power.natAbs
    match digits with
    | [] => mark
    | [single] => single :: mark
    | first :: rest => first :: '.' :: rest ++ mark

/-- The shortest text of a number to which the double is nearest. -/
def chars (d : Double) : List Char :=
  let (digits, exponent) := d.shortest
  let body := layout (Nat.toDigits 10 digits) exponent
  if d.negative then '-' :: body else body

end Double

def Number.chars : Number → List Char
  | .integer value _ _ =>
    if value < 0 then '-' :: Nat.toDigits 10 value.natAbs else Nat.toDigits 10 value.natAbs
  | .double value => value.chars

namespace Json

def escape (c : Char) : List Char :=
  if c = '"' then ['\\', '"']
  else if c = '\\' then ['\\', '\\']
  else if c = '\x08' then ['\\', 'b']
  else if c = '\x0c' then ['\\', 'f']
  else if c = '\n' then ['\\', 'n']
  else if c = '\r' then ['\\', 'r']
  else if c = '\t' then ['\\', 't']
  else if c.toNat < 0x20 then
    ['\\', 'u', '0', '0', Nat.digitChar (c.toNat / 16), Nat.digitChar (c.toNat % 16)]
  else [c]

def quote (text : String) : List Char :=
  '"' :: text.toList.flatMap escape ++ ['"']

mutual

def chars : Json → List Char
  | .null => ['n', 'u', 'l', 'l']
  | .bool true => ['t', 'r', 'u', 'e']
  | .bool false => ['f', 'a', 'l', 's', 'e']
  | .number n => n.chars
  | .string s => quote s
  | .array items => '[' :: charsItems items ++ [']']
  | .object members => '\x7b' :: charsMembers members ++ ['\x7d']

def charsItems : List Json → List Char
  | [] => []
  | [item] => chars item
  | item :: rest => chars item ++ ',' :: charsItems rest

def charsMembers : List (String × Json) → List Char
  | [] => []
  | [(key, value)] => quote key ++ ':' :: chars value
  | (key, value) :: rest => quote key ++ ':' :: chars value ++ ',' :: charsMembers rest

end

def render (value : Json) : String :=
  String.ofList value.chars

end Json

end DebugLink
