/-!
# Blanks, letter case and naturals

Blank characters are those with the property White_Space; `Text.trim` drops them at both ends.
Comparison without case, and lower case, change the letters A to Z only. Naturals are read in
decimal digits.
-/

set_option autoImplicit false

namespace DebugLink.Text

/-- The characters with the property White_Space. -/
def isBlank (c : Char) : Bool :=
  let n := c.toNat
  (9 ≤ n && n ≤ 13) || n == 0x20 || n == 0x85 || n == 0xA0 || n == 0x1680 ||
    (0x2000 ≤ n && n ≤ 0x200A) || n == 0x2028 || n == 0x2029 || n == 0x202F || n == 0x205F ||
    n == 0x3000

def dropEnd (p : Char → Bool) (cs : List Char) : List Char :=
  (cs.reverse.dropWhile p).reverse

def trimChars (cs : List Char) : List Char :=
  dropEnd isBlank (cs.dropWhile isBlank)

def trim (text : String) : String :=
  String.ofList (trimChars text.toList)

/-- Lower case for the letters A to Z. -/
def toLower (text : String) : String :=
  String.ofList (text.toList.map Char.toLower)

def equalIgnoringCase (a b : String) : Bool :=
  a.toList.map Char.toLower == b.toList.map Char.toLower

def isAllBlank (text : String) : Bool :=
  text.toList.all isBlank

/-- A natural below 2 ^ 64 in decimal digits, with or without a plus sign. -/
def natural64? (text : String) : Option Nat :=
  let digits :=
    match text.toList with
    | '+' :: rest => rest
    | cs => cs
  if digits.isEmpty || !digits.all Char.isDigit then none
  else
    let value := digits.foldl (fun value c => value * 10 + (c.toNat - '0'.toNat)) 0
    if value < 0x10000000000000000 then some value else none

def joined (separator : String) (texts : List String) : String :=
  separator.intercalate texts

end DebugLink.Text
