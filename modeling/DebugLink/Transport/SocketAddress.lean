/-!
# Socket addresses

An internet address and the number of a socket there, with a colon between them. The address is
written as four decimal numbers, or in brackets as eight groups of hexadecimal digits, where `::`
stands for a run of zeros and the last two groups may be written as four decimal numbers. The
longest run of zeros is printed as `::`, the first of several.
-/

set_option autoImplicit false

namespace DebugLink

structure IPv4Address where
  a : UInt8
  b : UInt8
  c : UInt8
  d : UInt8
deriving DecidableEq

structure IPv6Address where
  groups : List UInt16
  length_groups : groups.length = 8
deriving DecidableEq

inductive SocketAddress where
  | v4 (address : IPv4Address) (portNumber : UInt16)
  /-- A scope of zero stands for none. -/
  | v6 (address : IPv6Address) (scope : UInt32) (portNumber : UInt16)
deriving DecidableEq

namespace SocketAddress

/-! ## Reading -/

abbrev Reader := StateT (List Char) Option

namespace Reader

def char (expected : Char) : Reader Unit
  | [] => none
  | c :: rest => if c = expected then some ((), rest) else none

def digitValue (c : Char) : Nat :=
  if c.isDigit then c.toNat - '0'.toNat else c.toLower.toNat - 'a'.toNat + 10

def isHexDigit (c : Char) : Bool :=
  c.isDigit || ('a' ≤ c.toLower && c.toLower ≤ 'f')

/-- The digits at the front, as many as there are: a number below `bound`. -/
def number (isDigit : Char → Bool) (base bound : Nat) (fits : List Char → Bool) : Reader Nat :=
  fun cs =>
    let digits := cs.takeWhile isDigit
    let value := digits.foldl (fun value c => value * base + digitValue c) 0
    if digits.isEmpty || !fits digits || bound ≤ value then none
    else some (value, cs.drop digits.length)

/-- A number of one byte: at most three digits, and no leading zero. -/
def octet : Reader UInt8 :=
  UInt8.ofNat <$> number Char.isDigit 10 256 fun digits =>
    digits.length ≤ 3 && (digits.length ≤ 1 || digits.head? != some '0')

def group : Reader UInt16 :=
  UInt16.ofNat <$> number isHexDigit 16 65536 fun digits => digits.length ≤ 4

def ipv4 : Reader IPv4Address := do
  let a ← octet
  char '.'
  let b ← octet
  char '.'
  let c ← octet
  char '.'
  let d ← octet
  pure ⟨a, b, c, d⟩

def pair (address : IPv4Address) : List UInt16 :=
  [address.a.toUInt16 * 256 + address.b.toUInt16, address.c.toUInt16 * 256 + address.d.toUInt16]

/-- As many groups as there are, up to a limit, and whether the last two are an address of four
bytes. A colon stands before each group but the first. -/
def groups (first : Bool) : Nat → Reader (List UInt16 × Bool)
  | 0 => pure ([], false)
  | limit + 1 => do
    let separator : Reader Unit := if first then pure () else char ':'
    let embedded : Reader (Option (List UInt16 × Bool)) :=
      if limit = 0 then failure
      else do
        separator
        return some (pair (← ipv4), true)
    match ← embedded <|> pure none with
    | some last => pure last
    | none =>
      match ← (some <$> (do separator; group)) <|> pure none with
      | none => pure ([], false)
      | some g => do
        let (rest, ipv4) ← groups false limit
        pure (g :: rest, ipv4)

def ofGroups (groups : List UInt16) : Reader IPv6Address :=
  if h : groups.length = 8 then pure ⟨groups, h⟩ else failure

/-- Eight groups, or fewer with `::` in place of at least one. -/
def ipv6 : Reader IPv6Address := do
  let (front, ipv4) ← groups true 8
  if front.length = 8 then ofGroups front
  else if ipv4 then failure
  else do
    char ':'
    char ':'
    let (back, _) ← groups true (7 - front.length)
    ofGroups (front ++ List.replicate (8 - front.length - back.length) 0 ++ back)

def portNumber : Reader UInt16 := do
  char ':'
  UInt16.ofNat <$> number Char.isDigit 10 65536 fun _ => true

def scope : Reader UInt32 :=
  (do
    char '%'
    UInt32.ofNat <$> number Char.isDigit 10 0x100000000 fun _ => true) <|> pure 0

def address : Reader SocketAddress :=
  (do return .v4 (← ipv4) (← portNumber)) <|>
  (do
    char '['
    let address ← ipv6
    let scope ← scope
    char ']'
    return .v6 address scope (← portNumber))

end Reader

def parse? (text : String) : Option SocketAddress :=
  match Reader.address text.toList with
  | some (address, []) => some address
  | _ => none

/-! ## Printing -/

def ipv4Text (address : IPv4Address) : String :=
  s!"{address.a}.{address.b}.{address.c}.{address.d}"

def groupText (group : UInt16) : String :=
  String.ofList (Nat.toDigits 16 group.toNat)

def groupsText (groups : List UInt16) : String :=
  ":".intercalate (groups.map groupText)

def zeros (groups : List UInt16) : Nat :=
  (groups.takeWhile (· == 0)).length

/-- Where the longest run of zeros starts, the first of several, and how long it is. -/
def longestZeros : List UInt16 → Nat × Nat
  | [] => (0, 0)
  | group :: rest =>
    let here := zeros (group :: rest)
    let (start, length) := longestZeros rest
    if length ≤ here then (0, here) else (start + 1, length)

def ipv6Text (address : IPv6Address) : String :=
  match address.groups with
  | [0, 0, 0, 0, 0, 0xffff, high, low] =>
    "::ffff:" ++ ipv4Text
      ⟨(high / 256).toUInt8, high.toUInt8, (low / 256).toUInt8, low.toUInt8⟩
  | groups =>
    let (start, length) := longestZeros groups
    if length ≤ 1 then groupsText groups
    else groupsText (groups.take start) ++ "::" ++ groupsText (groups.drop (start + length))

def text : SocketAddress → String
  | .v4 address portNumber => ipv4Text address ++ ":" ++ toString portNumber
  | .v6 address scope portNumber =>
    let scope := if scope = 0 then "" else "%" ++ toString scope
    "[" ++ ipv6Text address ++ scope ++ "]:" ++ toString portNumber

end SocketAddress

end DebugLink
