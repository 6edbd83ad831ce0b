import DebugLink.Json.Double

/-!
# JSON values

Numbers keep apart integers of 64 bits, signed or unsigned, and doubles: `1` and `1.0` are
different values. An object lists its members by strictly increasing key (`Json.Ordered`), and
`Json.insert` keeps that.
-/

set_option autoImplicit false

namespace DebugLink

/-- A number: an integer that fits 64 bits, signed or unsigned, or a double. -/
inductive Number where
  | integer (value : Int) (lower : -0x8000000000000000 ≤ value)
    (upper : value < 0x10000000000000000)
  | double (value : Double)
deriving DecidableEq

inductive Json where
  | null
  | bool (value : Bool)
  | number (value : Number)
  | string (value : String)
  | array (items : List Json)
  | object (members : List (String × Json))

instance : Inhabited Json := ⟨.null⟩

/-- The kinds of value that a message tells apart. -/
inductive Shape where
  | null
  | boolean
  | number
  | fractionalNumber
  | string
  | array
  | object
deriving DecidableEq

def Shape.name : Shape → String
  | .null => "null"
  | .boolean => "boolean"
  | .number => "number"
  | .fractionalNumber => "fractional number"
  | .string => "string"
  | .array => "array"
  | .object => "object"

namespace Number

def toDouble : Number → Double
  | .integer value _ _ => .ofInt value
  | .double value => value

def whole? : Number → Option Int
  | .integer value _ _ => some value
  | .double value => value.whole?

/-- Numeric equality within one representation; an integer never equals a double. -/
def equal : Number → Number → Bool
  | .integer a _ _, .integer b _ _ => a == b
  | .double a, .double b => a.equal b
  | _, _ => false

def ofInt? (value : Int) : Option Number :=
  if h : -0x8000000000000000 ≤ value ∧ value < 0x10000000000000000 then
    some (.integer value h.1 h.2)
  else
    none

end Number

namespace Json

def ofUInt64 (n : UInt64) : Json :=
  .number (.integer n.toNat (by omega) (by have := n.toNat_lt; omega))

def shape : Json → Shape
  | .null => .null
  | .bool _ => .boolean
  | .number n => if n.whole?.isSome then .number else .fractionalNumber
  | .string _ => .string
  | .array _ => .array
  | .object _ => .object

def asBool? : Json → Option Bool
  | .bool value => some value
  | _ => none

def asString? : Json → Option String
  | .string value => some value
  | _ => none

def asNumber? : Json → Option Number
  | .number value => some value
  | _ => none

def asItems? : Json → Option (List Json)
  | .array items => some items
  | _ => none

def asMembers? : Json → Option (List (String × Json))
  | .object members => some members
  | _ => none

/-- A number written as an unsigned 64-bit integer. -/
def asUInt64? : Json → Option UInt64
  | .number (.integer value _ _) => if 0 ≤ value then some (UInt64.ofNat value.toNat) else none
  | _ => none

def get? (value : Json) (key : String) : Option Json :=
  value.asMembers?.bind (·.lookup key)

/-- Adds a member at its place in the order of keys, in place of one of the same key. -/
def insert (key : String) (value : Json) : List (String × Json) → List (String × Json)
  | [] => [(key, value)]
  | (k, v) :: rest =>
    if key < k then (key, value) :: (k, v) :: rest
    else if key = k then (key, value) :: rest
    else (k, v) :: insert key value rest

/-- An object of the given members; of several with one key the last counts. -/
def ofMembers (members : List (String × Json)) : Json :=
  .object (members.foldl (fun sorted member => insert member.1 member.2 sorted) [])

mutual

def depth : Json → Nat
  | .array items => depthItems items + 1
  | .object members => depthMembers members + 1
  | _ => 0

def depthItems : List Json → Nat
  | [] => 0
  | item :: rest => max (depth item) (depthItems rest)

def depthMembers : List (String × Json) → Nat
  | [] => 0
  | (_, value) :: rest => max (depth value) (depthMembers rest)

end

mutual

/-- Equality of values: the two zeros of the doubles are equal, all else is as written. -/
def equal : Json → Json → Bool
  | .null, .null => true
  | .bool a, .bool b => a == b
  | .number a, .number b => a.equal b
  | .string a, .string b => a == b
  | .array a, .array b => equalItems a b
  | .object a, .object b => equalMembers a b
  | _, _ => false

def equalItems : List Json → List Json → Bool
  | [], [] => true
  | a :: as, b :: bs => equal a b && equalItems as bs
  | _, _ => false

def equalMembers : List (String × Json) → List (String × Json) → Bool
  | [], [] => true
  | (k, a) :: as, (l, b) :: bs => k == l && equal a b && equalMembers as bs
  | _, _ => false

end

mutual

/-- Every object inside lists its members by strictly increasing key. -/
def Ordered : Json → Prop
  | .array items => OrderedItems items
  | .object members => (members.map Prod.fst).Pairwise (· < ·) ∧ OrderedMembers members
  | _ => True

def OrderedItems : List Json → Prop
  | [] => True
  | item :: rest => Ordered item ∧ OrderedItems rest

def OrderedMembers : List (String × Json) → Prop
  | [] => True
  | (_, value) :: rest => Ordered value ∧ OrderedMembers rest

end

theorem depth_le_of_mem {item : Json} {items : List Json} (h : item ∈ items) :
    item.depth ≤ depthItems items := by
  induction items with
  | nil => cases h
  | cons first rest ih =>
    rw [depthItems]
    cases h with
    | head => exact Nat.le_max_left _ _
    | tail _ h => exact Nat.le_trans (ih h) (Nat.le_max_right _ _)

theorem depth_le_of_lookup {key : String} {value : Json} {members : List (String × Json)}
    (h : members.lookup key = some value) : value.depth ≤ depthMembers members := by
  induction members with
  | nil => cases h
  | cons first rest ih =>
    obtain ⟨k, v⟩ := first
    rw [depthMembers]
    rw [List.lookup_cons] at h
    split at h
    · cases h
      exact Nat.le_max_left _ _
    · exact Nat.le_trans (ih h) (Nat.le_max_right _ _)

theorem depth_lt_of_get? {value part : Json} {key : String} (h : value.get? key = some part) :
    part.depth < value.depth := by
  cases value with
  | object members => exact Nat.lt_succ_of_le (depth_le_of_lookup h)
  | _ => cases h

end Json

end DebugLink
