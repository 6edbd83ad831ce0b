import DebugLink.Binding.Error

/-!
# Views

A view shows a raw value as a record of some schema. It has a slot for each field of the schema,
empty until the field is decoded; a slot keeps failures like successes. Views nested in a slot
have slots of their own.
-/

set_option autoImplicit false

namespace DebugLink

mutual

inductive FieldValue where
  /-- An optional field whose member is absent. -/
  | unset
  /-- A nullable field whose member is null. -/
  | null
  | bool (value : Bool)
  | long (value : Int)
  | double (value : Double)
  | string (value : String)
  /-- The constant as declared. -/
  | enumeration (constant : String)
  | any (value : Json)
  | record (view : View)
  | variant (base type : String) (view : View)
  | list (items : List FieldValue)

inductive View where
  | mk (schema : Schema) (raw : Json) (mode : Mode)
    (slots : List (Option (Except BindingError FieldValue)))

end

/-- The slot of a field: empty, or what decoding it gave. -/
abbrev Slot := Option (Except BindingError FieldValue)

/-- A view narrowed to one candidate of a polymorphic record. -/
structure Variant where
  base : String
  type : String
  view : View

namespace View

def schema : View → Schema
  | .mk schema _ _ _ => schema

def raw : View → Json
  | .mk _ raw _ _ => raw

def mode : View → Mode
  | .mk _ _ mode _ => mode

def slots : View → List Slot
  | .mk _ _ _ slots => slots

def type (view : View) : String :=
  view.schema.id

/-- A view with nothing decoded. -/
def blank (schema : Schema) (raw : Json) (mode : Mode) : View :=
  .mk schema raw mode (schema.fields.map fun _ => none)

def setSlot (view : View) (index : Nat) (outcome : Except BindingError FieldValue) : View :=
  .mk view.schema view.raw view.mode (view.slots.set index (some outcome))

def decodedAt (view : View) (index : Nat) : Bool :=
  (view.slots[index]?.getD none).isSome

def decoded (view : View) (name : String) : Bool :=
  (view.schema.fieldIndex? name).any view.decodedAt

/-- Equality of views: one type and equal raw values. -/
def equal (a b : View) : Bool :=
  a.type == b.type && a.raw.equal b.raw

end View

namespace Variant

def raw (variant : Variant) : Json :=
  variant.view.raw

def isOf (variant : Variant) (type : String) : Bool :=
  variant.type == type

end Variant

namespace FieldValue

def asBool? : FieldValue → Option Bool
  | .bool value => some value
  | _ => none

def asLong? : FieldValue → Option Int
  | .long value => some value
  | _ => none

/-- The number in a double, or the double nearest to a long. -/
def asDouble? : FieldValue → Option Double
  | .double value => some value
  | .long value => some (.ofInt value)
  | _ => none

/-- The text of a string, or the constant of an enumeration. -/
def asString? : FieldValue → Option String
  | .string value => some value
  | .enumeration constant => some constant
  | _ => none

def asAny? : FieldValue → Option Json
  | .any value => some value
  | _ => none

def asRecord? : FieldValue → Option View
  | .record view => some view
  | .variant _ _ view => some view
  | _ => none

def asVariant? : FieldValue → Option Variant
  | .variant base type view => some ⟨base, type, view⟩
  | _ => none

def asList? : FieldValue → Option (List FieldValue)
  | .list items => some items
  | _ => none

def isUnset : FieldValue → Bool
  | .unset => true
  | _ => false

mutual

/-- Equality of decoded fields; views inside compare by type and raw value. -/
def equal : FieldValue → FieldValue → Bool
  | .unset, .unset => true
  | .null, .null => true
  | .bool a, .bool b => a == b
  | .long a, .long b => a == b
  | .double a, .double b => a.equal b
  | .string a, .string b => a == b
  | .enumeration a, .enumeration b => a == b
  | .any a, .any b => a.equal b
  | .record a, .record b => a.equal b
  | .variant base type view, .variant base' type' view' =>
    base == base' && type == type' && view.equal view'
  | .list a, .list b => equalItems a b
  | _, _ => false

def equalItems : List FieldValue → List FieldValue → Bool
  | [], [] => true
  | a :: as, b :: bs => equal a b && equalItems as bs
  | _, _ => false

end

end FieldValue

end DebugLink
