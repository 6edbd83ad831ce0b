import DebugLink.Json.Basic
import DebugLink.Text.Blank

/-!
# Record schemas

A schema names the fields of a record and the kind of each. A record may be polymorphic: it then
lists candidates that narrow it, told apart by conditions on the raw object or by trying each.
-/

set_option autoImplicit false

namespace DebugLink

/-- When the fields of a view are decoded: all at once, or each on its first access. -/
inductive Mode where
  | eager
  | lazy
deriving DecidableEq

inductive Kind where
  | boolean
  /-- A number that is an integer of 64 bits. -/
  | long
  | double
  | string
  | any
  /-- One of some constants, in any case. -/
  | enumeration (constants : List String)
  | record (type : String)
  /-- A record narrowed to one of the candidates of `base`. -/
  | subtype (base : String)
  | list (element : Kind)

namespace Kind

def text : Kind → String
  | .boolean => "boolean"
  | .long => "long"
  | .double => "double"
  | .string => "string"
  | .any => "any value"
  | .enumeration constants => "one of [" ++ Text.joined ", " constants ++ "]"
  | .record type => "record " ++ type
  | .subtype base => "subtype of " ++ base
  | .list element => "list of " ++ element.text

/-- A reference of a kind to a registered type, which has to be polymorphic or not. -/
structure Reference where
  type : String
  polymorphic : Bool

def reference? : Kind → Option Reference
  | .record type => some ⟨type, false⟩
  | .subtype base => some ⟨base, true⟩
  | .list element => element.reference?
  | _ => none

end Kind

/-- A declared field. It is read from the member `wire` of the raw object. -/
structure Field where
  name : String
  wire : String
  optional : Bool
  nullable : Bool
  kind : Kind
  /-- Overrides the mode of the view that the field belongs to. -/
  mode : Option Mode

inductive Condition where
  | isBool (field : String) (expected : Bool)
  /-- A string equal to `expected`, in any case. -/
  | isString (field : String) (expected : String)
  | present (field : String)
  | absent (field : String)
  | nonNull (field : String)

inductive Condition.Failure where
  | missing
  | expectedAbsent
  | expectedNonNull
  | expectedBool (expected : Bool)
  | expectedString (expected : String)
deriving DecidableEq

namespace Condition

def Failure.message : Failure → String
  | .missing => "missing"
  | .expectedAbsent => "expected absent"
  | .expectedNonNull => "expected non-null"
  | .expectedBool expected => "expected " ++ (if expected then "true" else "false")
  | .expectedString expected => "expected '" ++ expected ++ "'"

def field : Condition → String
  | .isBool field _ | .isString field _ | .present field | .absent field | .nonNull field => field

def failure? (condition : Condition) (members : List (String × Json)) : Option Failure :=
  match condition, members.lookup condition.field with
  | .absent _, none => none
  | .absent _, some _ => some .expectedAbsent
  | _, none => some .missing
  | .present _, some _ => none
  | .nonNull _, some value => if value.shape = .null then some .expectedNonNull else none
  | .isBool _ expected, some value =>
    if value.asBool? = some expected then none else some (.expectedBool expected)
  | .isString _ expected, some value =>
    if value.asString?.any (Text.equalIgnoringCase · expected) then none
    else some (.expectedString expected)

end Condition

/-- A record type that may narrow a polymorphic one, and when it does. -/
structure Candidate where
  type : String
  conditions : List Condition

/-- How a polymorphic record picks among its candidates. -/
inductive Rule where
  /-- By their conditions, which must hold for exactly one. -/
  | discriminated
  /-- By binding each in turn. -/
  | structural
deriving DecidableEq

structure Subtypes where
  rule : Rule
  candidates : List Candidate

namespace Subtypes

def position? (subtypes : Subtypes) (type : String) : Option Nat :=
  subtypes.candidates.findIdx? (·.type == type)

def lists (subtypes : Subtypes) (type : String) : Bool :=
  (subtypes.position? type).isSome

end Subtypes

structure Schema where
  id : String
  fields : List Field
  /-- Whether the raw object may hold members that no field is read from. -/
  allowsOthers : Bool
  base : Option String
  subtypes : Option Subtypes

namespace Schema

def fieldIndex? (schema : Schema) (name : String) : Option Nat :=
  schema.fields.findIdx? (·.name == name)

def firstMissing? (schema : Schema) (members : List (String × Json)) : Option Field :=
  schema.fields.find? fun field => !field.optional && (members.lookup field.wire).isNone

def declares (schema : Schema) (key : String) : Bool :=
  schema.fields.any (·.wire == key)

/-- The first member, in the order of the object, that a closed record does not declare. -/
def undeclared? (schema : Schema) (members : List (String × Json)) : Option String :=
  if schema.allowsOthers then none
  else (members.find? fun member => !schema.declares member.1).map Prod.fst

end Schema

end DebugLink
