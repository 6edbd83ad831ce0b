import DebugLink.Json.Members
import DebugLink.Schema.Registry

/-!
# Schemas in JSON

A schema can be read from a JSON object and described as one. In the first, a kind is a word or an
object with one member; in the description it is the text that messages show.
-/

set_option autoImplicit false

namespace DebugLink

def Mode.name : Mode → String
  | .eager => "eager"
  | .lazy => "lazy"

def Mode.ofName? : String → Option Mode
  | "eager" => some .eager
  | "lazy" => some .lazy
  | _ => none

/-- Reads a kind; what is no kind of its own is any value. -/
def Kind.ofJson : Json → Kind
  | .string "bool" => .boolean
  | .string "long" => .long
  | .string "double" => .double
  | .string "string" => .string
  | .object [("record", .string type)] => .record type
  | .object [("poly", .string base)] => .subtype base
  | .object [("enum", .array constants)] => .enumeration (constants.filterMap Json.asString?)
  | .object [("list", element)] => .list (ofJson element)
  | _ => .any

def Field.ofJson (value : Json) : Field where
  name := value.text "name"
  wire := (value.text? "wire").getD (value.text "name")
  optional := value.flag "optional"
  nullable := value.flag "nullable"
  kind := .ofJson ((value.get? "kind").getD .null)
  mode := Mode.ofName? (value.text "mode")

def Condition.ofJson? : Json → Option Condition
  | .array [.string "bool", .string field, .bool expected] => some (.isBool field expected)
  | .array [.string "string", .string field, .string expected] => some (.isString field expected)
  | .array [.string "present", .string field] => some (.present field)
  | .array [.string "absent", .string field] => some (.absent field)
  | .array [.string "nonnull", .string field] => some (.nonNull field)
  | _ => none

def Condition.toJson : Condition → Json
  | .isBool field expected => .array [.string "bool", .string field, .bool expected]
  | .isString field expected => .array [.string "string", .string field, .string expected]
  | .present field => .array [.string "present", .string field]
  | .absent field => .array [.string "absent", .string field]
  | .nonNull field => .array [.string "nonnull", .string field]

def Candidate.ofJson (value : Json) : Candidate :=
  ⟨value.text "type", (value.items "when").filterMap Condition.ofJson?⟩

/-- The candidates listed in a schema: under `discriminated` with their conditions, or under
`structural` by their types alone. -/
def Subtypes.ofJson? (value : Json) : Option Subtypes :=
  if (value.get? "discriminated").isSome then
    some ⟨.discriminated, (value.items "discriminated").map Candidate.ofJson⟩
  else if (value.get? "structural").isSome then
    some ⟨.structural, (value.texts "structural").map (⟨·, []⟩)⟩
  else
    none

namespace Schema

def ofJson (value : Json) : Schema where
  id := value.text "id"
  fields := (value.items "fields").map Field.ofJson
  allowsOthers := !value.flag "closed"
  base := value.text? "base"
  subtypes := Subtypes.ofJson? value

def nullable (text : Option String) : Json :=
  (text.map Json.string).getD .null

def describeField (field : Field) : Json :=
  .ofMembers [
    ("name", .string field.name),
    ("wire", .string field.wire),
    ("optional", .bool field.optional),
    ("nullable", .bool field.nullable),
    ("kind", .string field.kind.text),
    ("mode", nullable (field.mode.map Mode.name))]

def describeCandidate (subtypes : Subtypes) (candidate : Candidate) : Json :=
  .ofMembers [
    ("type", .string candidate.type),
    ("position",
      ((subtypes.position? candidate.type).map fun n => .ofUInt64 (.ofNat n)).getD .null),
    ("when", .array (candidate.conditions.map Condition.toJson))]

def describeSubtypes (subtypes : Subtypes) : Json :=
  .ofMembers [
    ("rule", .string (if subtypes.rule = .discriminated then "discriminated" else "structural")),
    ("candidates", .array (subtypes.candidates.map (describeCandidate subtypes)))]

def toJson (schema : Schema) : Json :=
  .ofMembers [
    ("id", .string schema.id),
    ("closed", .bool (!schema.allowsOthers)),
    ("base", nullable schema.base),
    ("fields", .array (schema.fields.map describeField)),
    ("subtypes", (schema.subtypes.map describeSubtypes).getD .null)]

end Schema

end DebugLink
