import DebugLink.Schema.Basic

/-!
# The registry of schemas

A draft collects schemas in order, each type once. `Draft.build` checks that every reference
between them can be followed and gives the registry, or else the first fault: schemas in the order
of registration, and in each the fields, then the base, then the candidates.
-/

set_option autoImplicit false

namespace DebugLink

inductive ConfigurationError where
  | duplicateType (type : String)
  | unknownFieldType (owner field target : String)
  | notPolymorphic (owner field target : String)
  | unknownBase (type base : String)
  | unlistedSubtype (type base : String)
  | emptyCandidates (base : String)
  | unknownCandidate (base candidate : String)
  | candidateBaseMismatch (base candidate : String)
  | duplicateCandidate (base candidate : String)
  | missingCondition (base candidate : String)
deriving DecidableEq

/-- A fixed word for each cause, for programs that tell the causes apart. -/
def ConfigurationError.code : ConfigurationError → String
  | .duplicateType .. => "DuplicateType"
  | .unknownFieldType .. => "UnknownFieldType"
  | .notPolymorphic .. => "NotPolymorphic"
  | .unknownBase .. => "UnknownBase"
  | .unlistedSubtype .. => "UnlistedSubtype"
  | .emptyCandidates .. => "EmptyCandidates"
  | .unknownCandidate .. => "UnknownCandidate"
  | .candidateBaseMismatch .. => "CandidateBaseMismatch"
  | .duplicateCandidate .. => "DuplicateCandidate"
  | .missingCondition .. => "MissingCondition"

def ConfigurationError.message : ConfigurationError → String
  | .duplicateType type => s!"type '{type}' is registered twice"
  | .unknownFieldType owner field target =>
    s!"field '{field}' of '{owner}' references unregistered type '{target}'"
  | .notPolymorphic owner field target =>
    s!"field '{field}' of '{owner}' expects a subtype of '{target}', which declares no subtypes"
  | .unknownBase type base => s!"subtype '{type}' references unregistered base '{base}'"
  | .unlistedSubtype type base => s!"subtype '{type}' is not listed as a candidate of '{base}'"
  | .emptyCandidates base => s!"'{base}' declares an empty subtype candidate list"
  | .unknownCandidate base candidate => s!"candidate '{candidate}' of '{base}' is not registered"
  | .candidateBaseMismatch base candidate =>
    s!"candidate '{candidate}' of '{base}' does not declare '{base}' as its base"
  | .duplicateCandidate base candidate => s!"candidate '{candidate}' of '{base}' is listed twice"
  | .missingCondition base candidate =>
    s!"discriminated candidate '{candidate}' of '{base}' declares no condition"

/-- Schemas whose references have been checked, in order of registration. -/
structure Registry where
  schemas : List Schema

namespace Registry

def describe? (registry : Registry) (type : String) : Option Schema :=
  registry.schemas.find? (·.id == type)

def size (registry : Registry) : Nat :=
  registry.schemas.length

/-- The record that accepts any object. -/
def openRecord : Schema where
  id := "Opaque"
  fields := []
  allowsOthers := true
  base := none
  subtypes := none

structure Draft where
  schemas : List Schema

namespace Draft

def empty : Draft := ⟨[openRecord]⟩

def describe? (draft : Draft) (type : String) : Option Schema :=
  draft.schemas.find? (·.id == type)

def contains (draft : Draft) (type : String) : Bool :=
  (draft.describe? type).isSome

def register (draft : Draft) (schema : Schema) : Except ConfigurationError Draft :=
  if draft.contains schema.id then .error (.duplicateType schema.id)
  else .ok ⟨draft.schemas ++ [schema]⟩

/-- Registers schemas up to the first fault: the draft so far, and the fault if there is one. -/
def registerAll (draft : Draft) : List Schema → Draft × Option ConfigurationError
  | [] => (draft, none)
  | schema :: rest =>
    match draft.register schema with
    | .ok draft => draft.registerAll rest
    | .error error => (draft, some error)

def fieldFault? (draft : Draft) (owner : Schema) (field : Field) : Option ConfigurationError :=
  match field.kind.reference? with
  | none => none
  | some reference =>
    match draft.describe? reference.type with
    | none => some (.unknownFieldType owner.id field.name reference.type)
    | some target =>
      if reference.polymorphic && target.subtypes.isNone then
        some (.notPolymorphic owner.id field.name reference.type)
      else
        none

def baseFault? (draft : Draft) (schema : Schema) : Option ConfigurationError :=
  match schema.base with
  | none => none
  | some base =>
    match draft.describe? base with
    | none => some (.unknownBase schema.id base)
    | some target =>
      if target.subtypes.any (·.lists schema.id) then none
      else some (.unlistedSubtype schema.id base)

def candidateFault? (draft : Draft) (base : Schema) (subtypes : Subtypes) (index : Nat)
    (candidate : Candidate) : Option ConfigurationError :=
  match draft.describe? candidate.type with
  | none => some (.unknownCandidate base.id candidate.type)
  | some schema =>
    if schema.base ≠ some base.id then
      some (.candidateBaseMismatch base.id candidate.type)
    else if subtypes.position? candidate.type ≠ some index then
      some (.duplicateCandidate base.id candidate.type)
    else if subtypes.rule = .discriminated && candidate.conditions.isEmpty then
      some (.missingCondition base.id candidate.type)
    else
      none

def subtypesFault? (draft : Draft) (schema : Schema) : Option ConfigurationError :=
  match schema.subtypes with
  | none => none
  | some subtypes =>
    if subtypes.candidates.isEmpty then some (.emptyCandidates schema.id)
    else
      subtypes.candidates.zipIdx.findSome? fun (candidate, index) =>
        draft.candidateFault? schema subtypes index candidate

def fault? (draft : Draft) (schema : Schema) : Option ConfigurationError :=
  (schema.fields.findSome? (draft.fieldFault? schema)).or
    ((draft.baseFault? schema).or (draft.subtypesFault? schema))

/-- The registry of the schemas, if every reference between them can be followed. -/
def build (draft : Draft) : Except ConfigurationError Registry :=
  match draft.schemas.findSome? draft.fault? with
  | some error => .error error
  | none => .ok ⟨draft.schemas⟩

end Draft

end Registry

end DebugLink
