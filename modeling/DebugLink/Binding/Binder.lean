import DebugLink.Binding.Outcome
import DebugLink.Binding.View
import DebugLink.Schema.Registry

/-!
# Binding values to schemas

Binding a field coerces a part of the raw object to the kind of the field. The definitions take
the function that coerces parts as an argument; `Binder.coerceWithin` closes the circle with a
budget for how deep values are nested, and `Binder.coerce` gives it the depth of the value, which
is enough because a part is nested less deeply than its whole.
-/

set_option autoImplicit false

namespace DebugLink

/-- What to do when a value binds as several structural candidates. -/
inductive AmbiguityPolicy where
  | reject
  | firstMatch
deriving DecidableEq

structure Binder where
  registry : Registry
  ambiguity : AmbiguityPolicy

namespace Binder

abbrev Coercion := Json → Kind → Mode → Outcome BindingProblem FieldValue

def describe? (binder : Binder) (type : String) : Option Schema :=
  binder.registry.describe? type

/-- The integer of 64 bits that a value is, if it is one. -/
def long? (value : Json) : Option Int :=
  (value.asNumber?.bind Number.whole?).filter fun n =>
    -0x8000000000000000 ≤ n && n < 0x8000000000000000

def bindFieldWith (coerce : Coercion) (schema : Schema) (raw : Json) (mode : Mode)
    (field : Field) : Outcome BindingError FieldValue :=
  let fail := BindingError.mk schema.id field.name (.kind field.kind)
  match raw.asMembers? with
  | none => throw (fail (.notAnObject raw.shape))
  | some members =>
    match members.lookup field.wire with
    | none => if field.optional then pure .unset else throw (fail .missing)
    | some .null => if field.nullable then pure .null else throw (fail .unexpectedNull)
    | some value => (coerce value field.kind (field.mode.getD mode)).mapError fail

/-- Binds all fields in order, then looks for undeclared members of a closed record. -/
def bindEagerWith (coerce : Coercion) (schema : Schema) (raw : Json) :
    Outcome BindingError View :=
  match raw.asMembers? with
  | none =>
    throw (.mk schema.id BindingError.root (.kind (.record schema.id)) (.notAnObject raw.shape))
  | some members => do
    let values ← schema.fields.mapM (bindFieldWith coerce schema raw .eager)
    match schema.undeclared? members with
    | some key => throw (.mk schema.id key .closedRecord .undeclaredProperty)
    | none => pure (.mk schema raw .eager (values.map fun value => some (.ok value)))

def bindWith (coerce : Coercion) (schema : Schema) (raw : Json) :
    Mode → Outcome BindingError View
  | .eager => bindEagerWith coerce schema raw
  | .lazy => pure (.blank schema raw .lazy)

def candidateSchema (binder : Binder) (base : Schema) (candidate : Candidate) :
    Outcome ResolutionError Schema :=
  .ofOption (.notACandidate base.id candidate.type) (binder.describe? candidate.type)

/-- The first condition of a candidate that fails: its field and the reason. -/
def firstFailure? (members : List (String × Json)) (candidate : Candidate) :
    Option (String × Condition.Failure) :=
  candidate.conditions.findSome? fun condition =>
    (condition.failure? members).map fun failure => (condition.field, failure)

/-- Chooses the one candidate whose conditions hold and whose required members are there. -/
def discriminate (binder : Binder) (base : Schema) (subtypes : Subtypes)
    (members : List (String × Json)) : Outcome ResolutionError Schema := do
  let tested ← subtypes.candidates.mapM fun candidate => do
    let schema ← binder.candidateSchema base candidate
    pure (schema, firstFailure? members candidate)
  let mismatches := tested.filterMap fun (schema, failed) =>
    failed.map fun (field, failure) => Mismatch.refused schema.id field failure
  let matched := tested.filterMap fun (schema, failed) =>
    if failed.isNone then some schema else none
  match matched with
  | [] => throw (.noMatch base.id mismatches)
  | [schema] =>
    match schema.firstMissing? members with
    | some field =>
      throw (.noMatch base.id (mismatches ++ [.refused schema.id field.name .missing]))
    | none => pure schema
  | several => throw (.ambiguous base.id (several.map Schema.id))

/-- Binds a value as each candidate and chooses the one that binds, or the first by policy. -/
def bindStructural (binder : Binder) (coerce : Coercion) (base : Schema) (subtypes : Subtypes)
    (raw : Json) : Outcome ResolutionError View := do
  let trials ← subtypes.candidates.mapM fun candidate => do
    let schema ← binder.candidateSchema base candidate
    let trial ← (bindEagerWith coerce schema raw).attempt
    pure (schema, trial)
  let bound := trials.filterMap fun (_, trial) => trial.toOption
  match bound with
  | [] =>
    throw (.noMatch base.id (trials.filterMap fun (schema, trial) =>
      match trial with
      | .ok _ => none
      | .error error => some (.unbound schema.id error.field error.problem)))
  | [view] => pure view
  | view :: _ =>
    match binder.ambiguity with
    | .reject => throw (.ambiguous base.id (bound.map View.type))
    | .firstMatch => do
      Outcome.warn ⟨base.id, view.type, bound.length⟩
      pure view

def resolveWith (binder : Binder) (coerce : Coercion) (base : Schema) (raw : Json)
    (mode : Mode) : Outcome ResolutionError Variant :=
  match base.subtypes, raw.asMembers? with
  | none, _ => throw (.notPolymorphic base.id)
  | some _, none =>
    throw (.binding (.mk base.id BindingError.root (.kind (.record base.id))
      (.notAnObject raw.shape)))
  | some subtypes, some members =>
    match subtypes.rule with
    | .discriminated => do
      let chosen ← binder.discriminate base subtypes members
      let view ← (bindWith coerce chosen raw mode).mapError .binding
      pure ⟨base.id, chosen.id, view⟩
    | .structural => do
      let view ← binder.bindStructural coerce base subtypes raw
      match mode with
      | .eager => pure ⟨base.id, view.type, view⟩
      | .lazy => pure ⟨base.id, view.type, .blank view.schema raw .lazy⟩

/-- Reads a value as a kind, given a way to read its parts. -/
def coerceWith (binder : Binder) (coerce : Coercion) : Coercion := fun value kind mode =>
  let mistyped := BindingProblem.mistyped value.shape
  match kind with
  | .boolean => .ofOption mistyped (value.asBool?.map .bool)
  | .long => .ofOption mistyped ((long? value).map .long)
  | .double => .ofOption mistyped (value.asNumber?.map fun n => .double n.toDouble)
  | .string => .ofOption mistyped (value.asString?.map .string)
  | .any => pure (.any value)
  | .enumeration constants => do
    let text ← .ofOption mistyped value.asString?
    .ofOption (.unknownConstant text)
      ((constants.find? (Text.equalIgnoringCase · text)).map .enumeration)
  | .record type => do
    let schema ← .ofOption .unknownType (binder.describe? type)
    match mode with
    | .eager => (.record <$> bindEagerWith coerce schema value).mapError .nested
    | .lazy =>
      match value.asMembers? with
      | some _ => pure (.record (.blank schema value .lazy))
      | none => throw mistyped
  | .subtype base => do
    let schema ← .ofOption .unknownType (binder.describe? base)
    let variant ← (binder.resolveWith coerce schema value mode).mapError .resolution
    pure (.variant variant.base variant.type variant.view)
  | .list element => do
    let items ← .ofOption mistyped value.asItems?
    .list <$> items.zipIdx.mapM fun (item, index) =>
      (coerce item element mode).mapError (.element index)

/-- Reads values nested less deeply than the budget. -/
def coerceWithin (binder : Binder) : Nat → Coercion
  | 0 => fun _ _ _ => throw .missing
  | budget + 1 => binder.coerceWith (binder.coerceWithin budget)

def coerce (binder : Binder) : Coercion := fun value =>
  binder.coerceWithin (value.depth + 1) value

def bindField (binder : Binder) : Schema → Json → Mode → Field → Outcome BindingError FieldValue :=
  bindFieldWith binder.coerce

def bindEager (binder : Binder) : Schema → Json → Outcome BindingError View :=
  bindEagerWith binder.coerce

def bind (binder : Binder) : Schema → Json → Mode → Outcome BindingError View :=
  bindWith binder.coerce

def bindType (binder : Binder) (type : String) (raw : Json) (mode : Mode) :
    Outcome BindingError View := do
  let schema ← .ofOption (.mk type BindingError.root (.kind (.record type)) .unknownType)
    (binder.describe? type)
  binder.bind schema raw mode

def resolve (binder : Binder) : Schema → Json → Mode → Outcome ResolutionError Variant :=
  binder.resolveWith binder.coerce

/-- Binds the value of a variant as another candidate of the same base. -/
def reresolveAs (binder : Binder) (variant : Variant) (sibling : String) :
    Outcome ResolutionError Variant := do
  let listed := ((binder.describe? variant.base).bind Schema.subtypes).any (·.lists sibling)
  let schema ← .ofOption (.notACandidate variant.base sibling)
    ((binder.describe? sibling).filter fun _ => listed)
  let view ← (binder.bind schema variant.raw variant.view.mode).mapError .binding
  pure ⟨variant.base, schema.id, view⟩

/-- Narrows a variant one level further, by the candidates of its own type. -/
def narrow (binder : Binder) (variant : Variant) : Outcome ResolutionError Variant :=
  binder.resolve variant.view.schema variant.raw variant.view.mode

end Binder

end DebugLink
