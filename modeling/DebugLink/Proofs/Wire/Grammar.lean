import DebugLink.Proofs.Wire.Narrowing

/-!
# The grammar of incoming frames

Which values are frames, and which frames they are, is settled by the schemas of the envelope, by
the conditions of their candidates and by how a bound frame is read. Together these accept just the
values of a grammar that can be told from the raw value alone.
-/

set_option autoImplicit false

namespace DebugLink

/-! ## The grammar -/

namespace Json

/-- The member is a number without a fraction, and in the range of ids. -/
def HasId (raw : Json) (key : String) (id : UInt64) : Prop :=
  ∃ number, raw.get? key = some (.number number) ∧ number.whole? = some (id.toNat : Int) ∧
    id.toNat < 0x8000000000000000

/-- The member is a tag, whatever the case of its letters. -/
def IsTagged (raw : Json) (tag : String) : Prop :=
  ∃ text, raw.get? "type" = some (.string text) ∧ Text.equalIgnoringCase text tag = true

def IsListOf (form : Json → Prop) (value : Json) : Prop :=
  ∃ items, value = .array items ∧ ∀ item ∈ items, form item

structure IsV8Ref (raw : Json) : Prop where
  handle : raw.Necessarily "handle" IsIntegral
  type : raw.Optionally "type" IsText

structure IsV8Response (raw : Json) (id : UInt64) : Prop where
  tagged : raw.IsTagged "response"
  numbered : raw.HasId "request_seq" id
  success : raw.Necessarily "success" IsFlag
  seq : raw.Optionally "seq" IsIntegral
  command : raw.Optionally "command" IsText
  message : raw.Optionally "message" IsText
  running : raw.Optionally "running" IsFlag
  refs : raw.Optionally "refs" (IsListOf IsV8Ref)

structure IsV8Event (raw : Json) (name : String) : Prop where
  tagged : raw.IsTagged "event"
  named : raw.get? "event" = some (.string name)
  seq : raw.Optionally "seq" IsIntegral

structure IsWipError (raw : Json) : Prop where
  message : raw.Necessarily "message" IsText
  code : raw.Optionally "code" IsIntegral
  data : raw.Optionally "data" (· ≠ .null)

structure IsWipResponse (raw : Json) (id : UInt64) : Prop where
  numbered : raw.HasId "id" id
  result : raw.Optionally "result" (· ≠ .null)
  error : raw.Optionally "error" IsWipError

structure IsWipEvent (raw : Json) (name : String) : Prop where
  unnumbered : raw.get? "id" = none
  named : raw.get? "method" = some (.string name)
  params : raw.Optionally "params" (· ≠ .null)

def v8Outcome (raw : Json) : Except RemoteError Json :=
  if raw.flag "success" then
    .ok ((raw.get? "body").getD .null)
  else
    .error ⟨none, (raw.text? "message").getD "command failed"⟩

def v8Refs (raw : Json) : List (Int × Json) :=
  (raw.items "refs").map fun item => ((item.integral? "handle").getD 0, item)

def wipOutcome (raw : Json) : Except RemoteError Json :=
  match raw.get? "error" with
  | some error => .error ⟨error.integral? "code", error.text "message"⟩
  | none => .ok ((raw.get? "result").getD .null)

@[simp] theorem ne_null_and_isListOf {form : Json → Prop} {value : Json} :
    value ≠ .null ∧ value.IsListOf form ↔ value.IsListOf form := by
  refine and_iff_right_of_imp ?_
  rintro ⟨items, rfl, -⟩
  simp

@[simp] theorem ne_null_and_isWipError {value : Json} :
    value ≠ .null ∧ value.IsWipError ↔ value.IsWipError := by
  refine and_iff_right_of_imp ?_
  rintro ⟨message⟩ rfl
  obtain ⟨members, object⟩ := message.object
  cases object

end Json

/-! ## What the schemas of the catalog describe -/

namespace Dialect

open Json (IsIntegral IsText IsFlag)

variable {dialect : Dialect} {binder : Binder} {raw value : Json} {view : View} {id : UInt64}

section Forms

variable (extending : binder.registry.Extends)
include extending

theorem coerces_v8Ref : binder.Coerces (.record "V8Ref") .eager value ↔ value.IsV8Ref := by
  have forms : (∀ field ∈ Catalog.v8Schemas[3].fields, binder.Suits value field) ↔
      value.Necessarily "handle" IsIntegral ∧ value.Optionally "type" IsText := by
    simp [Catalog.v8Schemas, Catalog.record, Catalog.required, Catalog.optional]
  rw [Binder.coerces_record (extending "V8Ref" _ rfl), Binder.exists_bindEager_open_iff rfl]
  refine (and_congr_right fun _ => forms).trans ⟨?_, ?_⟩
  · rintro ⟨-, handle, type⟩
    exact ⟨handle, type⟩
  · rintro ⟨handle, type⟩
    exact ⟨handle.object, handle, type⟩

theorem coerces_wipError : binder.Coerces (.record "WipError") .eager value ↔ value.IsWipError := by
  have forms : (∀ field ∈ Catalog.wipSchemas[3].fields, binder.Suits value field) ↔
      value.Optionally "code" IsIntegral ∧ value.Necessarily "message" IsText ∧
        value.Optionally "data" (· ≠ .null) := by
    simp [Catalog.wipSchemas, Catalog.record, Catalog.required, Catalog.optional]
  rw [Binder.coerces_record (extending "WipError" _ rfl), Binder.exists_bindEager_open_iff rfl]
  refine (and_congr_right fun _ => forms).trans ⟨?_, ?_⟩
  · rintro ⟨-, code, message, data⟩
    exact ⟨message, code, data⟩
  · rintro ⟨message, code, data⟩
    exact ⟨message.object, code, message, data⟩

theorem coerces_v8Refs :
    binder.Coerces (.list (.record "V8Ref")) .eager value ↔ value.IsListOf Json.IsV8Ref := by
  simp only [Binder.coerces_list, coerces_v8Ref extending, Json.IsListOf]

/-- Nothing is asked of the body, which may be null. -/
theorem suits_v8Response :
    (∀ field ∈ (responseSchema .v8).fields, binder.Suits raw field) ↔
      raw.Optionally "seq" IsIntegral ∧ raw.Necessarily "request_seq" IsIntegral ∧
        raw.Optionally "command" IsText ∧ raw.Necessarily "success" IsFlag ∧
        raw.Optionally "refs" (Json.IsListOf Json.IsV8Ref) ∧ raw.Optionally "running" IsFlag ∧
        raw.Optionally "message" IsText := by
  simp [responseSchema, Catalog.v8Schemas, Catalog.subtypeOf, Catalog.required, Catalog.optional,
    Catalog.readFrom, Catalog.nullable, coerces_v8Refs extending]

theorem suits_wipResponse :
    (∀ field ∈ (responseSchema .wip).fields, binder.Suits raw field) ↔
      raw.Necessarily "id" IsIntegral ∧ raw.Optionally "result" (· ≠ .null) ∧
        raw.Optionally "error" Json.IsWipError := by
  simp [responseSchema, Catalog.wipSchemas, Catalog.subtypeOf, Catalog.required, Catalog.optional,
    coerces_wipError extending]

end Forms

theorem suits_v8Event :
    (∀ field ∈ (eventSchema .v8).fields, binder.Suits raw field) ↔
      raw.Optionally "seq" IsIntegral ∧ raw.Necessarily "event" IsText := by
  simp [eventSchema, Catalog.v8Schemas, Catalog.subtypeOf, Catalog.required, Catalog.optional,
    Catalog.nullable]

theorem suits_wipEvent :
    (∀ field ∈ (eventSchema .wip).fields, binder.Suits raw field) ↔
      raw.Necessarily "method" IsText ∧ raw.Optionally "params" (· ≠ .null) := by
  simp [eventSchema, Catalog.wipSchemas, Catalog.subtypeOf, Catalog.required, Catalog.optional]

/-! ## What is read from a bound response -/

theorem long?_eq_some {n : Int} :
    Binder.long? value = some n ↔ ∃ number, value = .number number ∧ number.whole? = some n ∧
      -0x8000000000000000 ≤ n ∧ n < 0x8000000000000000 := by
  unfold Binder.long?
  rw [Option.filter_eq_some_iff]
  cases value <;> simp [Json.asNumber?]

theorem hasId_iff {key : String} :
    raw.HasId key id ↔ raw.Necessarily key IsIntegral ∧
      (checkId ((raw.integral? key).getD 0)).result = .ok id := by
  constructor
  · rintro ⟨number, member, whole, below⟩
    have long : Binder.long? (.number number) = some (id.toNat : Int) :=
      long?_eq_some.2 ⟨number, rfl, whole, by omega, by omega⟩
    refine ⟨⟨_, member, _, long⟩, ?_⟩
    rw [Json.integral?, member, Option.bind_some, long]
    exact checkId_toNat id
  · rintro ⟨⟨value, member, n, long⟩, checked⟩
    rw [Json.integral?, member, Option.bind_some, long, Option.getD_some] at checked
    obtain ⟨number, rfl, whole, -, below⟩ := long?_eq_some.1 long
    obtain ⟨natural, rfl⟩ := checkId_eq_ok.1 checked
    have same : (UInt64.ofNat n.toNat).toNat = n.toNat :=
      UInt64.toNat_ofNat_of_lt' (by simp [UInt64.size]; omega)
    refine ⟨number, member, ?_, ?_⟩
    · rw [whole, same, Int.toNat_of_nonneg natural]
    · omega

theorem readRefs_of_coerced (extending : binder.registry.Extends) {items : List Json}
    {xs : List FieldValue}
    (coerced : List.Forall₂
      (fun item x => (binder.coerce item (.record "V8Ref") .eager).result = .ok x) items xs) :
    (readRefs binder xs).result
      = .ok (items.map fun item => ((item.integral? "handle").getD 0, item)) := by
  unfold readRefs
  rw [Outcome.result_mapM_eq_ok]
  induction coerced with
  | nil => exact .nil
  | @cons item x items xs head tail ih =>
    rw [Binder.coerce_eq_coerceWith] at head
    obtain ⟨schema, view, described, bound, rfl⟩ := Binder.coerceWith_record_eager_eq_ok.1 head
    cases (extending "V8Ref" _ rfl).symm.trans described
    obtain ⟨x, read, value⟩ := readField_of_bound bound "handle" rfl rfl
    refine .cons ?_ ih
    rw [Outcome.result_bind_of_ok read, Binder.asLong?_of_bound value rfl,
      Binder.raw_of_bindEagerWith bound]
    rfl

theorem readRefs_of_bound (extending : binder.registry.Extends) {schema : Schema} {x : FieldValue}
    (bound : (binder.bindField schema raw .eager
      ⟨"refs", "refs", true, false, .list (.record "V8Ref"), none⟩).result = .ok x) :
    (readRefs binder (x.asList?.getD [])).result = .ok raw.v8Refs := by
  unfold Json.v8Refs Json.items
  obtain ⟨absent, rfl⟩ | ⟨value, found, coerced⟩ := Binder.made_of_bound bound rfl
  · rw [absent]
    rfl
  · obtain ⟨items, xs, listed, each, rfl⟩ := Binder.coerceWith_list_eq_ok.1 coerced
    rw [found, Option.bind_some, listed]
    exact readRefs_of_coerced extending each

/-- Once its id is checked, a native response is what the members of the raw frame say. -/
theorem v8Response_of_bound (extending : binder.registry.Extends)
    (bound : (binder.bindEager (responseSchema .v8) raw).result = .ok view) :
    (v8Response binder view).result =
      (checkId ((raw.integral? "request_seq").getD 0)).result.map fun id =>
        ⟨id, raw.v8Outcome, raw.v8Refs, raw.flag? "running"⟩ := by
  obtain ⟨number, readNumber, numbered⟩ := readField_of_bound bound "requestSeq" rfl rfl
  obtain ⟨success, readSuccess, succeeded⟩ := readField_of_bound bound "success" rfl rfl
  obtain ⟨text, readMessage, explained⟩ := readField_of_bound bound "message" rfl rfl
  obtain ⟨list, readList, listed⟩ := readField_of_bound bound "refs" rfl rfl
  obtain ⟨running, readRunning, runs⟩ := readField_of_bound bound "running" rfl rfl
  have readBody := readPayload_of_bound bound "body" rfl rfl rfl
  have readAll := readRefs_of_bound extending listed
  have hasNumber : number.asLong? = raw.integral? "request_seq" :=
    Binder.asLong?_of_bound numbered rfl
  have hasSuccess : success.asBool? = raw.flag? "success" := Binder.asBool?_of_bound succeeded rfl
  have hasMessage : text.asString? = raw.text? "message" := Binder.asString?_of_bound explained rfl
  have hasRunning : running.asBool? = raw.flag? "running" := Binder.asBool?_of_bound runs rfl
  unfold v8Response
  rw [Outcome.result_bind_of_ok readNumber, hasNumber]
  cases checked : (checkId ((raw.integral? "request_seq").getD 0)).result with
  | error error => exact Outcome.result_bind_of_error checked _
  | ok id =>
    rw [Outcome.result_bind_of_ok checked, Outcome.result_bind_of_ok readSuccess, hasSuccess,
      Json.v8Outcome, Json.flag]
    dsimp only
    split
    · have wrapped : (Except.ok <$> readPayload binder view "body" :
          Outcome FrameError (Except RemoteError Json)).result
            = .ok (.ok ((raw.get? "body").getD .null)) :=
        Outcome.result_map_eq_ok.2 ⟨_, readBody, rfl⟩
      rw [Outcome.result_bind_of_ok wrapped, Outcome.result_bind_of_ok readList,
        Outcome.result_bind_of_ok readAll, Outcome.result_bind_of_ok readRunning, hasRunning]
      rfl
    · rw [Outcome.result_bind_of_ok readMessage, pure_bind, Outcome.result_bind_of_ok readList,
        Outcome.result_bind_of_ok readAll, Outcome.result_bind_of_ok readRunning, hasRunning,
        hasMessage]
      rfl

theorem wipError_of_bound (bound : (binder.bindEager Catalog.wipSchemas[3] raw).result = .ok view) :
    ∃ code text, (readField binder view "code").result = .ok code ∧
      code.asLong? = raw.integral? "code" ∧ (readField binder view "message").result = .ok text ∧
      text.asString? = raw.text? "message" := by
  obtain ⟨code, readCode, coded⟩ := readField_of_bound bound "code" rfl rfl
  obtain ⟨text, readMessage, explained⟩ := readField_of_bound bound "message" rfl rfl
  exact ⟨code, text, readCode, Binder.asLong?_of_bound coded rfl, readMessage,
    Binder.asString?_of_bound explained rfl⟩

theorem wipResponse_of_bound (extending : binder.registry.Extends)
    (bound : (binder.bindEager (responseSchema .wip) raw).result = .ok view) :
    (wipResponse binder view).result =
      (checkId ((raw.integral? "id").getD 0)).result.map fun id =>
        ⟨id, raw.wipOutcome, [], none⟩ := by
  obtain ⟨number, readNumber, numbered⟩ := readField_of_bound bound "id" rfl rfl
  obtain ⟨fault, readFault, faulty⟩ := readField_of_bound bound "error" rfl rfl
  have readResult := readPayload_of_bound bound "result" rfl rfl rfl
  have hasNumber : number.asLong? = raw.integral? "id" := Binder.asLong?_of_bound numbered rfl
  unfold wipResponse
  rw [Outcome.result_bind_of_ok readNumber, hasNumber]
  cases checked : (checkId ((raw.integral? "id").getD 0)).result with
  | error error => exact Outcome.result_bind_of_error checked _
  | ok id =>
    rw [Outcome.result_bind_of_ok checked, Outcome.result_bind_of_ok readFault, Json.wipOutcome]
    obtain ⟨absent, rfl⟩ | ⟨value, found, coerced⟩ := Binder.made_of_bound faulty rfl
    · have missing : raw.get? "error" = none := absent
      have wrapped : (Except.ok <$> readPayload binder view "result" :
          Outcome FrameError (Except RemoteError Json)).result
            = .ok (.ok ((raw.get? "result").getD .null)) :=
        Outcome.result_map_eq_ok.2 ⟨_, readResult, rfl⟩
      rw [missing]
      exact Outcome.result_bind_of_ok wrapped _
    · have present : raw.get? "error" = some value := found
      obtain ⟨schema, inner, described, whole, rfl⟩ :=
        Binder.coerceWith_record_eager_eq_ok.1 coerced
      cases (extending "WipError" _ rfl).symm.trans described
      obtain ⟨code, text, readCode, hasCode, readMessage, hasMessage⟩ := wipError_of_bound whole
      rw [present]
      change (readField binder inner "code" >>= _).result = _
      rw [Outcome.result_bind_of_ok readCode, Outcome.result_bind_of_ok readMessage, hasCode,
        hasMessage]
      rfl

/-! ## Frames of the grammar -/

def IsResponse (raw : Json) (id : UInt64) : Dialect → Prop
  | .v8 => raw.IsV8Response id
  | .wip => raw.IsWipResponse id

def IsEvent (raw : Json) (name : String) : Dialect → Prop
  | .v8 => raw.IsV8Event name
  | .wip => raw.IsWipEvent name

def responseFrame (raw : Json) (id : UInt64) : Dialect → ResponseFrame
  | .v8 => ⟨id, raw.v8Outcome, raw.v8Refs, raw.flag? "running"⟩
  | .wip => ⟨id, raw.wipOutcome, [], none⟩

theorem readResponse_of_bound (extending : binder.registry.Extends)
    (bound : (binder.bindEager dialect.responseSchema raw).result = .ok view) :
    (dialect.readResponse binder view).result =
      (checkId ((raw.integral? dialect.idKey).getD 0)).result.map
        (dialect.responseFrame raw) := by
  cases dialect with
  | v8 => exact v8Response_of_bound extending bound
  | wip => exact wipResponse_of_bound extending bound

theorem exists_matches_tag {type tag : String} :
    (∃ members, raw.asMembers? = some members ∧
      Candidate.Matches members ⟨type, [.isString "type" tag]⟩) ↔ raw.IsTagged tag := by
  cases raw <;> simp [Candidate.Matches, Condition.Holds, Json.IsTagged, Json.get?,
    Json.asMembers?]

theorem exists_matches_id {type : String} :
    (∃ members, raw.asMembers? = some members ∧ Candidate.Matches members ⟨type, [.present "id"]⟩) ↔
      ∃ value, raw.get? "id" = some value := by
  cases raw <;> simp [Candidate.Matches, Condition.Holds, Json.get?, Json.asMembers?]

theorem exists_matches_method {type : String} :
    (∃ members, raw.asMembers? = some members ∧
      Candidate.Matches members ⟨type, [.absent "id", .present "method"]⟩) ↔
      raw.get? "id" = none ∧ ∃ value, raw.get? "method" = some value := by
  cases raw <;> simp [Candidate.Matches, Condition.Holds, Json.get?, Json.asMembers?]

theorem get?_eq_string_iff {key name : String} :
    raw.get? key = some (.string name) ↔ raw.Necessarily key IsText ∧ raw.text key = name := by
  constructor
  · intro member
    exact ⟨⟨_, member, name, rfl⟩, by simp [Json.text, Json.text?, member, Json.asString?]⟩
  · rintro ⟨⟨_, member, text, rfl⟩, rfl⟩
    rw [member]
    simp [Json.text, Json.text?, member, Json.asString?]

theorem isResponse_iff (extending : binder.registry.Extends) :
    dialect.IsResponse raw id ↔
      (∃ members, raw.asMembers? = some members ∧ dialect.responseCandidate.Matches members) ∧
      (∀ field ∈ dialect.responseSchema.fields, binder.Suits raw field) ∧
      (checkId ((raw.integral? dialect.idKey).getD 0)).result = .ok id := by
  cases dialect with
  | v8 =>
    rw [suits_v8Response extending, responseCandidate, exists_matches_tag]
    constructor
    · rintro ⟨tagged, numbered, success, seq, command, message, running, refs⟩
      obtain ⟨number, checked⟩ := hasId_iff.1 numbered
      exact ⟨tagged, ⟨seq, number, command, success, refs, running, message⟩, checked⟩
    · rintro ⟨tagged, ⟨seq, number, command, success, refs, running, message⟩, checked⟩
      exact ⟨tagged, hasId_iff.2 ⟨number, checked⟩, success, seq, command, message, running, refs⟩
  | wip =>
    -- That there is an id at all, which makes a candidate, follows from its being an integer.
    rw [suits_wipResponse extending, responseCandidate, exists_matches_id]
    constructor
    · rintro ⟨numbered, result, error⟩
      obtain ⟨⟨value, member, integral⟩, checked⟩ := hasId_iff.1 numbered
      exact ⟨⟨value, member⟩, ⟨⟨value, member, integral⟩, result, error⟩, checked⟩
    · rintro ⟨-, ⟨number, result, error⟩, checked⟩
      exact ⟨hasId_iff.2 ⟨number, checked⟩, result, error⟩

theorem isEvent_iff {name : String} :
    dialect.IsEvent raw name ↔
      (∃ members, raw.asMembers? = some members ∧ dialect.eventCandidate.Matches members) ∧
      (∀ field ∈ dialect.eventSchema.fields, binder.Suits raw field) ∧
      raw.text dialect.nameKey = name := by
  cases dialect with
  | v8 =>
    rw [suits_v8Event, eventCandidate, exists_matches_tag]
    constructor
    · rintro ⟨tagged, named, seq⟩
      obtain ⟨needed, text⟩ := get?_eq_string_iff.1 named
      exact ⟨tagged, ⟨seq, needed⟩, text⟩
    · rintro ⟨tagged, ⟨seq, needed⟩, text⟩
      exact ⟨tagged, get?_eq_string_iff.2 ⟨needed, text⟩, seq⟩
  | wip =>
    rw [suits_wipEvent, eventCandidate, exists_matches_method]
    constructor
    · rintro ⟨unnumbered, named, params⟩
      obtain ⟨needed, text⟩ := get?_eq_string_iff.1 named
      exact ⟨⟨unnumbered, _, named⟩, ⟨needed, params⟩, text⟩
    · rintro ⟨⟨unnumbered, -⟩, ⟨needed, params⟩, text⟩
      exact ⟨unnumbered, get?_eq_string_iff.2 ⟨needed, text⟩, params⟩

theorem opened_responseSchema : dialect.responseSchema.allowsOthers = true := by
  cases dialect <;> rfl

theorem opened_eventSchema : dialect.eventSchema.allowsOthers = true := by
  cases dialect <;> rfl

theorem classify_response_iff (extending : binder.registry.Extends) {frame : ResponseFrame} :
    (dialect.classify binder raw).result = .ok (.response frame) ↔
      dialect.IsResponse raw frame.id ∧ frame = dialect.responseFrame raw frame.id := by
  have named : ∀ id, (dialect.responseFrame raw id).id = id := by
    cases dialect <;> exact fun _ => rfl
  rw [classify_eq_response (known_of_extends extending), isResponse_iff extending]
  constructor
  · rintro ⟨members, view, object, holds, bound, read⟩
    -- A negative id binds like any integer, and is refused only when it is read.
    rw [readResponse_of_bound extending bound] at read
    cases checked : (checkId ((raw.integral? dialect.idKey).getD 0)).result with
    | error error =>
      rw [checked] at read
      cases read
    | ok id =>
      rw [checked] at read
      cases read
      have suits := ((Binder.exists_bindEager_open_iff opened_responseSchema).1 ⟨view, bound⟩).2
      rw [named]
      exact ⟨⟨⟨members, object, holds⟩, suits, rfl⟩, rfl⟩
  · rintro ⟨⟨⟨members, object, holds⟩, suits, checked⟩, same⟩
    obtain ⟨view, bound⟩ := (Binder.exists_bindEager_open_iff opened_responseSchema).2
      ⟨⟨members, object⟩, suits⟩
    refine ⟨members, view, object, holds, bound, ?_⟩
    rw [readResponse_of_bound extending bound, checked]
    exact congrArg Except.ok same.symm

theorem classify_event_iff (extending : binder.registry.Extends) {frame : EventFrame} :
    (dialect.classify binder raw).result = .ok (.event frame) ↔
      dialect.IsEvent raw frame.name ∧ frame.body = (raw.get? dialect.paramsKey).getD .null := by
  rw [classify_eq_event (known_of_extends extending), isEvent_iff]
  constructor
  · rintro ⟨members, view, object, holds, bound, read⟩
    cases (readEvent_of_bound bound).symm.trans read
    have suits := ((Binder.exists_bindEager_open_iff opened_eventSchema).1 ⟨view, bound⟩).2
    exact ⟨⟨⟨members, object, holds⟩, suits, rfl⟩, rfl⟩
  · rintro ⟨⟨⟨members, object, holds⟩, suits, text⟩, body⟩
    obtain ⟨view, bound⟩ := (Binder.exists_bindEager_open_iff opened_eventSchema).2
      ⟨⟨members, object⟩, suits⟩
    refine ⟨members, view, object, holds, bound, ?_⟩
    rw [readEvent_of_bound bound, text, ← body]

/-- With a registry that extends the catalog, the values of the grammar are the frames that are
classified, and each is the frame that its members say. -/
theorem classify_accepts_grammar {extra : List Schema} {registry : Registry}
    (built : (Catalog.draft.registerAll extra).1.build = .ok registry)
    (ambiguity : AmbiguityPolicy) (dialect : Dialect) (raw : Json) :
    (∀ frame, (dialect.classify ⟨registry, ambiguity⟩ raw).result = .ok (.response frame) ↔
      dialect.IsResponse raw frame.id ∧ frame = dialect.responseFrame raw frame.id) ∧
    ∀ frame, (dialect.classify ⟨registry, ambiguity⟩ raw).result = .ok (.event frame) ↔
      dialect.IsEvent raw frame.name ∧ frame.body = (raw.get? dialect.paramsKey).getD .null :=
  ⟨fun _ => classify_response_iff (Registry.extends_of_build built),
    fun _ => classify_event_iff (Registry.extends_of_build built)⟩

/-- A response with a reference, no body, and a tag in capitals. -/
def referringResponse : Json :=
  .object [("refs", .array [.object [("handle", .ofUInt64 7)]]), ("request_seq", .ofUInt64 3),
    ("running", .bool true), ("success", .bool true), ("type", .string "RESPONSE")]

theorem classify_accepts_grammar_referring :
    (Catalog.draft.registerAll []).1.build = .ok Catalog.registry ∧
    (classify .v8 ⟨Catalog.registry, .reject⟩ referringResponse).result = .ok (.response
      ⟨3, .ok .null, [(7, .object [("handle", .ofUInt64 7)])], some true⟩) := by
  have built : (Catalog.draft.registerAll []).1.build = .ok Catalog.registry := by rfl
  have reference : Json.IsV8Ref (.object [("handle", .ofUInt64 7)]) :=
    ⟨⟨_, rfl, 7, by decide⟩, fun _ absent => by cases absent⟩
  have response : referringResponse.IsV8Response 3 := {
    tagged := ⟨_, rfl, by decide⟩
    numbered := ⟨_, rfl, rfl, by decide⟩
    success := ⟨_, rfl, true, rfl⟩
    seq := fun _ absent => by cases absent
    command := fun _ absent => by cases absent
    message := fun _ absent => by cases absent
    running := fun value found => by cases found; exact ⟨true, rfl⟩
    refs := fun value found => by cases found; exact ⟨_, rfl, by simpa using reference⟩ }
  exact ⟨built, ((classify_accepts_grammar built .reject .v8 _).1 _).2 ⟨response, rfl⟩⟩

end Dialect

end DebugLink
