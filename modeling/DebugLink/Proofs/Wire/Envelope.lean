import DebugLink.Proofs.Binding.Budget
import DebugLink.Proofs.Binding.Inversion
import DebugLink.Proofs.Binding.References
import DebugLink.Schema.Catalog
import DebugLink.Wire.Dialect

/-!
# Telling responses from other frames

The id of a response can be read in two ways: from the raw frame and through the envelope. With
the schemas of both dialects registered the two agree: a value that holds an id as a response does
is narrowed to a response with this id, or not narrowed at all.
-/

set_option autoImplicit false

namespace DebugLink

/-! ## Registries that extend the catalog -/

namespace Registry

def Extends (registry : Registry) : Prop :=
  ∀ type schema, Catalog.registry.describe? type = some schema →
    registry.describe? type = some schema

theorem Draft.registerAll_schemas (draft : Draft) (extra : List Schema) :
    ∃ more, (draft.registerAll extra).1.schemas = draft.schemas ++ more := by
  induction extra generalizing draft with
  | nil => exact ⟨[], (List.append_nil _).symm⟩
  | cons schema rest ih =>
    unfold registerAll register
    split
    · rename_i next registered
      split at registered
      · cases registered
      · cases registered
        obtain ⟨more, schemas⟩ := ih ⟨draft.schemas ++ [schema]⟩
        exact ⟨schema :: more, by simp [schemas]⟩
    · exact ⟨[], (List.append_nil _).symm⟩

theorem extends_of_build {extra : List Schema} {registry : Registry}
    (built : (Catalog.draft.registerAll extra).1.build = .ok registry) : registry.Extends := by
  intro type schema described
  obtain ⟨more, schemas⟩ := Draft.registerAll_schemas Catalog.draft extra
  have found : Catalog.draft.schemas.find? (·.id == type) = some schema := described
  rw [describe?, Draft.schemas_of_build built, schemas, List.find?_append, found]
  rfl

end Registry

namespace Dialect

variable {binder : Binder} {coerce : Binder.Coercion} {schema : Schema} {raw : Json} {view : View}

theorem readField_of_bindEagerWith (binder : Binder) (name : String) {index : Nat} {field : Field}
    (bound : (Binder.bindEagerWith coerce schema raw).result = .ok view)
    (place : schema.fieldIndex? name = some index)
    (declared : schema.fields[index]? = some field) :
    ∃ x, (readField binder view name).result = .ok x ∧
      (Binder.bindFieldWith coerce schema raw .eager field).result = .ok x := by
  obtain ⟨x, slot, value⟩ := Binder.slot_of_bindEagerWith bound declared
  refine ⟨x, ?_, value⟩
  have named : view.schema.fieldIndex? name = some index := by
    rw [Binder.schema_of_bindEagerWith bound]
    exact place
  have read : (binder.fieldNamed name).run.run view = pure (.ok x, view) := by
    rw [Binder.fieldNamed_of_index binder named, Binder.fieldAt_of_slot binder slot]
  unfold readField Outcome.result
  rw [read]
  rfl

theorem readPayload_of_bindEagerWith (binder : Binder) (name : String) {index : Nat} {field : Field}
    (bound : (Binder.bindEagerWith coerce schema raw).result = .ok view)
    (place : schema.fieldIndex? name = some index)
    (declared : schema.fields[index]? = some field) :
    ∃ payload, (readPayload binder view name).result = .ok payload := by
  obtain ⟨x, read, -⟩ := readField_of_bindEagerWith binder name bound place declared
  exact ⟨_, Outcome.result_bind_of_ok read _⟩

theorem toNat_of_asUInt64? {value : Json} {id : UInt64} {n : Int}
    (holds : value.asUInt64? = some id) (long : Binder.long? value = some n) : id.toNat = n := by
  unfold Json.asUInt64? at holds
  split at holds
  · rename_i written lower upper
    split at holds
    · rename_i nonneg
      cases holds
      obtain ⟨whole, -⟩ := Option.filter_eq_some_iff.1 long
      obtain rfl : written = n := Option.some.inj whole
      have below : written.toNat < UInt64.size := by
        have size : UInt64.size = 2 ^ 64 := rfl
        omega
      rw [UInt64.toNat_ofNat_of_lt' below]
      exact Int.toNat_of_nonneg nonneg
    · cases holds
  · cases holds

theorem checkId_toNat (id : UInt64) : (checkId id.toNat).result = .ok id := by
  unfold checkId
  simp

theorem checkId_of_bound {members : List (String × Json)} {field : Field} {value : Json}
    {id : UInt64} {x : FieldValue} (kind : field.kind = .long)
    (object : raw.asMembers? = some members) (member : members.lookup field.wire = some value)
    (holds : value.asUInt64? = some id)
    (bound : (Binder.bindFieldWith binder.coerce schema raw .eager field).result = .ok x) :
    (checkId (x.asLong?.getD 0)).result = .ok id := by
  obtain ⟨others, same, cases⟩ := Binder.bindFieldWith_eq_ok.1 bound
  obtain rfl : members = others := Option.some.inj (object.symm.trans same)
  rw [member] at cases
  rcases cases with ⟨absent, -⟩ | ⟨null, -⟩ | ⟨found, same, -, coerced⟩
  · cases absent
  · cases null
    cases holds
  · obtain rfl : value = found := Option.some.inj same
    rw [kind, Binder.coerce_eq_coerceWith] at coerced
    obtain ⟨n, long, rfl⟩ := Binder.coerceWith_long_eq_ok.1 coerced
    rw [← toNat_of_asUInt64? holds long]
    exact checkId_toNat id

theorem bound_of_asRecord? {field : Field} {type : String}
    {x : FieldValue} {inner : View} (kind : field.kind = .record type) (mode : field.mode = none)
    (bound : (Binder.bindFieldWith binder.coerce schema raw .eager field).result = .ok x)
    (held : x.asRecord? = some inner) :
    ∃ schema item, binder.describe? type = some schema ∧
      (Binder.bindEagerWith binder.coerce schema item).result = .ok inner := by
  obtain ⟨members, -, ⟨-, -, rfl⟩ | ⟨-, -, rfl⟩ | ⟨value, -, -, coerced⟩⟩ :=
    Binder.bindFieldWith_eq_ok.1 bound
  · cases held
  · cases held
  · rw [kind, mode, Binder.coerce_eq_coerceWith] at coerced
    obtain ⟨target, view, described, whole, rfl⟩ :=
      Binder.coerceWith_record_eager_eq_ok.1 coerced
    cases held
    exact ⟨target, value, described, whole⟩

theorem bound_of_mem_asList? {field : Field} {type : String} {x element : FieldValue}
    {inner : View} (kind : field.kind = .list (.record type)) (mode : field.mode = none)
    (bound : (Binder.bindFieldWith binder.coerce schema raw .eager field).result = .ok x)
    (mem : element ∈ x.asList?.getD []) (held : element.asRecord? = some inner) :
    ∃ schema item, binder.describe? type = some schema ∧
      (Binder.bindEagerWith binder.coerce schema item).result = .ok inner := by
  obtain ⟨members, -, ⟨-, -, rfl⟩ | ⟨-, -, rfl⟩ | ⟨value, -, -, coerced⟩⟩ :=
    Binder.bindFieldWith_eq_ok.1 bound
  · cases mem
  · cases mem
  · rw [kind, mode, Binder.coerce_eq_coerceWith] at coerced
    obtain ⟨items, xs, -, each, rfl⟩ := Binder.coerceWith_list_eq_ok.1 coerced
    obtain ⟨item, -, coerced⟩ := exists_of_mem_right each mem
    rw [Binder.coerce_eq_coerceWith] at coerced
    obtain ⟨target, view, described, whole, rfl⟩ :=
      Binder.coerceWith_record_eager_eq_ok.1 coerced
    cases held
    exact ⟨target, item, described, whole⟩

/-! ## Responses -/

/-- A bound native response is read without a failure, and under the id that the raw frame holds. -/
theorem v8Response_of_bindEager {members : List (String × Json)} {value : Json} {id : UInt64}
    (extending : binder.registry.Extends)
    (described : Catalog.registry.describe? "V8Response" = some schema)
    (bound : (binder.bindEager schema raw).result = .ok view)
    (object : raw.asMembers? = some members) (member : members.lookup "request_seq" = some value)
    (holds : value.asUInt64? = some id) :
    ∃ frame, (v8Response binder view).result = .ok frame ∧ frame.id = id := by
  cases described
  obtain ⟨x, readId, field⟩ := readField_of_bindEagerWith binder "requestSeq" bound rfl rfl
  obtain ⟨success, readSuccess, -⟩ := readField_of_bindEagerWith binder "success" bound rfl rfl
  obtain ⟨body, readBody⟩ := readPayload_of_bindEagerWith binder "body" bound rfl rfl
  obtain ⟨text, readMessage, -⟩ := readField_of_bindEagerWith binder "message" bound rfl rfl
  obtain ⟨list, readList, elements⟩ := readField_of_bindEagerWith binder "refs" bound rfl rfl
  obtain ⟨running, readRunning, -⟩ := readField_of_bindEagerWith binder "running" bound rfl rfl
  have checked := checkId_of_bound rfl object member holds field
  obtain ⟨refs, readAll⟩ : ∃ refs, (readRefs binder (list.asList?.getD [])).result = .ok refs := by
    apply Outcome.exists_result_mapM
    intro entry mem
    obtain ⟨element, listed, held⟩ := List.mem_filterMap.1 mem
    obtain ⟨target, item, found, whole⟩ := bound_of_mem_asList? rfl rfl elements listed held
    cases (extending "V8Ref" _ rfl).symm.trans found
    obtain ⟨handle, readHandle, -⟩ := readField_of_bindEagerWith binder "handle" whole rfl rfl
    exact ⟨_, Outcome.result_bind_of_ok readHandle _⟩
  unfold v8Response
  rw [Outcome.result_bind_of_ok readId, Outcome.result_bind_of_ok checked,
    Outcome.result_bind_of_ok readSuccess]
  dsimp only
  split
  · have wrapped : (Except.ok <$> readPayload binder view "body" :
        Outcome FrameError (Except RemoteError Json)).result = .ok (.ok body) := by
      rw [Outcome.result_map, readBody]
      rfl
    rw [Outcome.result_bind_of_ok wrapped, Outcome.result_bind_of_ok readList,
      Outcome.result_bind_of_ok readAll, Outcome.result_bind_of_ok readRunning]
    exact ⟨_, rfl, rfl⟩
  · rw [Outcome.result_bind_of_ok readMessage, pure_bind, Outcome.result_bind_of_ok readList,
      Outcome.result_bind_of_ok readAll, Outcome.result_bind_of_ok readRunning]
    exact ⟨_, rfl, rfl⟩

theorem wipResponse_of_bindEager {members : List (String × Json)} {value : Json} {id : UInt64}
    (extending : binder.registry.Extends)
    (described : Catalog.registry.describe? "WipResponse" = some schema)
    (bound : (binder.bindEager schema raw).result = .ok view)
    (object : raw.asMembers? = some members) (member : members.lookup "id" = some value)
    (holds : value.asUInt64? = some id) :
    ∃ frame, (wipResponse binder view).result = .ok frame ∧ frame.id = id := by
  cases described
  obtain ⟨x, readId, field⟩ := readField_of_bindEagerWith binder "id" bound rfl rfl
  obtain ⟨fault, readError, error⟩ := readField_of_bindEagerWith binder "error" bound rfl rfl
  obtain ⟨payload, readResult⟩ := readPayload_of_bindEagerWith binder "result" bound rfl rfl
  have checked := checkId_of_bound rfl object member holds field
  unfold wipResponse
  rw [Outcome.result_bind_of_ok readId, Outcome.result_bind_of_ok checked,
    Outcome.result_bind_of_ok readError]
  dsimp only
  split
  · rename_i inner held
    obtain ⟨target, item, found, whole⟩ := bound_of_asRecord? rfl rfl error held
    cases (extending "WipError" _ rfl).symm.trans found
    obtain ⟨code, readCode, -⟩ := readField_of_bindEagerWith binder "code" whole rfl rfl
    obtain ⟨text, readMessage, -⟩ := readField_of_bindEagerWith binder "message" whole rfl rfl
    rw [Outcome.result_bind_of_ok readCode, Outcome.result_bind_of_ok readMessage]
    exact ⟨_, rfl, rfl⟩
  · have wrapped : (Except.ok <$> readPayload binder view "result" :
        Outcome FrameError (Except RemoteError Json)).result = .ok (.ok payload) := by
      rw [Outcome.result_map, readResult]
      rfl
    rw [Outcome.result_bind_of_ok wrapped]
    exact ⟨_, rfl, rfl⟩

/-! ## Narrowing the envelope -/

theorem v8_candidate {members : List (String × Json)} {tag : Json} {text : String}
    {candidate : Candidate} (tagged : members.lookup "type" = some tag)
    (written : tag.asString? = some text)
    (response : Text.equalIgnoringCase text "response" = true)
    (listed : candidate ∈ ([⟨"V8Response", [.isString "type" "response"]⟩,
      ⟨"V8Event", [.isString "type" "event"]⟩] : List Candidate))
    (passes : Binder.firstFailure? members candidate = none) : candidate.type = "V8Response" := by
  rcases List.mem_cons.1 listed with rfl | other
  · rfl
  · obtain rfl := List.mem_singleton.1 other
    have event : Text.equalIgnoringCase text "event" = true := by
      by_contra differs
      simp [Binder.firstFailure?, Condition.failure?, Condition.field, tagged, written,
        differs] at passes
    have isResponse := eq_of_beq (a := text.toList.map Char.toLower) response
    have isEvent := eq_of_beq (a := text.toList.map Char.toLower) event
    exact absurd (isResponse.symm.trans isEvent) (by decide)

theorem wip_candidate {members : List (String × Json)} {value : Json} {candidate : Candidate}
    (member : members.lookup "id" = some value)
    (listed : candidate ∈ ([⟨"WipResponse", [.present "id"]⟩,
      ⟨"WipEvent", [.absent "id", .present "method"]⟩] : List Candidate))
    (passes : Binder.firstFailure? members candidate = none) : candidate.type = "WipResponse" := by
  rcases List.mem_cons.1 listed with rfl | other
  · rfl
  · obtain rfl := List.mem_singleton.1 other
    simp [Binder.firstFailure?, Condition.failure?, Condition.field, member] at passes

theorem classify_of_narrowed {dialect : Dialect} {base response : Schema} {frame : ResponseFrame}
    {view : View} (described : binder.describe? dialect.envelope = some base)
    (narrowed : (binder.resolve base raw .eager).result = .ok ⟨base.id, response.id, view⟩)
    (named : response.id = dialect.responseType)
    (read : (match dialect with
      | .v8 => v8Response binder view
      | .wip => wipResponse binder view).result = .ok frame) :
    (dialect.classify binder raw).result = .ok (.response frame) := by
  unfold classify
  rw [Outcome.result_bind_of_ok (Outcome.result_ofOption_eq_ok.2 described),
    Outcome.result_bind_of_ok (Outcome.result_mapError_eq_ok.2 narrowed)]
  have chosen : (Variant.mk base.id response.id view).isOf dialect.responseType = true :=
    beq_iff_eq.2 named
  rw [if_pos chosen]
  cases dialect with
  | v8 => exact Outcome.result_map_eq_ok.2 ⟨frame, read, rfl⟩
  | wip => exact Outcome.result_map_eq_ok.2 ⟨frame, read, rfl⟩

theorem classify_of_unresolved {dialect : Dialect} {base : Schema} {error : ResolutionError}
    (described : binder.describe? dialect.envelope = some base)
    (unresolved : (binder.resolve base raw .eager).result = .error error) :
    (dialect.classify binder raw).result = .error (.unrecognized error) := by
  unfold classify
  rw [Outcome.result_bind_of_ok (Outcome.result_ofOption_eq_ok.2 described)]
  apply Outcome.result_bind_of_error
  rw [Outcome.result_mapError, unresolved]
  rfl

/-- A value from which an id can be read is a response with this id, or not recognized at all. -/
theorem classify_of_responseId? {dialect : Dialect} {id : UInt64}
    (extending : binder.registry.Extends) (holds : dialect.responseId? raw = some id) :
    (∃ frame, (dialect.classify binder raw).result = .ok (.response frame) ∧ frame.id = id) ∨
      ∃ error, (dialect.classify binder raw).result = .error (.unrecognized error) := by
  cases dialect with
  | v8 =>
    have described : binder.describe? (envelope .v8) = some Catalog.v8Schemas[0] :=
      extending _ _ rfl
    cases narrowed : (binder.resolve Catalog.v8Schemas[0] raw .eager).result with
    | error error => exact .inr ⟨error, classify_of_unresolved described narrowed⟩
    | ok variant =>
      left
      obtain ⟨members, chosen, view, object, discriminated, bound, rfl⟩ :=
        (Binder.resolveWith_discriminated_eq_ok rfl).1 narrowed
      simp only [responseId?, Json.get?, object, Option.bind_some] at holds
      split at holds
      · rename_i response
        obtain ⟨text, found?, equal⟩ := (Option.any_eq_true _ _).1 response
        obtain ⟨tag, tagged, written⟩ := Option.bind_eq_some_iff.1 found?
        obtain ⟨value, member, read⟩ := Option.bind_eq_some_iff.1 holds
        obtain ⟨candidate, listed, found, passes⟩ := Binder.candidate_of_discriminate discriminated
        rw [v8_candidate tagged written equal listed passes] at found
        cases (extending "V8Response" _ rfl).symm.trans found
        obtain ⟨frame, framed, named⟩ :=
          v8Response_of_bindEager extending rfl bound object member read
        exact ⟨frame, classify_of_narrowed described narrowed rfl framed, named⟩
      · cases holds
  | wip =>
    have described : binder.describe? (envelope .wip) = some Catalog.wipSchemas[0] :=
      extending _ _ rfl
    cases narrowed : (binder.resolve Catalog.wipSchemas[0] raw .eager).result with
    | error error => exact .inr ⟨error, classify_of_unresolved described narrowed⟩
    | ok variant =>
      left
      obtain ⟨members, chosen, view, object, discriminated, bound, rfl⟩ :=
        (Binder.resolveWith_discriminated_eq_ok rfl).1 narrowed
      simp only [responseId?, Json.get?, object, Option.bind_some] at holds
      obtain ⟨value, member, read⟩ := Option.bind_eq_some_iff.1 holds
      obtain ⟨candidate, listed, found, passes⟩ := Binder.candidate_of_discriminate discriminated
      rw [wip_candidate member listed passes] at found
      cases (extending "WipResponse" _ rfl).symm.trans found
      obtain ⟨frame, framed, named⟩ :=
        wipResponse_of_bindEager extending rfl bound object member read
      exact ⟨frame, classify_of_narrowed described narrowed rfl framed, named⟩

end Dialect

end DebugLink
