import DebugLink.Proofs.Binding.Blame
import DebugLink.Proofs.Wire.Conservation
import DebugLink.Proofs.Wire.Identification

/-!
# What comes of decoding a frame

A frame that cannot be decoded is at fault itself, unless the envelope of its dialect is of no use:
then no frame can be decoded. The body of a frame that is decoded is a member of the raw frame, and
null if there is no such member.
-/

set_option autoImplicit false

namespace DebugLink

def FrameError.LiesInValue : FrameError → Prop
  | .unrecognized error => error.LiesInValue
  | .malformed error => error.LiesInValue
  | .invalidId _ => True
  | .missingEnvelope _ => False

namespace Dialect

inductive Unusable (dialect : Dialect) (registry : Registry) : FrameError → Prop where
  | unknown (missing : registry.describe? dialect.envelope = none) :
      Unusable dialect registry (.missingEnvelope dialect.envelope)
  | plain {schema : Schema} (described : registry.describe? dialect.envelope = some schema)
      (single : schema.subtypes = none) :
      Unusable dialect registry (.unrecognized (.notPolymorphic schema.id))

variable {dialect : Dialect} {binder : Binder} {schema : Schema} {raw : Json} {view : View}

theorem usable_of_extends {registry : Registry} {error : FrameError} (extending : registry.Extends) :
    ¬ dialect.Unusable registry error := by
  have enveloped : ∃ schema, registry.describe? dialect.envelope = some schema ∧
      schema.subtypes ≠ none := by
    cases dialect with
    | v8 => exact ⟨_, extending "V8Incoming" _ rfl, by simp [Catalog.discriminated]⟩
    | wip => exact ⟨_, extending "WipIncoming" _ rfl, by simp [Catalog.discriminated]⟩
  obtain ⟨schema, known, polymorphic⟩ := enveloped
  rintro (missing | ⟨described, single⟩)
  · cases known.symm.trans missing
  · cases known.symm.trans described
    exact polymorphic single

/-! ## Errors of a frame -/

theorem readField_blames (sound : binder.registry.Sound)
    (all : view.All (View.Blameless binder.registry)) (name : String) :
    (readField binder view name).FailsWith FrameError.LiesInValue := by
  intro error failed
  have gives : ((binder.fieldNamed name).run.run view).value.1.mapError FrameError.malformed
      = .error error := failed
  cases given : ((binder.fieldNamed name).run.run view).value.1 with
  | ok x =>
    rw [given] at gives
    cases gives
  | error fault =>
    rw [given] at gives
    cases gives
    have safe := (Binder.Reading.fieldNamed name).safe (Binder.fieldAt_blames sound view)
      (fun _ _ => trivial) (fun _ _ => trivial) view ⟨all, .refl view⟩
    exact safe.2 fault given

theorem checkId_blames (id : Int) : (checkId id).FailsWith FrameError.LiesInValue := by
  unfold checkId
  split
  · exact .pure _
  · exact .throw trivial

theorem readPayload_blames (sound : binder.registry.Sound)
    (all : view.All (View.Blameless binder.registry)) (name : String) :
    (readPayload binder view name).FailsWith FrameError.LiesInValue :=
  .bind (readField_blames sound all name) fun _ _ => .pure _

theorem readRefs_blames {elements : List FieldValue} (sound : binder.registry.Sound)
    (all : ∀ element ∈ elements, ∀ inner, element.asRecord? = some inner →
      inner.All (View.Blameless binder.registry)) :
    (readRefs binder elements).FailsWith FrameError.LiesInValue := by
  refine .mapM fun entry mem => ?_
  obtain ⟨element, listed, held⟩ := List.mem_filterMap.1 mem
  exact .bind (readField_blames sound (all element listed entry held) "handle") fun _ _ => .pure _

theorem v8Response_blames (sound : binder.registry.Sound)
    (all : view.All (View.Blameless binder.registry)) :
    (v8Response binder view).FailsWith FrameError.LiesInValue := by
  have field := readField_blames sound all
  have refs : ∀ list, (readField binder view "refs").result = .ok list →
      (readRefs binder (list.asList?.getD [])).FailsWith FrameError.LiesInValue := by
    intro list read
    refine readRefs_blames sound fun element listed inner held => ?_
    exact all_of_readField (Binder.keeps_blameless sound) all read inner
      (FieldValue.mem_views_of_asList? listed held)
  refine .bind (field "requestSeq") fun number _ => .bind (checkId_blames _) fun id _ =>
    .bind (field "success") fun success _ => ?_
  dsimp only
  split
  · refine .bind (readPayload_blames sound all "body").map fun outcome _ => ?_
    exact .bind (field "refs") fun list read => .bind (refs list read) fun _ _ =>
      .bind (field "running") fun _ _ => .pure _
  · refine .bind (field "message") fun text _ => ?_
    rw [pure_bind]
    exact .bind (field "refs") fun list read => .bind (refs list read) fun _ _ =>
      .bind (field "running") fun _ _ => .pure _

theorem wipResponse_blames (sound : binder.registry.Sound)
    (all : view.All (View.Blameless binder.registry)) :
    (wipResponse binder view).FailsWith FrameError.LiesInValue := by
  have field := readField_blames sound all
  refine .bind (field "id") fun number _ => .bind (checkId_blames _) fun id _ =>
    .bind (field "error") fun error read => ?_
  dsimp only
  split
  · rename_i inner held
    have within := all_of_readField (Binder.keeps_blameless sound) all read inner
      (FieldValue.mem_views_of_asRecord? held)
    exact .bind (readField_blames sound within "code") fun _ _ =>
      .bind (readField_blames sound within "message") fun _ _ => .pure _
  · exact .bind (readPayload_blames sound all "result").map fun _ _ => .pure _

/-- With a registry that was built, a frame is not decoded only for what it is itself, or because
the envelope cannot be used. -/
theorem classify_blames (sound : binder.registry.Sound) (dialect : Dialect) (raw : Json) :
    (dialect.classify binder raw).FailsWith fun error =>
      error.LiesInValue ∨ dialect.Unusable binder.registry error := by
  have widen : ∀ {α : Type} {x : Outcome FrameError α}, x.FailsWith FrameError.LiesInValue →
      x.FailsWith fun error => error.LiesInValue ∨ dialect.Unusable binder.registry error :=
    fun fails error failed => .inl (fails error failed)
  refine .bind (.ofOption fun missing => .inr (.unknown missing)) fun base found => ?_
  have described := Outcome.result_ofOption_eq_ok.1 found
  have narrowing : ((binder.resolve base raw .eager).mapError FrameError.unrecognized).FailsWith
      fun error => error.LiesInValue ∨ dialect.Unusable binder.registry error := by
    refine Outcome.FailsWith.mapError (fun error failed =>
      Binder.resolve_blames sound (Binder.mem_of_describe? described) failed) ?_
    rintro error (lies | ⟨single, rfl⟩)
    · exact .inl lies
    · exact .inr (.plain described single)
  refine .bind narrowing fun variant narrowed => ?_
  have all := Binder.all_of_resolve (Binder.keeps_blameless sound)
    (Outcome.result_mapError_eq_ok.1 narrowed)
  have payload := readPayload_blames sound all
  have text : ∀ name, (readText binder variant.view name).FailsWith FrameError.LiesInValue :=
    fun name => .bind (readField_blames sound all name) fun _ _ => .pure _
  dsimp only
  split
  · cases dialect with
    | v8 => exact widen (v8Response_blames sound all).map
    | wip => exact widen (wipResponse_blames sound all).map
  · cases dialect with
    | v8 => exact widen (.bind (text "event") fun _ _ => .bind (payload "body") fun _ _ => .pure _)
    | wip =>
      exact widen (.bind (text "method") fun _ _ => .bind (payload "params") fun _ _ => .pure _)

/-! ## Bodies -/

def resultKey : Dialect → String
  | .v8 => "body"
  | .wip => "result"

def paramsKey : Dialect → String
  | .v8 => "body"
  | .wip => "params"

theorem payload_of_bound {field : Field} {x : FieldValue} (kind : field.kind = .any)
    (bound : (Binder.bindFieldWith binder.coerce schema raw .eager field).result = .ok x) :
    x.asAny?.getD .null = (raw.get? field.wire).getD .null := by
  obtain ⟨members, object, cases⟩ := Binder.bindFieldWith_eq_ok.1 bound
  have member : raw.get? field.wire = members.lookup field.wire := by
    rw [Json.get?, object]
    rfl
  rw [member]
  rcases cases with ⟨absent, -, rfl⟩ | ⟨null, -, rfl⟩ | ⟨value, found, -, coerced⟩
  · rw [absent]
    rfl
  · rw [null]
    rfl
  · rw [kind, Binder.coerce_eq_coerceWith] at coerced
    cases coerced
    rw [found]
    rfl

theorem payload_of_readPayload {name : String} {index : Nat} {field : Field} {payload : Json}
    (bound : (binder.bindEager schema raw).result = .ok view)
    (place : schema.fieldIndex? name = some index) (declared : schema.fields[index]? = some field)
    (kind : field.kind = .any) (read : (readPayload binder view name).result = .ok payload) :
    payload = (raw.get? field.wire).getD .null := by
  obtain ⟨x, given, value⟩ := readField_of_bindEagerWith binder name bound place declared
  obtain ⟨y, same, last⟩ := Outcome.result_bind_eq_ok.1 read
  cases same.symm.trans given
  cases last
  exact payload_of_bound kind value

theorem body_of_v8Response {frame : ResponseFrame} {body : Json}
    (read : (v8Response binder view).result = .ok frame) (success : frame.outcome = .ok body) :
    (readPayload binder view "body").result = .ok body := by
  unfold v8Response at read
  obtain ⟨x, -, rest⟩ := Outcome.result_bind_eq_ok.1 read
  obtain ⟨id, -, rest⟩ := Outcome.result_bind_eq_ok.1 rest
  obtain ⟨flag, -, rest⟩ := Outcome.result_bind_eq_ok.1 rest
  dsimp only at rest
  split at rest
  · obtain ⟨outcome, wrapped, rest⟩ := Outcome.result_bind_eq_ok.1 rest
    obtain ⟨list, -, rest⟩ := Outcome.result_bind_eq_ok.1 rest
    obtain ⟨refs, -, rest⟩ := Outcome.result_bind_eq_ok.1 rest
    obtain ⟨running, -, last⟩ := Outcome.result_bind_eq_ok.1 rest
    cases last
    obtain ⟨payload, given, same⟩ := Outcome.result_map_eq_ok.1 wrapped
    cases same.trans success
    exact given
  · obtain ⟨text, -, rest⟩ := Outcome.result_bind_eq_ok.1 rest
    rw [pure_bind] at rest
    obtain ⟨list, -, rest⟩ := Outcome.result_bind_eq_ok.1 rest
    obtain ⟨refs, -, rest⟩ := Outcome.result_bind_eq_ok.1 rest
    obtain ⟨running, -, last⟩ := Outcome.result_bind_eq_ok.1 rest
    cases last
    cases success

theorem body_of_wipResponse {frame : ResponseFrame} {body : Json}
    (read : (wipResponse binder view).result = .ok frame) (success : frame.outcome = .ok body) :
    (readPayload binder view "result").result = .ok body := by
  unfold wipResponse at read
  obtain ⟨x, -, rest⟩ := Outcome.result_bind_eq_ok.1 read
  obtain ⟨id, -, rest⟩ := Outcome.result_bind_eq_ok.1 rest
  obtain ⟨error, -, rest⟩ := Outcome.result_bind_eq_ok.1 rest
  dsimp only at rest
  split at rest
  · obtain ⟨code, -, rest⟩ := Outcome.result_bind_eq_ok.1 rest
    obtain ⟨text, -, last⟩ := Outcome.result_bind_eq_ok.1 rest
    cases last
    cases success
  · obtain ⟨outcome, wrapped, last⟩ := Outcome.result_bind_eq_ok.1 rest
    cases last
    obtain ⟨payload, given, same⟩ := Outcome.result_map_eq_ok.1 wrapped
    cases same.trans success
    exact given

theorem body_of_response {frame : ResponseFrame} {body : Json}
    (extending : binder.registry.Extends)
    (decoded : (dialect.classify binder raw).result = .ok (.response frame))
    (success : frame.outcome = .ok body) : body = (raw.get? dialect.resultKey).getD .null := by
  obtain ⟨base, variant, described, narrowed, chosen, read⟩ := narrowed_of_classify decoded
  cases dialect with
  | v8 =>
    cases (extending "V8Incoming" _ rfl).symm.trans described
    obtain ⟨members, -, candidate, -, -, -, own, found, bound⟩ := candidate_of_resolve rfl narrowed
    rw [chosen] at found
    cases (extending "V8Response" _ rfl).symm.trans found
    exact payload_of_readPayload bound rfl rfl rfl (body_of_v8Response read success)
  | wip =>
    cases (extending "WipIncoming" _ rfl).symm.trans described
    obtain ⟨members, -, candidate, -, -, -, own, found, bound⟩ := candidate_of_resolve rfl narrowed
    rw [chosen] at found
    cases (extending "WipResponse" _ rfl).symm.trans found
    exact payload_of_readPayload bound rfl rfl rfl (body_of_wipResponse read success)

theorem narrowed_of_event {frame : EventFrame}
    (decoded : (dialect.classify binder raw).result = .ok (.event frame)) :
    ∃ base variant, binder.describe? dialect.envelope = some base ∧
      (binder.resolve base raw .eager).result = .ok variant ∧
      variant.type ≠ dialect.responseType ∧
      (readPayload binder variant.view dialect.paramsKey).result = .ok frame.body := by
  unfold classify at decoded
  obtain ⟨base, described, rest⟩ := Outcome.result_bind_eq_ok.1 decoded
  obtain ⟨variant, narrowed, rest⟩ := Outcome.result_bind_eq_ok.1 rest
  refine ⟨base, variant, Outcome.result_ofOption_eq_ok.1 described,
    Outcome.result_mapError_eq_ok.1 narrowed, ?_⟩
  dsimp only at rest
  split at rest
  · cases dialect with
    | v8 | wip =>
      obtain ⟨response, -, same⟩ := Outcome.result_map_eq_ok.1 rest
      cases same
  · rename_i other
    refine ⟨fun same => other (beq_iff_eq.2 same), ?_⟩
    cases dialect with
    | v8 | wip =>
      obtain ⟨name, -, rest⟩ := Outcome.result_bind_eq_ok.1 rest
      obtain ⟨body, given, last⟩ := Outcome.result_bind_eq_ok.1 rest
      cases last
      exact given

theorem body_of_event {frame : EventFrame} (extending : binder.registry.Extends)
    (decoded : (dialect.classify binder raw).result = .ok (.event frame)) :
    frame.body = (raw.get? dialect.paramsKey).getD .null := by
  obtain ⟨base, variant, described, narrowed, other, read⟩ := narrowed_of_event decoded
  cases dialect with
  | v8 =>
    cases (extending "V8Incoming" _ rfl).symm.trans described
    obtain ⟨members, -, candidate, listed, named, -, own, found, bound⟩ :=
      candidate_of_resolve rfl narrowed
    rcases List.mem_cons.1 listed with rfl | event
    · exact absurd named.symm other
    · rw [← named, List.mem_singleton.1 event] at found
      cases (extending "V8Event" _ rfl).symm.trans found
      exact payload_of_readPayload bound rfl rfl rfl read
  | wip =>
    cases (extending "WipIncoming" _ rfl).symm.trans described
    obtain ⟨members, -, candidate, listed, named, -, own, found, bound⟩ :=
      candidate_of_resolve rfl narrowed
    rcases List.mem_cons.1 listed with rfl | event
    · exact absurd named.symm other
    · rw [← named, List.mem_singleton.1 event] at found
      cases (extending "WipEvent" _ rfl).symm.trans found
      exact payload_of_readPayload bound rfl rfl rfl read

end Dialect

end DebugLink
