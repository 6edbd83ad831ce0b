import DebugLink.Proofs.Binding.Acceptance
import DebugLink.Proofs.Wire.Decoding

/-!
# Responses and events as candidates of the envelope

No frame matches the candidates for responses and for events at once. So a frame is a response just
when it matches the first, binds to it and is read from the view, and an event likewise.
-/

set_option autoImplicit false

namespace DebugLink

/-! ## Responses and events as candidates -/

namespace Dialect

variable {dialect : Dialect} {binder : Binder} {raw : Json} {view : View}
  {members : List (String × Json)}

def responseCandidate : Dialect → Candidate
  | .v8 => ⟨"V8Response", [.isString "type" "response"]⟩
  | .wip => ⟨"WipResponse", [.present "id"]⟩

def eventCandidate : Dialect → Candidate
  | .v8 => ⟨"V8Event", [.isString "type" "event"]⟩
  | .wip => ⟨"WipEvent", [.absent "id", .present "method"]⟩

def envelopeSchema (dialect : Dialect) : Schema :=
  Catalog.discriminated dialect.envelope [dialect.responseCandidate, dialect.eventCandidate]

def responseSchema : Dialect → Schema
  | .v8 => Catalog.v8Schemas[1]
  | .wip => Catalog.wipSchemas[1]

def eventSchema : Dialect → Schema
  | .v8 => Catalog.v8Schemas[2]
  | .wip => Catalog.wipSchemas[2]

def readResponse (dialect : Dialect) (binder : Binder) (view : View) :
    Outcome FrameError ResponseFrame :=
  match dialect with
  | .v8 => v8Response binder view
  | .wip => wipResponse binder view

def nameKey : Dialect → String
  | .v8 => "event"
  | .wip => "method"

def readEvent (dialect : Dialect) (binder : Binder) (view : View) :
    Outcome FrameError EventFrame := do
  let name ← readText binder view dialect.nameKey
  return ⟨name, ← readPayload binder view dialect.paramsKey⟩

structure Known (dialect : Dialect) (binder : Binder) : Prop where
  envelope : binder.describe? dialect.envelope = some dialect.envelopeSchema
  response : binder.describe? dialect.responseCandidate.type = some dialect.responseSchema
  event : binder.describe? dialect.eventCandidate.type = some dialect.eventSchema

theorem known_of_extends (extending : binder.registry.Extends) : dialect.Known binder := by
  cases dialect <;> exact ⟨extending _ _ rfl, extending _ _ rfl, extending _ _ rfl⟩

theorem not_both (response : dialect.responseCandidate.Matches members) :
    ¬ dialect.eventCandidate.Matches members := by
  intro event
  cases dialect with
  | v8 =>
    obtain ⟨text, tagged, isResponse⟩ := response _ List.mem_cons_self
    obtain ⟨other, same, isEvent⟩ := event _ List.mem_cons_self
    cases tagged.symm.trans same
    have first := eq_of_beq (a := text.toList.map Char.toLower) isResponse
    have second := eq_of_beq (a := text.toList.map Char.toLower) isEvent
    exact absurd (first.symm.trans second) (by decide)
  | wip =>
    obtain ⟨value, present⟩ := response _ List.mem_cons_self
    have absent : members.lookup "id" = none := event _ List.mem_cons_self
    cases present.symm.trans absent

theorem matching_of_response (response : dialect.responseCandidate.Matches members) :
    Candidate.matching members [dialect.responseCandidate, dialect.eventCandidate]
      = [dialect.responseCandidate] := by
  simp [Candidate.matching, response, not_both response]

theorem matching_of_event (event : dialect.eventCandidate.Matches members) :
    Candidate.matching members [dialect.responseCandidate, dialect.eventCandidate]
      = [dialect.eventCandidate] := by
  have other : ¬ dialect.responseCandidate.Matches members :=
    fun response => not_both response event
  simp [Candidate.matching, event, other]

/-- A frame is narrowed to the one candidate that it matches, if it binds to it. -/
theorem narrowed_iff (known : dialect.Known binder) {variant : Variant} :
    (binder.resolve dialect.envelopeSchema raw .eager).result = .ok variant ↔
      ∃ members, raw.asMembers? = some members ∧ variant.base = dialect.envelope ∧
        ((dialect.responseCandidate.Matches members ∧
          (binder.bindEager dialect.responseSchema raw).result = .ok variant.view ∧
          variant.type = dialect.responseCandidate.type) ∨
        (dialect.eventCandidate.Matches members ∧
          (binder.bindEager dialect.eventSchema raw).result = .ok variant.view ∧
          variant.type = dialect.eventCandidate.type)) := by
  have knows : binder.Knows [dialect.responseCandidate, dialect.eventCandidate] := by
    simp [Binder.Knows, known.response, known.event]
  have rule : dialect.envelopeSchema.subtypes
      = some ⟨.discriminated, [dialect.responseCandidate, dialect.eventCandidate]⟩ := rfl
  cases object : raw.asMembers? with
  | none =>
    refine iff_of_false (fun narrowed => ?_) (by simp)
    obtain ⟨members, _, _, same, -⟩ :=
      (Binder.resolveWith_discriminated_eq_ok rule).1 narrowed
    cases object.symm.trans same
  | some members =>
    rw [(Binder.discriminates_of_knows knows rule object .eager).chosen variant]
    simp only [Option.some.injEq, exists_eq_left']
    constructor
    · rintro ⟨candidate, chosen, single, described, -, bound, own, type⟩
      have mem : candidate ∈ Candidate.matching members
          [dialect.responseCandidate, dialect.eventCandidate] := by simp [single]
      obtain ⟨listed, matching⟩ := List.mem_filter.1 mem
      have holds : candidate.Matches members := by simpa using matching
      refine ⟨own, ?_⟩
      rcases List.mem_cons.1 listed with rfl | other
      · cases known.response.symm.trans described
        exact .inl ⟨holds, bound, type⟩
      · obtain rfl := List.mem_singleton.1 other
        cases known.event.symm.trans described
        exact .inr ⟨holds, bound, type⟩
    · rintro ⟨own, ⟨holds, bound, type⟩ | ⟨holds, bound, type⟩⟩
      · exact ⟨_, _, matching_of_response holds, known.response,
          Binder.complete_of_bindEager object bound, bound, own, type⟩
      · exact ⟨_, _, matching_of_event holds, known.event,
          Binder.complete_of_bindEager object bound, bound, own, type⟩

theorem classify_eq_ok (known : dialect.Known binder) {incoming : Incoming} :
    (dialect.classify binder raw).result = .ok incoming ↔
      ∃ variant, (binder.resolve dialect.envelopeSchema raw .eager).result = .ok variant ∧
        if variant.type = dialect.responseType then
          ∃ frame, (dialect.readResponse binder variant.view).result = .ok frame ∧
            .response frame = incoming
        else
          ∃ frame, (dialect.readEvent binder variant.view).result = .ok frame ∧
            .event frame = incoming := by
  have described : (Outcome.ofOption (FrameError.missingEnvelope dialect.envelope)
      (binder.describe? dialect.envelope)).result = .ok dialect.envelopeSchema :=
    Outcome.result_ofOption_eq_ok.2 known.envelope
  unfold classify
  rw [Outcome.result_bind_of_ok described, Outcome.result_bind_eq_ok]
  simp only [Outcome.result_mapError_eq_ok, Variant.isOf, beq_iff_eq]
  refine exists_congr fun variant => and_congr_right fun _ => ?_
  split
  · cases dialect <;> exact Outcome.result_map_eq_ok
  · rw [← Outcome.result_map_eq_ok, readEvent]
    simp only [map_bind, map_pure]
    cases dialect <;> exact Iff.rfl

theorem type_responseCandidate : dialect.responseCandidate.type = dialect.responseType := by
  cases dialect <;> rfl

theorem type_eventCandidate : dialect.eventCandidate.type ≠ dialect.responseType := by
  cases dialect <;> simp [eventCandidate, responseType]

theorem classify_eq_response (known : dialect.Known binder) {frame : ResponseFrame} :
    (dialect.classify binder raw).result = .ok (.response frame) ↔
      ∃ members view, raw.asMembers? = some members ∧
        dialect.responseCandidate.Matches members ∧
        (binder.bindEager dialect.responseSchema raw).result = .ok view ∧
        (dialect.readResponse binder view).result = .ok frame := by
  simp only [classify_eq_ok known, narrowed_iff known]
  constructor
  · rintro ⟨variant, ⟨members, object, -, ⟨holds, bound, type⟩ | ⟨holds, bound, type⟩⟩, given⟩
    · rw [if_pos (type.trans type_responseCandidate)] at given
      obtain ⟨_, read, same⟩ := given
      cases same
      exact ⟨members, variant.view, object, holds, bound, read⟩
    · rw [if_neg (type ▸ type_eventCandidate)] at given
      obtain ⟨_, -, other⟩ := given
      cases other
  · rintro ⟨members, view, object, holds, bound, read⟩
    refine ⟨⟨_, _, view⟩, ⟨members, object, rfl, .inl ⟨holds, bound, rfl⟩⟩, ?_⟩
    rw [if_pos type_responseCandidate]
    exact ⟨frame, read, rfl⟩

theorem classify_eq_event (known : dialect.Known binder) {frame : EventFrame} :
    (dialect.classify binder raw).result = .ok (.event frame) ↔
      ∃ members view, raw.asMembers? = some members ∧
        dialect.eventCandidate.Matches members ∧
        (binder.bindEager dialect.eventSchema raw).result = .ok view ∧
        (dialect.readEvent binder view).result = .ok frame := by
  simp only [classify_eq_ok known, narrowed_iff known]
  constructor
  · rintro ⟨variant, ⟨members, object, -, ⟨holds, bound, type⟩ | ⟨holds, bound, type⟩⟩, given⟩
    · rw [if_pos (type.trans type_responseCandidate)] at given
      obtain ⟨_, -, other⟩ := given
      cases other
    · rw [if_neg (type ▸ type_eventCandidate)] at given
      obtain ⟨_, read, same⟩ := given
      cases same
      exact ⟨members, variant.view, object, holds, bound, read⟩
  · rintro ⟨members, view, object, holds, bound, read⟩
    refine ⟨⟨_, _, view⟩, ⟨members, object, rfl, .inr ⟨holds, bound, rfl⟩⟩, ?_⟩
    rw [if_neg type_eventCandidate]
    exact ⟨frame, read, rfl⟩

/-! ## Reading a bound frame -/

section Bound

variable {schema : Schema} {index : Nat} {field : Field}
  (bound : (binder.bindEager schema raw).result = .ok view) (name : String)
  (place : schema.fieldIndex? name = some index) (declared : schema.fields[index]? = some field)
include bound place declared

theorem readField_of_bound :
    ∃ x, (readField binder view name).result = .ok x ∧
      (binder.bindField schema raw .eager field).result = .ok x :=
  readField_of_bindEagerWith binder name bound place declared

theorem readText_of_bound (kind : field.kind = .string) :
    (readText binder view name).result = .ok (raw.text field.wire) := by
  obtain ⟨x, read, value⟩ := readField_of_bound bound name place declared
  unfold readText
  rw [Outcome.result_bind_of_ok read, Binder.asString?_of_bound value kind]
  rfl

theorem readPayload_of_bound (kind : field.kind = .any) :
    (readPayload binder view name).result = .ok ((raw.get? field.wire).getD .null) := by
  obtain ⟨x, read, value⟩ := readField_of_bound bound name place declared
  unfold readPayload
  rw [Outcome.result_bind_of_ok read, payload_of_bound kind value]
  rfl

end Bound

theorem readEvent_of_bound (bound : (binder.bindEager dialect.eventSchema raw).result = .ok view) :
    (dialect.readEvent binder view).result
      = .ok ⟨raw.text dialect.nameKey, (raw.get? dialect.paramsKey).getD .null⟩ := by
  obtain ⟨named, shown⟩ : (readText binder view dialect.nameKey).result
        = .ok (raw.text dialect.nameKey) ∧
      (readPayload binder view dialect.paramsKey).result
        = .ok ((raw.get? dialect.paramsKey).getD .null) := by
    cases dialect with
    | v8 =>
      exact ⟨readText_of_bound bound "event" rfl rfl rfl,
        readPayload_of_bound bound "body" rfl rfl rfl⟩
    | wip =>
      exact ⟨readText_of_bound bound "method" rfl rfl rfl,
        readPayload_of_bound bound "params" rfl rfl rfl⟩
  unfold readEvent
  rw [Outcome.result_bind_of_ok named, Outcome.result_bind_of_ok shown]
  rfl

end Dialect

end DebugLink
