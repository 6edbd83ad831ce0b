import DebugLink.Proofs.Wire.Envelope

/-!
# The id of a response, read from the raw frame

The id of a response is a number without a fraction. The envelope accepts it as an integer and as a
double; from the raw frame it is read only when it is written as an integer. So a response whose id
is written as a double completes its call, but once its other fields cannot be decoded it does not
fail the call either.
-/

set_option autoImplicit false

namespace DebugLink.Dialect

def idKey : Dialect → String
  | .v8 => "request_seq"
  | .wip => "id"

variable {binder : Binder} {schema : Schema} {raw : Json} {view : View} {dialect : Dialect}
  {frame : ResponseFrame}

/-! ## Ids and numbers -/

theorem checkId_eq_ok {n : Int} {id : UInt64} :
    (checkId n).result = .ok id ↔ 0 ≤ n ∧ UInt64.ofNat n.toNat = id := by
  unfold checkId
  split <;> rename_i natural <;> simp [natural]

theorem written_of_long? {value : Json} {n : Int} {id : UInt64} (long : Binder.long? value = some n)
    (checked : (checkId n).result = .ok id) :
    ∃ number, value = .number number ∧ number.whole? = some (id.toNat : Int) ∧
      value.asUInt64? = match number with
        | .integer .. => some id
        | .double _ => none := by
  obtain ⟨natural, rfl⟩ := checkId_eq_ok.1 checked
  obtain ⟨written, bounds⟩ := Option.filter_eq_some_iff.1 long
  obtain ⟨number, held, whole⟩ := Option.bind_eq_some_iff.1 written
  have below : n.toNat < UInt64.size := by
    have size : UInt64.size = 2 ^ 64 := rfl
    simp only [Bool.and_eq_true, decide_eq_true_eq] at bounds
    omega
  have same : ((UInt64.ofNat n.toNat).toNat : Int) = n := by
    rw [UInt64.toNat_ofNat_of_lt' below]
    exact Int.toNat_of_nonneg natural
  cases value with
  | number own =>
    cases held
    refine ⟨number, rfl, whole.trans (congrArg some same.symm), ?_⟩
    cases number with
    | double d => rfl
    | integer own lower upper =>
      cases whole
      exact if_pos natural
  | _ => cases held

theorem written_of_bound {field : Field} {x : FieldValue} {id : UInt64} (kind : field.kind = .long)
    (required : field.optional = false) (solid : field.nullable = false)
    (bound : (Binder.bindFieldWith binder.coerce schema raw .eager field).result = .ok x)
    (checked : (checkId (x.asLong?.getD 0)).result = .ok id) :
    ∃ number, raw.get? field.wire = some (.number number) ∧
      number.whole? = some (id.toNat : Int) ∧
      (raw.get? field.wire).bind Json.asUInt64? = match number with
        | .integer .. => some id
        | .double _ => none := by
  obtain ⟨members, object, cases⟩ := Binder.bindFieldWith_eq_ok.1 bound
  have member : raw.get? field.wire = members.lookup field.wire := by
    rw [Json.get?, object]
    rfl
  rcases cases with ⟨-, optional, -⟩ | ⟨-, nullable, -⟩ | ⟨value, found, -, coerced⟩
  · cases required.symm.trans optional
  · cases solid.symm.trans nullable
  · rw [kind, Binder.coerce_eq_coerceWith] at coerced
    obtain ⟨n, long, rfl⟩ := Binder.coerceWith_long_eq_ok.1 coerced
    obtain ⟨number, rfl, whole, read⟩ := written_of_long? long checked
    rw [member, found]
    exact ⟨number, rfl, whole, read⟩

/-! ## Frames that are responses -/

theorem narrowed_of_classify
    (decoded : (dialect.classify binder raw).result = .ok (.response frame)) :
    ∃ base variant, binder.describe? dialect.envelope = some base ∧
      (binder.resolve base raw .eager).result = .ok variant ∧
      variant.type = dialect.responseType ∧
      (match dialect with
        | .v8 => v8Response binder variant.view
        | .wip => wipResponse binder variant.view).result = .ok frame := by
  unfold classify at decoded
  obtain ⟨base, described, rest⟩ := Outcome.result_bind_eq_ok.1 decoded
  obtain ⟨variant, narrowed, rest⟩ := Outcome.result_bind_eq_ok.1 rest
  refine ⟨base, variant, Outcome.result_ofOption_eq_ok.1 described,
    Outcome.result_mapError_eq_ok.1 narrowed, ?_⟩
  dsimp only at rest
  split at rest
  · rename_i chosen
    refine ⟨eq_of_beq chosen, ?_⟩
    cases dialect with
    | v8 | wip =>
      obtain ⟨own, read, same⟩ := Outcome.result_map_eq_ok.1 rest
      cases same
      exact read
  · cases dialect with
    | v8 | wip =>
      obtain ⟨name, -, rest⟩ := Outcome.result_bind_eq_ok.1 rest
      obtain ⟨body, -, last⟩ := Outcome.result_bind_eq_ok.1 rest
      cases last

theorem candidate_of_resolve {base : Schema} {candidates : List Candidate} {variant : Variant}
    (rule : base.subtypes = some ⟨.discriminated, candidates⟩)
    (narrowed : (binder.resolve base raw .eager).result = .ok variant) :
    ∃ members, raw.asMembers? = some members ∧
      ∃ candidate ∈ candidates, candidate.type = variant.type ∧
        Binder.firstFailure? members candidate = none ∧
        ∃ chosen, binder.describe? variant.type = some chosen ∧
          (binder.bindEager chosen raw).result = .ok variant.view := by
  obtain ⟨members, chosen, view, object, discriminated, bound, rfl⟩ :=
    (Binder.resolveWith_discriminated_eq_ok rule).1 narrowed
  obtain ⟨candidate, listed, found, passes⟩ := Binder.candidate_of_discriminate discriminated
  have named := Registry.id_of_describe? found
  exact ⟨members, object, candidate, listed, named.symm, passes, chosen, named ▸ found, bound⟩

theorem tag_of_firstFailure? {members : List (String × Json)} {key expected type : String}
    (passes : Binder.firstFailure? members ⟨type, [.isString key expected]⟩ = none) :
    ((members.lookup key).bind Json.asString?).any (Text.equalIgnoringCase · expected) = true := by
  cases found : members.lookup key with
  | none =>
    simp [Binder.firstFailure?, Condition.failure?, Condition.field, found] at passes
  | some tag =>
    simpa [Binder.firstFailure?, Condition.failure?, Condition.field, found] using passes

theorem id_of_v8Response (read : (v8Response binder view).result = .ok frame) :
    ∃ x, (readField binder view "requestSeq").result = .ok x ∧
      (checkId (x.asLong?.getD 0)).result = .ok frame.id := by
  unfold v8Response at read
  obtain ⟨x, field, rest⟩ := Outcome.result_bind_eq_ok.1 read
  obtain ⟨id, checked, rest⟩ := Outcome.result_bind_eq_ok.1 rest
  obtain ⟨success, -, rest⟩ := Outcome.result_bind_eq_ok.1 rest
  refine ⟨x, field, ?_⟩
  suffices named : frame.id = id by
    rw [named]
    exact checked
  dsimp only at rest
  split at rest
  · obtain ⟨outcome, -, rest⟩ := Outcome.result_bind_eq_ok.1 rest
    obtain ⟨list, -, rest⟩ := Outcome.result_bind_eq_ok.1 rest
    obtain ⟨refs, -, rest⟩ := Outcome.result_bind_eq_ok.1 rest
    obtain ⟨running, -, last⟩ := Outcome.result_bind_eq_ok.1 rest
    cases last
    rfl
  · obtain ⟨text, -, rest⟩ := Outcome.result_bind_eq_ok.1 rest
    rw [pure_bind] at rest
    obtain ⟨list, -, rest⟩ := Outcome.result_bind_eq_ok.1 rest
    obtain ⟨refs, -, rest⟩ := Outcome.result_bind_eq_ok.1 rest
    obtain ⟨running, -, last⟩ := Outcome.result_bind_eq_ok.1 rest
    cases last
    rfl

theorem id_of_wipResponse (read : (wipResponse binder view).result = .ok frame) :
    ∃ x, (readField binder view "id").result = .ok x ∧
      (checkId (x.asLong?.getD 0)).result = .ok frame.id := by
  unfold wipResponse at read
  obtain ⟨x, field, rest⟩ := Outcome.result_bind_eq_ok.1 read
  obtain ⟨id, checked, rest⟩ := Outcome.result_bind_eq_ok.1 rest
  obtain ⟨error, -, rest⟩ := Outcome.result_bind_eq_ok.1 rest
  refine ⟨x, field, ?_⟩
  suffices named : frame.id = id by
    rw [named]
    exact checked
  dsimp only at rest
  split at rest
  · obtain ⟨code, -, rest⟩ := Outcome.result_bind_eq_ok.1 rest
    obtain ⟨text, -, rest⟩ := Outcome.result_bind_eq_ok.1 rest
    cases rest
    rfl
  · obtain ⟨outcome, -, last⟩ := Outcome.result_bind_eq_ok.1 rest
    cases last
    rfl

/-- The member that holds the id of a frame which is classified as a response is a number without
a fraction. From the raw frame this id is read if the number is written as an integer, and none is
read if it is written as a double. -/
theorem id_read_iff_written_as_integer {extra : List Schema} {registry : Registry}
    {ambiguity : AmbiguityPolicy}
    (built : (Catalog.draft.registerAll extra).1.build = .ok registry)
    (decoded : (dialect.classify ⟨registry, ambiguity⟩ raw).result = .ok (.response frame)) :
    ∃ number, raw.get? dialect.idKey = some (.number number) ∧
      number.whole? = some (frame.id.toNat : Int) ∧
      dialect.responseId? raw = match number with
        | .integer .. => some frame.id
        | .double _ => none := by
  have extending := Registry.extends_of_build built
  obtain ⟨base, variant, described, narrowed, chosen, read⟩ := narrowed_of_classify decoded
  cases dialect with
  | v8 =>
    cases (extending "V8Incoming" _ rfl).symm.trans described
    obtain ⟨members, object, candidate, listed, named, passes, own, found, bound⟩ :=
      candidate_of_resolve rfl narrowed
    rw [chosen] at found named
    cases (extending "V8Response" _ rfl).symm.trans found
    obtain ⟨x, field, checked⟩ := id_of_v8Response read
    obtain ⟨y, same, coerced⟩ :=
      readField_of_bindEagerWith _ "requestSeq" bound rfl rfl
    cases field.symm.trans same
    obtain ⟨number, member, whole, quick⟩ := written_of_bound rfl rfl rfl coerced checked
    refine ⟨number, member, whole, ?_⟩
    -- Only the first candidate is of this type, and its condition is on the tag that is read too.
    rcases List.mem_cons.1 listed with rfl | other
    · have tagged : ((raw.get? "type").bind Json.asString?).any
          (Text.equalIgnoringCase · "response") = true := by
        rw [Json.get?, object]
        exact tag_of_firstFailure? passes
      rw [responseId?, if_pos tagged]
      exact quick
    · rw [List.mem_singleton.1 other] at named
      simp [responseType] at named
  | wip =>
    cases (extending "WipIncoming" _ rfl).symm.trans described
    obtain ⟨members, object, candidate, listed, named, passes, own, found, bound⟩ :=
      candidate_of_resolve rfl narrowed
    rw [chosen] at found
    cases (extending "WipResponse" _ rfl).symm.trans found
    obtain ⟨x, field, checked⟩ := id_of_wipResponse read
    obtain ⟨y, same, coerced⟩ := readField_of_bindEagerWith _ "id" bound rfl rfl
    cases field.symm.trans same
    exact written_of_bound rfl rfl rfl coerced checked

def pointedResponse (success : Json) : Json :=
  .object [("request_seq", .number (.double (.ofInt 1))), ("success", success),
    ("type", .string "response")]

theorem id_read_iff_written_as_integer_pointed :
    (Catalog.draft.registerAll []).1.build = .ok Catalog.registry ∧
    ∃ frame, (classify .v8 ⟨Catalog.registry, .reject⟩ (pointedResponse (.bool true))).result
        = .ok (.response frame) ∧ frame.id = 1 ∧
      ∃ number, (pointedResponse (.bool true)).get? (idKey .v8) = some (.number number) ∧
        number.whole? = some (frame.id.toNat : Int) := by
  have built : (Catalog.draft.registerAll []).1.build = .ok Catalog.registry := by rfl
  obtain ⟨frame, decoded, named⟩ : ∃ frame,
      (classify .v8 ⟨Catalog.registry, .reject⟩ (pointedResponse (.bool true))).result
        = .ok (.response frame) ∧ frame.id = 1 := ⟨_, rfl, rfl⟩
  obtain ⟨number, member, whole, -⟩ := id_read_iff_written_as_integer built decoded
  exact ⟨built, frame, decoded, named, number, member, whole⟩

/-- A response that completes the first call, and the same with a field that cannot be decoded:
from neither is an id read. -/
theorem id_not_read_from_double :
    (∃ frame, (classify .v8 ⟨Catalog.registry, .reject⟩ (pointedResponse (.bool true))).result
      = .ok (.response frame) ∧ frame.id = 1) ∧
    responseId? .v8 (pointedResponse (.bool true)) = none ∧
    (∃ error, (classify .v8 ⟨Catalog.registry, .reject⟩ (pointedResponse (.string "yes"))).result
      = .error error) ∧
    responseId? .v8 (pointedResponse (.string "yes")) = none :=
  ⟨⟨_, rfl, rfl⟩, by decide, ⟨_, rfl⟩, by decide⟩

end DebugLink.Dialect
