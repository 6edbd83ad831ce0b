import DebugLink.Proofs.Wire.Grammar

/-!
# Payloads that are null

A payload may be absent, and it may be null. In the native protocol both are the same: a frame is
read alike with either. The inspector protocol declares its payloads as optional but not as
nullable, so there a frame with a null payload is refused.
-/

set_option autoImplicit false

namespace DebugLink

namespace Json

/-! ## Setting a member -/

variable {members : List (String × Json)} {value : Json} {key other : String}

theorem lookup_insert_self : (insert key value members).lookup key = some value := by
  induction members with
  | nil => simp [insert]
  | cons member members ih =>
    unfold insert
    split
    · simp
    · rename_i after
      split
      · simp
      · rename_i differs
        rw [List.lookup_cons, beq_false_of_ne differs]
        exact ih

theorem lookup_insert_ne (differs : other ≠ key) :
    (insert key value members).lookup other = members.lookup other := by
  have apart : (other == key) = false := beq_false_of_ne differs
  induction members with
  | nil => simp [insert, List.lookup_cons, apart]
  | cons member members ih =>
    obtain ⟨own, held⟩ := member
    unfold insert
    split
    · rw [List.lookup_cons, apart]
    · split
      · rename_i same
        subst same
        rw [List.lookup_cons, List.lookup_cons, apart]
      · rw [List.lookup_cons, List.lookup_cons, ih]

end Json

/-- Two objects have the same members but for one key. -/
def AgreeBut (key : String) (members others : List (String × Json)) : Prop :=
  ∀ other, other ≠ key → others.lookup other = members.lookup other

theorem agreeBut_insert (key : String) (value : Json) (members : List (String × Json)) :
    AgreeBut key members (Json.insert key value members) :=
  fun _ differs => Json.lookup_insert_ne differs

namespace Outcome

variable {ε α β : Type}

theorem result_bind_eq_error {x : Outcome ε α} {f : α → Outcome ε β} {error : ε} :
    (x >>= f).result = .error error ↔
      x.result = .error error ∨ ∃ a, x.result = .ok a ∧ (f a).result = .error error := by
  rw [result_bind]
  cases x.result <;> simp [Except.bind]

theorem map_eq_error {x : Except ε α} {f : α → β} {error : ε} :
    x.map f = .error error ↔ x = .error error := by
  cases x <;> simp [Except.map]

/-- Two outcomes have the same error or none. -/
def FailAlike (x y : Outcome ε α) : Prop :=
  ∀ error, y.result = .error error ↔ x.result = .error error

theorem FailAlike.succeed {x y : Outcome ε α} (alike : x.FailAlike y) {a : α}
    (given : x.result = .ok a) : ∃ b, y.result = .ok b := by
  cases result : y.result with
  | ok b => exact ⟨b, rfl⟩
  | error error => cases given.symm.trans ((alike error).1 result)

theorem FailAlike.symm {x y : Outcome ε α} (alike : x.FailAlike y) : y.FailAlike x :=
  fun error => (alike error).symm

theorem FailAlike.mapM {f g : α → Outcome ε β} {as : List α}
    (each : ∀ a ∈ as, (f a).FailAlike (g a)) : (as.mapM f).FailAlike (as.mapM g) := by
  intro error
  induction as with
  | nil => rfl
  | cons a as ih =>
    obtain ⟨first, others⟩ := List.forall_mem_cons.1 each
    have passes : (∃ b, (g a).result = .ok b) ↔ ∃ b, (f a).result = .ok b :=
      ⟨fun ⟨_, given⟩ => first.symm.succeed given, fun ⟨_, given⟩ => first.succeed given⟩
    simp only [List.mapM_cons, result_bind_eq_error, result_pure, reduceCtorEq, and_false,
      exists_false, or_false, first error, ih others, exists_and_right, passes]

end Outcome

namespace Binder

variable {binder : Binder} {coerce : Coercion} {schema base : Schema} {field : Field} {mode : Mode}
  {members others : List (String × Json)} {candidates : List Candidate} {key : String}

/-! ## Objects that differ in one member -/

theorem bindFieldWith_of_agree (agree : AgreeBut key members others)
    (elsewhere : field.wire ≠ key) :
    bindFieldWith coerce schema (.object others) mode field
      = bindFieldWith coerce schema (.object members) mode field := by
  simp only [bindFieldWith, Json.asMembers?, agree field.wire elsewhere]

theorem bindFieldWith_absent (absent : members.lookup field.wire = none)
    (optional : field.optional = true) :
    bindFieldWith coerce schema (.object members) mode field = pure .unset := by
  simp only [bindFieldWith, Json.asMembers?, absent, optional, if_true]

theorem bindFieldWith_null (null : members.lookup field.wire = some .null) :
    bindFieldWith coerce schema (.object members) mode field
      = if field.nullable then pure .null
        else throw (.mk schema.id field.name (.kind field.kind) .unexpectedNull) := by
  simp only [bindFieldWith, Json.asMembers?, null]

theorem failure?_of_agree {condition : Condition} (agree : AgreeBut key members others)
    (elsewhere : condition.field ≠ key) :
    condition.failure? others = condition.failure? members := by
  unfold Condition.failure?
  rw [agree condition.field elsewhere]

theorem firstFailure?_of_agree {candidate : Candidate} (agree : AgreeBut key members others)
    (elsewhere : ∀ condition ∈ candidate.conditions, condition.field ≠ key) :
    firstFailure? others candidate = firstFailure? members candidate := by
  unfold firstFailure?
  generalize candidate.conditions = conditions at elsewhere ⊢
  induction conditions with
  | nil => rfl
  | cons condition conditions ih =>
    obtain ⟨first, rest⟩ := List.forall_mem_cons.1 elsewhere
    rw [List.findSome?_cons, List.findSome?_cons, failure?_of_agree agree first, ih rest]

theorem firstMissing?_of_agree (agree : AgreeBut key members others)
    (optional : ∀ field ∈ schema.fields, field.wire = key → field.optional = true) :
    schema.firstMissing? others = schema.firstMissing? members := by
  unfold Schema.firstMissing?
  generalize schema.fields = fields at optional ⊢
  induction fields with
  | nil => rfl
  | cons field fields ih =>
    obtain ⟨first, rest⟩ := List.forall_mem_cons.1 optional
    rw [List.find?_cons, List.find?_cons, ih rest]
    by_cases own : field.wire = key
    · simp [first own]
    · simp [agree field.wire own]

/-- A member that no condition looks at and no field requires has no part in the choice. -/
theorem discriminate_of_agree (knows : binder.Knows candidates) (rule : Rule)
    (agree : AgreeBut key members others)
    (elsewhere : ∀ candidate ∈ candidates, ∀ condition ∈ candidate.conditions,
      condition.field ≠ key)
    (optional : ∀ candidate ∈ candidates, ∀ schema, binder.describe? candidate.type = some schema →
      ∀ field ∈ schema.fields, field.wire = key → field.optional = true) :
    (binder.discriminate base ⟨rule, candidates⟩ others).result
      = (binder.discriminate base ⟨rule, candidates⟩ members).result := by
  have tests : ∀ candidate ∈ candidates,
      firstFailure? others candidate = firstFailure? members candidate :=
    fun candidate listed => firstFailure?_of_agree agree (elsewhere candidate listed)
  have matching : Candidate.matching others candidates = Candidate.matching members candidates :=
    List.filter_congr fun candidate listed => by
      simp only [← Candidate.firstFailure?_eq_none, tests candidate listed]
  have refusals : Candidate.refusals others candidates = Candidate.refusals members candidates :=
    List.filterMap_congr fun candidate listed => by rw [tests candidate listed]
  match matched : Candidate.matching members candidates with
  | [] =>
    rw [discriminate_of_none knows base rule matched,
      discriminate_of_none knows base rule (matching.trans matched), refusals]
  | [candidate] =>
    have mem : candidate ∈ Candidate.matching members candidates := by simp [matched]
    have listed := List.mem_of_mem_filter mem
    obtain ⟨chosen, described⟩ := knows candidate listed
    rw [discriminate_of_single knows base rule matched described,
      discriminate_of_single knows base rule (matching.trans matched) described, refusals,
      firstMissing?_of_agree agree (optional candidate listed chosen described)]
  | first :: second :: rest =>
    rw [discriminate_of_several knows base rule matched,
      discriminate_of_several knows base rule (matching.trans matched)]

theorem result_bindEager_open (opened : schema.allowsOthers = true)
    (members : List (String × Json)) :
    (bindEagerWith coerce schema (.object members)).result
      = (schema.fields.mapM (bindFieldWith coerce schema (.object members) .eager)).result.map
        fun values => .mk schema (.object members) .eager
          (values.map fun value => some (.ok value)) := by
  have none_left : schema.undeclared? members = none := by
    simp [Schema.undeclared?, opened]
  unfold bindEagerWith
  simp only [Json.asMembers?, none_left]
  exact Outcome.result_map _ _

/-- An open record binds alike whether fields that may be null are absent or null. -/
theorem bindEager_failAlike (binder : Binder) (opened : schema.allowsOthers = true)
    (agree : AgreeBut key members others) (absent : members.lookup key = none)
    (null : others.lookup key = some .null)
    (lenient : ∀ field ∈ schema.fields, field.wire = key →
      field.optional = true ∧ field.nullable = true) :
    (binder.bindEager schema (.object members)).FailAlike
      (binder.bindEager schema (.object others)) := by
  have each : ∀ field ∈ schema.fields,
      (bindFieldWith binder.coerce schema (.object members) .eager field).FailAlike
        (bindFieldWith binder.coerce schema (.object others) .eager field) := by
    intro field declared
    by_cases own : field.wire = key
    · obtain ⟨optional, nullable⟩ := lenient field declared own
      rw [bindFieldWith_absent (own ▸ absent) optional, bindFieldWith_null (own ▸ null),
        if_pos nullable]
      exact fun error => by simp
    · rw [bindFieldWith_of_agree agree own]
      exact fun error => Iff.rfl
  intro error
  unfold bindEager
  rw [result_bindEager_open opened, result_bindEager_open opened, Outcome.map_eq_error,
    Outcome.map_eq_error]
  exact Outcome.FailAlike.mapM each error

/-- An open record is refused for a field that is null and may only be absent, unless a field
before it is refused already. -/
theorem bindEager_null (binder : Binder) (opened : schema.allowsOthers = true)
    {before after : List Field} {payload : Field} {xs : List FieldValue}
    (fields : schema.fields = before ++ payload :: after)
    (agree : AgreeBut payload.wire members others)
    (absent : members.lookup payload.wire = none) (null : others.lookup payload.wire = some .null)
    (optional : payload.optional = true) (solid : payload.nullable = false)
    (elsewhere : ∀ field ∈ before, field.wire ≠ payload.wire)
    (rest : (after.mapM (bindFieldWith binder.coerce schema (.object members) .eager)).result
      = .ok xs) :
    (binder.bindEager schema (.object others)).result
      = .error (match (binder.bindEager schema (.object members)).result with
        | .error fault => fault
        | .ok _ => .mk schema.id payload.name (.kind payload.kind) .unexpectedNull) := by
  have same : before.mapM (bindFieldWith binder.coerce schema (.object others) .eager)
      = before.mapM (bindFieldWith binder.coerce schema (.object members) .eager) :=
    mapM_congr_left fun field declared => bindFieldWith_of_agree agree (elsewhere field declared)
  unfold bindEager
  rw [result_bindEager_open opened, result_bindEager_open opened, fields, List.mapM_append,
    List.mapM_append, List.mapM_cons, List.mapM_cons, same, bindFieldWith_null null, solid,
    bindFieldWith_absent absent optional]
  cases first : (before.mapM
      (bindFieldWith binder.coerce schema (.object members) .eager)).result with
  | error fault =>
    rw [Outcome.result_bind_of_error first, Outcome.result_bind_of_error first]
    rfl
  | ok values =>
    rw [Outcome.result_bind_of_ok first, Outcome.result_bind_of_ok first]
    simp [rest, Except.map]

end Binder

namespace Dialect

variable {dialect : Dialect} {binder : Binder} {raw : Json} {members others : List (String × Json)}
  {key : String}

/-! ## What a frame is narrowed to -/

def chosen (dialect : Dialect) (binder : Binder) (members : List (String × Json)) :
    Except ResolutionError Schema :=
  (binder.discriminate dialect.envelopeSchema
    ⟨.discriminated, [dialect.responseCandidate, dialect.eventCandidate]⟩ members).result

theorem result_classify (known : dialect.Known binder) :
    (dialect.classify binder (.object members)).result
      = (((dialect.chosen binder members).bind fun schema =>
          ((binder.bindEager schema (.object members)).result.mapError .binding).map fun view =>
            ⟨dialect.envelope, schema.id, view⟩).mapError FrameError.unrecognized).bind
        fun variant : Variant =>
          if variant.type = dialect.responseType then
            (dialect.readResponse binder variant.view).result.map .response
          else
            (dialect.readEvent binder variant.view).result.map .event := by
  have described : (Outcome.ofOption (FrameError.missingEnvelope dialect.envelope)
      (binder.describe? dialect.envelope)).result = .ok dialect.envelopeSchema :=
    Outcome.result_ofOption_eq_ok.2 known.envelope
  have object : (Json.object members).asMembers? = some members := rfl
  unfold classify
  rw [Outcome.result_bind_of_ok described, Outcome.result_bind, Outcome.result_mapError,
    Binder.result_resolve_discriminated binder rfl object]
  congr
  funext variant
  simp only [Variant.isOf, beq_iff_eq]
  split
  · cases dialect <;> exact Outcome.result_map _ _
  · rw [← Outcome.result_map, readEvent]
    simp only [map_bind, map_pure]
    cases dialect <;> rfl

theorem classify_of_unchosen (known : dialect.Known binder) {error : ResolutionError}
    (unchosen : dialect.chosen binder members = .error error) :
    (dialect.classify binder (.object members)).result = .error (.unrecognized error) := by
  rw [result_classify known, unchosen]
  rfl

/-- Once a frame is chosen to be a response, its schema decides whether it is accepted, and its
members what it says. -/
theorem classify_of_response (extending : binder.registry.Extends)
    (response : dialect.chosen binder members = .ok dialect.responseSchema) :
    (dialect.classify binder (.object members)).result
      = match (binder.bindEager dialect.responseSchema (.object members)).result with
        | .error fault => .error (.unrecognized (.binding fault))
        | .ok _ => (checkId (((Json.object members).integral? dialect.idKey).getD 0)).result.map
            fun id => .response (dialect.responseFrame (.object members) id) := by
  have type : dialect.responseSchema.id = dialect.responseType := by cases dialect <;> rfl
  rw [result_classify (known_of_extends extending), response]
  cases bound : (binder.bindEager dialect.responseSchema (.object members)).result with
  | error fault => simp [Except.bind, Except.map, Except.mapError, bound]
  | ok view =>
    simp only [Except.bind, Except.map, Except.mapError, bound, if_pos type,
      readResponse_of_bound extending bound]
    cases (checkId (((Json.object members).integral? dialect.idKey).getD 0)).result <;> rfl

theorem classify_of_event (extending : binder.registry.Extends)
    (event : dialect.chosen binder members = .ok dialect.eventSchema) :
    (dialect.classify binder (.object members)).result
      = match (binder.bindEager dialect.eventSchema (.object members)).result with
        | .error fault => .error (.unrecognized (.binding fault))
        | .ok _ => .ok (.event ⟨(Json.object members).text dialect.nameKey,
            ((Json.object members).get? dialect.paramsKey).getD .null⟩) := by
  have type : dialect.eventSchema.id ≠ dialect.responseType := by cases dialect <;> decide
  rw [result_classify (known_of_extends extending), event]
  cases bound : (binder.bindEager dialect.eventSchema (.object members)).result with
  | error fault => simp [Except.bind, Except.map, Except.mapError, bound]
  | ok view =>
    simp only [Except.bind, Except.map, Except.mapError, bound, if_neg type,
      readEvent_of_bound bound]

theorem of_chosen (known : dialect.Known binder) {schema : Schema}
    (found : dialect.chosen binder members = .ok schema) :
    (schema = dialect.responseSchema ∧ dialect.responseCandidate.Matches members) ∨
      (schema = dialect.eventSchema ∧ dialect.eventCandidate.Matches members) := by
  obtain ⟨candidate, listed, described, passes⟩ := Binder.candidate_of_discriminate found
  have holds := Candidate.firstFailure?_eq_none.1 passes
  rcases List.mem_cons.1 listed with rfl | other
  · exact .inl ⟨Option.some.inj (described.symm.trans known.response), holds⟩
  · obtain rfl := List.mem_singleton.1 other
    exact .inr ⟨Option.some.inj (described.symm.trans known.event), holds⟩

def payloadKeys : Dialect → List String
  | .v8 => ["body"]
  | .wip => ["result", "params"]

theorem chosen_of_agree (known : dialect.Known binder) (agree : AgreeBut key members others)
    (payload : key ∈ dialect.payloadKeys) :
    dialect.chosen binder others = dialect.chosen binder members := by
  have elsewhere : ∀ key ∈ dialect.payloadKeys,
      (∀ condition ∈ dialect.responseCandidate.conditions, condition.field ≠ key) ∧
      ∀ condition ∈ dialect.eventCandidate.conditions, condition.field ≠ key := by
    cases dialect <;> decide
  have optional : ∀ key ∈ dialect.payloadKeys,
      (∀ field ∈ dialect.responseSchema.fields, field.wire = key → field.optional = true) ∧
      ∀ field ∈ dialect.eventSchema.fields, field.wire = key → field.optional = true := by
    cases dialect <;> decide
  refine Binder.discriminate_of_agree ?_ _ agree ?_ ?_
  · simp [Binder.Knows, known.response, known.event]
  · simpa using elsewhere key payload
  · simpa [known.response, known.event] using optional key payload

/-! ## The native protocol -/

theorem get?_of_agree (agree : AgreeBut key members others) {other : String}
    (differs : other ≠ key) :
    (Json.object others).get? other = (Json.object members).get? other :=
  agree other differs

theorem responseFrame_of_agree (agree : AgreeBut "body" members others)
    (absent : members.lookup "body" = none) (null : others.lookup "body" = some .null)
    (id : UInt64) :
    responseFrame (.object others) id .v8 = responseFrame (.object members) id .v8 := by
  have read : (Json.object others).get? "body" = some .null := null
  have unread : (Json.object members).get? "body" = none := absent
  simp [responseFrame, Json.v8Outcome, Json.v8Refs, Json.flag, Json.flag?, Json.text?, Json.items,
    get?_of_agree agree, read, unread]

theorem classify_null_body (extending : binder.registry.Extends)
    (agree : AgreeBut "body" members others) (absent : members.lookup "body" = none)
    (null : others.lookup "body" = some .null) :
    (classify .v8 binder (.object others)).result
      = (classify .v8 binder (.object members)).result := by
  have known : Dialect.v8.Known binder := known_of_extends extending
  have same := chosen_of_agree known agree (by decide)
  cases found : chosen .v8 binder members with
  | error error =>
    rw [classify_of_unchosen known found, classify_of_unchosen known (same.trans found)]
  | ok schema =>
    rcases of_chosen known found with ⟨rfl, -⟩ | ⟨rfl, -⟩
    · have opened : (responseSchema .v8).allowsOthers = true := rfl
      have alike := binder.bindEager_failAlike opened agree absent null (by decide)
      have numbered : (Json.object others).integral? (idKey .v8)
          = (Json.object members).integral? (idKey .v8) := by
        rw [Json.integral?, Json.integral?, get?_of_agree agree (by decide)]
      rw [classify_of_response extending found, classify_of_response extending (same.trans found),
        numbered]
      cases bound : (binder.bindEager (responseSchema .v8) (.object members)).result with
      | error fault => rw [(alike fault).2 bound]
      | ok view =>
        obtain ⟨other, rebound⟩ := alike.succeed bound
        simp only [rebound, responseFrame_of_agree agree absent null]
    · have opened : (eventSchema .v8).allowsOthers = true := rfl
      have alike := binder.bindEager_failAlike opened agree absent null (by decide)
      have named : (Json.object others).text (nameKey .v8)
          = (Json.object members).text (nameKey .v8) := by
        rw [Json.text, Json.text, Json.text?, Json.text?, get?_of_agree agree (by decide)]
      have read : (Json.object others).get? (paramsKey .v8) = some .null := null
      have unread : (Json.object members).get? (paramsKey .v8) = none := absent
      rw [classify_of_event extending found, classify_of_event extending (same.trans found), named,
        read, unread]
      cases bound : (binder.bindEager (eventSchema .v8) (.object members)).result with
      | error fault => rw [(alike fault).2 bound]
      | ok view =>
        obtain ⟨other, rebound⟩ := alike.succeed bound
        rw [rebound]
        rfl

/-! ## The inspector protocol -/

theorem checkId_cases (n : Int) :
    (∃ id, (checkId n).result = .ok id) ∨ (checkId n).result = .error (.invalidId n) := by
  unfold checkId
  split
  · exact .inl ⟨_, rfl⟩
  · exact .inr rfl

inductive InspectorPayload (members : List (String × Json)) : String → String → Prop where
  | response {id : Json} (numbered : members.lookup "id" = some id)
      (fine : members.lookup "error" = none) : InspectorPayload members "result" "WipResponse"
  | event (unnumbered : members.lookup "id" = none) : InspectorPayload members "params" "WipEvent"

/-- A frame of the inspector with a payload that is null is refused for it, unless it is refused
for something else already. -/
theorem classify_null_payload (extending : binder.registry.Extends) {type : String}
    (payload : InspectorPayload members key type) (agree : AgreeBut key members others)
    (absent : members.lookup key = none) (null : others.lookup key = some .null) :
    (classify .wip binder (.object others)).result = .error (.unrecognized
      (match (classify .wip binder (.object members)).result with
        | .error (.unrecognized error) => error
        | _ => .binding (.mk type key (.kind .any) .unexpectedNull))) := by
  have known : Dialect.wip.Known binder := known_of_extends extending
  have same : chosen .wip binder others = chosen .wip binder members := by
    cases payload <;> exact chosen_of_agree known agree (by decide)
  cases found : chosen .wip binder members with
  | error error =>
    rw [classify_of_unchosen known found, classify_of_unchosen known (same.trans found)]
  | ok schema =>
    cases payload with
    | response numbered fine =>
      obtain rfl : schema = responseSchema .wip := by
        rcases of_chosen known found with ⟨rfl, -⟩ | ⟨rfl, event⟩
        · rfl
        · have unnumbered : members.lookup "id" = none := event _ List.mem_cons_self
          cases numbered.symm.trans unnumbered
      let error := Catalog.optional "error" (.record "WipError")
      have fields : (responseSchema .wip).fields
          = [Catalog.required "id" .long] ++ Catalog.optional "result" .any :: [error] := rfl
      have unset : ([error].mapM (Binder.bindFieldWith binder.coerce (responseSchema .wip)
          (.object members) .eager)).result = .ok [.unset] := by
        rw [List.mapM_cons, Binder.bindFieldWith_absent fine rfl]
        rfl
      have refused := binder.bindEager_null rfl fields agree absent null rfl rfl (by decide) unset
      rw [classify_of_response extending found, classify_of_response extending (same.trans found),
        refused]
      cases bound : (binder.bindEager (responseSchema .wip) (.object members)).result with
      | error fault => rfl
      | ok view =>
        obtain ⟨id, checked⟩ | checked :=
          checkId_cases (((Json.object members).integral? (idKey .wip)).getD 0) <;>
        · simp only [checked]
          rfl
    | event unnumbered =>
      obtain rfl : schema = eventSchema .wip := by
        rcases of_chosen known found with ⟨rfl, response⟩ | ⟨rfl, -⟩
        · obtain ⟨value, present⟩ : ∃ value, members.lookup "id" = some value :=
            response _ List.mem_cons_self
          cases unnumbered.symm.trans present
        · rfl
      have fields : (eventSchema .wip).fields
          = [Catalog.required "method" .string] ++ Catalog.optional "params" .any :: [] := rfl
      have refused := binder.bindEager_null rfl fields agree absent null rfl rfl (by decide) rfl
      rw [classify_of_event extending found, classify_of_event extending (same.trans found),
        refused]
      cases bound : (binder.bindEager (eventSchema .wip) (.object members)).result with
      | error fault => rfl
      | ok view => rfl

/-- With a registry that extends the catalog, a native frame with a null body is read as the one
without a body. A frame of the inspector with a null payload is never accepted: it is refused as the
one without the payload is, or else for the null. -/
theorem null_payload_accepted_only_natively {extra : List Schema} {registry : Registry}
    (built : (Catalog.draft.registerAll extra).1.build = .ok registry)
    (ambiguity : AmbiguityPolicy) (members : List (String × Json)) :
    (members.lookup "body" = none →
      (classify .v8 ⟨registry, ambiguity⟩ (.object (Json.insert "body" .null members))).result
        = (classify .v8 ⟨registry, ambiguity⟩ (.object members)).result) ∧
    ∀ key type, InspectorPayload members key type → members.lookup key = none →
      (classify .wip ⟨registry, ambiguity⟩ (.object (Json.insert key .null members))).result
        = .error (.unrecognized
          (match (classify .wip ⟨registry, ambiguity⟩ (.object members)).result with
            | .error (.unrecognized error) => error
            | _ => .binding (.mk type key (.kind .any) .unexpectedNull))) := by
  have extending := Registry.extends_of_build built
  refine ⟨fun absent => ?_, fun key type payload absent => ?_⟩
  · exact classify_null_body extending (agreeBut_insert "body" .null members) absent
      Json.lookup_insert_self
  · exact classify_null_payload extending payload (agreeBut_insert key .null members) absent
      Json.lookup_insert_self

def resumed : List (String × Json) :=
  [("method", .string "Debugger.resumed")]

theorem null_payload_accepted_only_natively_resumed :
    (Catalog.draft.registerAll []).1.build = .ok Catalog.registry ∧
    InspectorPayload resumed "params" "WipEvent" ∧ resumed.lookup "params" = none ∧
    (classify .wip ⟨Catalog.registry, .reject⟩
        (.object (Json.insert "params" .null resumed))).result
      = .error (.unrecognized
        (.binding (.mk "WipEvent" "params" (.kind .any) .unexpectedNull))) := by
  have built : (Catalog.draft.registerAll []).1.build = .ok Catalog.registry := by rfl
  have payload : InspectorPayload resumed "params" "WipEvent" := .event rfl
  exact ⟨built, payload, rfl,
    (null_payload_accepted_only_natively built .reject resumed).2 _ _ payload rfl⟩

/-- Without parameters the event is read, and it resumes; with parameters that are null it is
refused. -/
theorem resumed_refused_with_null :
    (classify .wip ⟨Catalog.registry, .reject⟩ (.object resumed)).result
      = .ok (.event ⟨"Debugger.resumed", .null⟩) ∧
    eventLifecycle? .wip "Debugger.resumed" = some .resume ∧
    ∃ error, (classify .wip ⟨Catalog.registry, .reject⟩
      (.object (Json.insert "params" .null resumed))).result = .error error :=
  ⟨rfl, rfl, _, rfl⟩

end Dialect

end DebugLink
