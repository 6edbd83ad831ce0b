import DebugLink.Proofs.Binding.Budget
import DebugLink.Proofs.Binding.Traced

/-!
# Binding with a record of its calls

Binding a field coerces a part of the value, a coercion may resolve, a resolution may bind a value
as several candidates, and each of them binds its fields. Here the binder is evaluated with a
record of these calls and a budget for how deep they are nested. The outcome is that of the binder,
and a budget above four times the nesting of the value is never used up, whatever the schemas are.
-/

set_option autoImplicit false

namespace DebugLink.Binder

variable {binder : Binder} {call : Call}

/-! ## Evaluation with a record of the calls -/

/-- A way to answer every call. -/
abbrev Answers := (call : Call) → Traced call.Error call.Result

def tracedField (ask : Answers) (schema : Schema) (raw : Json) (mode : Mode) (field : Field) :
    Traced BindingError FieldValue :=
  let fail := BindingError.mk schema.id field.name (.kind field.kind)
  match raw.asMembers? with
  | none => .lift (throw (fail (.notAnObject raw.shape)))
  | some members =>
    match members.lookup field.wire with
    | none => .lift (if field.optional then pure .unset else throw (fail .missing))
    | some .null => .lift (if field.nullable then pure .null else throw (fail .unexpectedNull))
    | some value => (ask (.coerce value field.kind (field.mode.getD mode))).mapError fail

def tracedEager (ask : Answers) (schema : Schema) (raw : Json) : Traced BindingError View :=
  match raw.asMembers? with
  | none =>
    .lift (throw (.mk schema.id BindingError.root (.kind (.record schema.id))
      (.notAnObject raw.shape)))
  | some members => do
    let values ← schema.fields.mapM fun field => ask (.bindField schema raw .eager field)
    .lift <| match schema.undeclared? members with
      | some key => throw (.mk schema.id key .closedRecord .undeclaredProperty)
      | none => pure (.mk schema raw .eager (values.map fun value => some (.ok value)))

def tracedTrial (binder : Binder) (ask : Answers) (base : Schema) (raw : Json)
    (candidate : Candidate) : Traced ResolutionError (Schema × Except BindingError View) := do
  let schema ← .lift (binder.candidateSchema base candidate)
  let trial ← (ask (.bindEager schema raw)).attempt
  pure (schema, trial)

def tracedStructural (binder : Binder) (ask : Answers) (base : Schema) (subtypes : Subtypes)
    (raw : Json) : Traced ResolutionError View := do
  let trials ← subtypes.candidates.mapM (binder.tracedTrial ask base raw)
  let bound := trials.filterMap fun (_, trial) => trial.toOption
  .lift <| match bound with
    | [] =>
      throw (.noMatch base.id (trials.filterMap fun (schema, trial) =>
        match trial with
        | .ok _ => none
        | .error error => some (.unbound schema.id error.field error.problem)))
    | [view] => pure view
    | view :: _ =>
      match binder.ambiguity with
      | .reject => throw (.ambiguous base.id (bound.map View.type))
      | .firstMatch => do
        Outcome.warn ⟨base.id, view.type, bound.length⟩
        pure view

def tracedResolve (binder : Binder) (ask : Answers) (base : Schema) (raw : Json) (mode : Mode) :
    Traced ResolutionError Variant :=
  match base.subtypes, raw.asMembers? with
  | none, _ => .lift (throw (.notPolymorphic base.id))
  | some _, none =>
    .lift (throw (.binding (.mk base.id BindingError.root (.kind (.record base.id))
      (.notAnObject raw.shape))))
  | some subtypes, some members =>
    match subtypes.rule with
    | .discriminated => do
      let chosen ← .lift (binder.discriminate base subtypes members)
      match mode with
      | .eager =>
        let view ← (ask (.bindEager chosen raw)).mapError .binding
        pure ⟨base.id, chosen.id, view⟩
      | .lazy => pure ⟨base.id, chosen.id, .blank chosen raw .lazy⟩
    | .structural => do
      let view ← binder.tracedStructural ask base subtypes raw
      match mode with
      | .eager => pure ⟨base.id, view.type, view⟩
      | .lazy => pure ⟨base.id, view.type, .blank view.schema raw .lazy⟩

def tracedCoerce (binder : Binder) (ask : Answers) (value : Json) (kind : Kind) (mode : Mode) :
    Traced BindingProblem FieldValue :=
  match kind with
  | .record type => do
    let schema ← .lift (.ofOption .unknownType (binder.describe? type))
    match mode with
    | .eager => (FieldValue.record <$> ask (.bindEager schema value)).mapError .nested
    | .lazy => .lift <| match value.asMembers? with
      | some _ => pure (.record (.blank schema value .lazy))
      | none => throw (.mistyped value.shape)
  | .subtype base => do
    let schema ← .lift (.ofOption .unknownType (binder.describe? base))
    let variant ← (ask (.resolve schema value mode)).mapError .resolution
    pure (.variant variant.base variant.type variant.view)
  | .list element => do
    let items ← .lift (.ofOption (.mistyped value.shape) value.asItems?)
    .list <$> items.zipIdx.mapM fun (item, index) =>
      (ask (.coerce item element mode)).mapError (.element index)
  -- No part is read of any other kind of value, so the least budget reads it.
  | kind => .lift (binder.coerceWithin 1 value kind mode)

/-- The answer to a call, given a way to answer the calls made inside it. -/
def traced (binder : Binder) (ask : Answers) : Answers
  | .coerce value kind mode => binder.tracedCoerce ask value kind mode
  | .resolve base value mode => binder.tracedResolve ask base value mode
  | .bindEager schema value => tracedEager ask schema value
  | .bindField schema value mode field => tracedField ask schema value mode field

/-- Evaluates a call with a budget for how deep calls are nested, and records the calls inside it.
The calls that the budget does not reach are answered by `rest`. -/
def traceWithin (binder : Binder) (rest : Answers) : Nat → Answers
  | 0 => rest
  | budget + 1 => binder.traced fun inner => (binder.traceWithin rest budget inner).noted inner

/-! ## The record does not change what comes of a call -/

def answer (binder : Binder) : (call : Call) → Outcome call.Error call.Result
  | .coerce value kind mode => binder.coerce value kind mode
  | .resolve base value mode => binder.resolve base value mode
  | .bindEager schema value => binder.bindEager schema value
  | .bindField schema value mode field => binder.bindField schema value mode field

def answerWithin (binder : Binder) (budget : Nat) :
    (call : Call) → Outcome call.Error call.Result
  | .coerce value kind mode => binder.coerceWithin budget value kind mode
  | .resolve base value mode => binder.resolveWith (binder.coerceWithin budget) base value mode
  | .bindEager schema value => bindEagerWith (binder.coerceWithin budget) schema value
  | .bindField schema value mode field =>
    bindFieldWith (binder.coerceWithin budget) schema value mode field

theorem answerWithin_of_lt {budget : Nat} (enough : call.value.depth < budget) :
    binder.answerWithin budget call = binder.answer call := by
  have agree : ∀ kind, AgreeBelow call.value.depth (binder.coerceWithin budget) binder.coerce kind :=
    fun kind part mode smaller =>
      coerceWithin_eq_of_lt (Nat.lt_trans smaller enough) (Nat.lt_succ_self _) kind mode
  cases call with
  | coerce value kind mode => exact coerceWithin_eq_of_lt enough (Nat.lt_succ_self _) kind mode
  | resolve base value mode => exact resolveWith_congr agree base mode
  | bindEager schema value => exact bindEagerWith_congr fun field _ => agree field.kind
  | bindField schema value mode field => exact bindFieldWith_congr (agree field.kind) schema mode

section Outcome

variable {ask : Answers} (faithful : ∀ inner, (ask inner).outcome = binder.answer inner)

include faithful

theorem outcome_tracedField (schema : Schema) (raw : Json) (mode : Mode) (field : Field) :
    (tracedField ask schema raw mode field).outcome = binder.bindField schema raw mode field := by
  unfold tracedField bindField bindFieldWith
  cases raw.asMembers? with
  | none => rfl
  | some members =>
    cases found : members.lookup field.wire with
    | none => simp only [found, Traced.outcome_lift]
    | some part =>
      have same := faithful (.coerce part field.kind (field.mode.getD mode))
      cases part with
      | null => simp only [found, Traced.outcome_lift]
      | _ => simp only [found, Traced.outcome_mapError, same, answer]

theorem outcome_tracedEager (schema : Schema) (raw : Json) :
    (tracedEager ask schema raw).outcome = binder.bindEager schema raw := by
  have bound : ∀ field, (ask (.bindField schema raw .eager field)).outcome
      = bindFieldWith binder.coerce schema raw .eager field := fun field => faithful _
  unfold tracedEager bindEager bindEagerWith
  cases raw.asMembers? with
  | none => rfl
  | some members =>
    have values := Traced.outcome_mapM
      (fun field => ask (.bindField schema raw .eager field)) schema.fields
    simp only [bound] at values
    exact congrArg (· >>= _) values

theorem outcome_tracedTrial (base : Schema) (raw : Json) (candidate : Candidate) :
    (binder.tracedTrial ask base raw candidate).outcome = (do
      let schema ← binder.candidateSchema base candidate
      let trial ← (bindEagerWith binder.coerce schema raw).attempt
      pure (schema, trial)) := by
  have tried : ∀ schema, (ask (.bindEager schema raw)).outcome
      = bindEagerWith binder.coerce schema raw := fun schema => faithful (.bindEager schema raw)
  simp only [tracedTrial, Traced.outcome_bind, Traced.outcome_lift, Traced.outcome_attempt,
    Traced.outcome_pure, tried]

theorem outcome_tracedStructural (base : Schema) (subtypes : Subtypes) (raw : Json) :
    (binder.tracedStructural ask base subtypes raw).outcome
      = binder.bindStructural binder.coerce base subtypes raw := by
  have trials := Traced.outcome_mapM (binder.tracedTrial ask base raw) subtypes.candidates
  simp only [outcome_tracedTrial faithful] at trials
  unfold tracedStructural bindStructural
  rw [Traced.outcome_bind]
  exact congrArg (· >>= _) trials

theorem outcome_tracedResolve (base : Schema) (raw : Json) (mode : Mode) :
    (binder.tracedResolve ask base raw mode).outcome = binder.resolve base raw mode := by
  have chosen : ∀ schema, (ask (.bindEager schema raw)).outcome
      = bindEagerWith binder.coerce schema raw := fun schema => faithful (.bindEager schema raw)
  have structural := outcome_tracedStructural faithful base
  unfold tracedResolve resolve resolveWith
  cases base.subtypes with
  | none => rfl
  | some subtypes =>
    cases raw.asMembers? with
    | none => rfl
    | some members =>
      cases rule : subtypes.rule with
      | discriminated =>
        cases mode with
        | eager =>
          simp only [rule, Traced.outcome_bind, Traced.outcome_lift, Traced.outcome_mapError,
            chosen, Traced.outcome_pure, bindWith]
        | lazy =>
          simp only [rule, Traced.outcome_bind, Traced.outcome_lift, Traced.outcome_pure, bindWith]
          rfl
      | structural =>
        cases mode with
        | eager => simp only [rule, Traced.outcome_bind, structural, Traced.outcome_pure]
        | lazy => simp only [rule, Traced.outcome_bind, structural, Traced.outcome_pure]

theorem outcome_tracedCoerce (value : Json) (kind : Kind) (mode : Mode) :
    (binder.tracedCoerce ask value kind mode).outcome = binder.coerce value kind mode := by
  rw [coerce_eq_coerceWith]
  cases kind with
  | record type =>
    have bound : ∀ schema, (ask (.bindEager schema value)).outcome
        = bindEagerWith binder.coerce schema value := fun schema => faithful _
    cases mode with
    | eager =>
      simp only [tracedCoerce, coerceWith, Traced.outcome_bind, Traced.outcome_lift,
        Traced.outcome_mapError, Traced.outcome_map, bound]
    | lazy =>
      simp only [tracedCoerce, coerceWith]
      cases value.asMembers? with
      | none => rfl
      | some members => rfl
  | subtype base =>
    have resolved : ∀ schema, (ask (.resolve schema value mode)).outcome
        = binder.resolveWith binder.coerce schema value mode := fun schema => faithful _
    simp only [tracedCoerce, coerceWith, Traced.outcome_bind, Traced.outcome_lift,
      Traced.outcome_mapError, Traced.outcome_pure, resolved]
  | list element =>
    have read : ∀ item, (ask (.coerce item element mode)).outcome
        = binder.coerce item element mode := fun item => faithful _
    simp only [tracedCoerce, coerceWith, Traced.outcome_bind, Traced.outcome_lift,
      Traced.outcome_map, Traced.outcome_mapM, Traced.outcome_mapError, read]
  | _ => rfl

theorem outcome_traced (call : Call) : (binder.traced ask call).outcome = binder.answer call := by
  cases call with
  | coerce value kind mode => exact outcome_tracedCoerce faithful value kind mode
  | resolve base value mode => exact outcome_tracedResolve faithful base value mode
  | bindEager schema value => exact outcome_tracedEager faithful schema value
  | bindField schema value mode field => exact outcome_tracedField faithful schema value mode field

theorem outcome_traceWithin (budget : Nat) (call : Call) :
    (binder.traceWithin ask budget call).outcome = binder.answer call := by
  induction budget generalizing call with
  | zero => exact faithful call
  | succ budget ih =>
    rw [traceWithin]
    refine outcome_traced ?_ call
    exact fun inner => ih inner

end Outcome

/-! ## A budget that is large enough is never used up -/

/-- What goes down from a call to the calls inside it: how deep the value is nested, and while the
value stays the same, how far the call is from reading a part of it. -/
def Call.measure : Call → Nat
  | .coerce value _ _ => 4 * value.depth + 3
  | .resolve _ value _ => 4 * value.depth + 2
  | .bindEager _ value => 4 * value.depth + 1
  | .bindField _ value _ _ => 4 * value.depth

theorem Call.measure_lt (call : Call) : call.measure < 4 * (call.value.depth + 1) := by
  cases call with
  | coerce | resolve | bindEager | bindField =>
    simp only [measure, value]
    omega

theorem measure_coerce_lt {part whole : Json} (smaller : part.depth < whole.depth) (kind : Kind)
    (mode : Mode) : (Call.coerce part kind mode).measure < 4 * whole.depth := by
  simp only [Call.measure]
  omega

def ReadAlikeBelow (depth : Nat) (first second : Answers) : Prop :=
  ∀ part kind mode, part.depth < depth → first (.coerce part kind mode)
    = second (.coerce part kind mode)

section Congruence

variable {first second : Answers} {value raw : Json}

theorem tracedField_congr (parts : ReadAlikeBelow raw.depth first second) (schema : Schema)
    (mode : Mode) (field : Field) :
    tracedField first schema raw mode field = tracedField second schema raw mode field := by
  unfold tracedField
  cases object : raw.asMembers? with
  | none => rfl
  | some members =>
    cases found : members.lookup field.wire with
    | none => simp only [found]
    | some part =>
      have same := parts part field.kind (field.mode.getD mode)
        (Json.depth_lt_of_lookup object found)
      cases part with
      | null => simp only [found]
      | _ => simp only [found, same]

theorem tracedCoerce_list_congr (binder : Binder)
    (parts : ReadAlikeBelow value.depth first second) (element : Kind) (mode : Mode) :
    binder.tracedCoerce first value (.list element) mode
      = binder.tracedCoerce second value (.list element) mode := by
  cases array : value.asItems? with
  | none =>
    simp only [tracedCoerce, array]
    rfl
  | some items =>
    have read : items.zipIdx.mapM (fun item =>
          (first (.coerce item.1 element mode)).mapError (BindingProblem.element item.2))
        = items.zipIdx.mapM fun item =>
          (second (.coerce item.1 element mode)).mapError (BindingProblem.element item.2) := by
      apply mapM_congr_left
      rintro ⟨item, index⟩ mem
      have listed : item ∈ items := List.fst_mem_of_mem_zipIdx mem
      rw [parts item element mode (Json.depth_lt_of_item array listed)]
    simp only [tracedCoerce, array, Outcome.ofOption, Traced.lift_pure, pure_bind, read]

theorem traced_congr (agree : ∀ inner, inner.measure < call.measure → first inner = second inner) :
    binder.traced first call = binder.traced second call := by
  cases call with
  | bindField schema raw mode field =>
    refine tracedField_congr (fun part kind mode smaller => ?_) schema mode field
    exact agree _ (measure_coerce_lt smaller kind mode)
  | bindEager schema raw =>
    have fields : ∀ field, first (.bindField schema raw .eager field)
        = second (.bindField schema raw .eager field) := fun field => agree _ (Nat.lt_succ_self _)
    simp only [traced, tracedEager, fields]
  | resolve base raw mode =>
    have candidates : ∀ schema, first (.bindEager schema raw) = second (.bindEager schema raw) :=
      fun schema => agree _ (Nat.lt_succ_self _)
    have trials : binder.tracedTrial first base raw = binder.tracedTrial second base raw := by
      funext candidate
      simp only [tracedTrial, candidates]
    simp only [traced, tracedResolve, tracedStructural, trials, candidates]
  | coerce value kind mode =>
    cases kind with
    | record type =>
      have bound : ∀ schema, first (.bindEager schema value) = second (.bindEager schema value) :=
        fun schema => agree _ (Nat.lt_succ_of_lt (Nat.lt_succ_self _))
      simp only [traced, tracedCoerce, bound]
    | subtype base =>
      have resolved : ∀ schema, first (.resolve schema value mode)
          = second (.resolve schema value mode) := fun schema => agree _ (Nat.lt_succ_self _)
      simp only [traced, tracedCoerce, resolved]
    | list element =>
      refine tracedCoerce_list_congr binder (fun part kind mode smaller => ?_) element mode
      exact agree _ (Nat.lt_add_right 3 (measure_coerce_lt smaller kind mode))
    | _ => rfl

end Congruence

/-- With a budget above its measure a call is evaluated to the end, so neither the budget nor what
would answer the calls beyond it matters. -/
theorem traceWithin_eq_of_lt {rest rest' : Answers} {budget other : Nat}
    (enough : call.measure < budget) (enough' : call.measure < other) :
    binder.traceWithin rest budget call = binder.traceWithin rest' other call := by
  induction budget generalizing call other with
  | zero => omega
  | succ budget ih =>
    cases other with
    | zero => omega
    | succ other =>
      apply traced_congr
      intro inner smaller
      rw [ih (by omega : inner.measure < budget) (by omega : inner.measure < other)]

def callTree (binder : Binder) (call : Call) : CallTree :=
  .node call (binder.traceWithin (fun inner => .lift (binder.answer inner)) (call.measure + 1)
    call).calls

def recorded (binder : Binder) : Answers := fun call =>
  ⟨binder.answer call, [binder.callTree call]⟩

theorem traceWithin_of_lt {rest : Answers} {budget : Nat} (enough : call.measure < budget) :
    binder.traceWithin rest budget call = ⟨binder.answer call, (binder.callTree call).inner⟩ := by
  rw [traceWithin_eq_of_lt enough (Nat.lt_succ_self call.measure)]
  exact Traced.ext (outcome_traceWithin (fun _ => rfl) _ call) rfl

/-- The calls inside a call are those it makes when each is answered with its own record. -/
theorem inner_callTree (binder : Binder) (call : Call) :
    (binder.callTree call).inner = (binder.traced binder.recorded call).calls := by
  have same : binder.traceWithin (fun inner => .lift (binder.answer inner)) (call.measure + 1) call
      = binder.traced binder.recorded call := by
    rw [traceWithin]
    apply traced_congr
    intro inner smaller
    rw [traceWithin_of_lt smaller]
    rfl
  exact congrArg Traced.calls same

end DebugLink.Binder
