import DebugLink.Proofs.Binding.Obtained
import DebugLink.Proofs.Binding.References

/-!
# Errors of binding lie in the value

Binding may fail because a type is unknown, is not polymorphic or is not a candidate. A registry
that was built rules this out, on every path that binding takes through the registry: all that is
left are errors of the value.
-/

set_option autoImplicit false

namespace DebugLink

/-! ## Errors of the value -/

mutual

/-- Neither the problem nor one inside it is a fault of the registry. -/
def BindingProblem.LiesInValue : BindingProblem → Prop
  | .unknownType => False
  | .element _ problem => problem.LiesInValue
  | .nested error => error.LiesInValue
  | .resolution error => error.LiesInValue
  | .missing | .mistyped _ | .unexpectedNull | .unknownConstant _ | .notAnObject _
  | .undeclaredProperty | .notDeclared => True

def BindingError.LiesInValue : BindingError → Prop
  | .mk _ _ _ problem => problem.LiesInValue

def ResolutionError.LiesInValue : ResolutionError → Prop
  | .notPolymorphic _ | .notACandidate .. => False
  | .noMatch _ mismatches => mismatchesLieInValue mismatches
  | .ambiguous .. => True
  | .binding error => error.LiesInValue

def Mismatch.LiesInValue : Mismatch → Prop
  | .refused .. => True
  | .unbound _ _ problem => problem.LiesInValue

def mismatchesLieInValue : List Mismatch → Prop
  | [] => True
  | mismatch :: rest => mismatch.LiesInValue ∧ mismatchesLieInValue rest

end

theorem mismatchesLieInValue_iff {mismatches : List Mismatch} :
    mismatchesLieInValue mismatches ↔ ∀ mismatch ∈ mismatches, mismatch.LiesInValue := by
  induction mismatches with
  | nil => simp [mismatchesLieInValue]
  | cons mismatch rest ih => simp [mismatchesLieInValue, ih]

theorem BindingError.problem_liesInValue {error : BindingError} (lies : error.LiesInValue) :
    error.problem.LiesInValue := by
  cases error
  exact lies

/-! ## Outcomes that fail in one way only -/

namespace Outcome

variable {ε δ α β : Type}

def FailsWith (F : ε → Prop) (x : Outcome ε α) : Prop :=
  ∀ error, x.result = .error error → F error

variable {F : ε → Prop} {G : δ → Prop}

theorem FailsWith.pure (a : α) : (pure a : Outcome ε α).FailsWith F :=
  fun _ failed => nomatch failed

theorem FailsWith.throw {error : ε} (sort : F error) : (throw error : Outcome ε α).FailsWith F := by
  intro other failed
  cases failed
  exact sort

theorem FailsWith.bind {x : Outcome ε α} {f : α → Outcome ε β} (first : x.FailsWith F)
    (rest : ∀ a, x.result = .ok a → (f a).FailsWith F) : (x >>= f).FailsWith F := by
  intro error failed
  cases outcome : x.result with
  | error other =>
    rw [result_bind_of_error outcome] at failed
    cases failed
    exact first error outcome
  | ok a =>
    rw [result_bind_of_ok outcome] at failed
    exact rest a outcome error failed

theorem FailsWith.map {f : α → β} {x : Outcome ε α} (fails : x.FailsWith F) :
    (f <$> x).FailsWith F := by
  rw [← bind_pure_comp]
  exact fails.bind fun a _ => .pure (f a)

theorem FailsWith.mapError {f : ε → δ} {x : Outcome ε α} (fails : x.FailsWith F)
    (sort : ∀ error, F error → G (f error)) : (x.mapError f).FailsWith G := by
  intro error failed
  rw [result_mapError] at failed
  cases outcome : x.result with
  | ok a =>
    rw [outcome] at failed
    cases failed
  | error other =>
    rw [outcome] at failed
    cases failed
    exact sort other (fails other outcome)

theorem FailsWith.ofOption {error : ε} {x : Option α} (sort : x = none → F error) :
    (ofOption error x).FailsWith F := by
  cases x with
  | none => exact .throw (sort rfl)
  | some a => exact .pure a

theorem FailsWith.mapM {f : α → Outcome ε β} {as : List α}
    (each : ∀ a ∈ as, (f a).FailsWith F) : (as.mapM f).FailsWith F := by
  induction as with
  | nil => exact .pure []
  | cons a as ih =>
    rw [List.mapM_cons]
    refine (each a List.mem_cons_self).bind fun b _ => ?_
    refine (ih fun other mem => each other (List.mem_cons_of_mem a mem)).bind fun bs _ => ?_
    exact .pure (b :: bs)

theorem FailsWith.attempt (x : Outcome ε α) : (x.attempt : Outcome δ (Except ε α)).FailsWith G :=
  fun _ failed => nomatch failed

theorem FailsWith.warn (warning : Ambiguity) :
    (Outcome.warn warning : Outcome ε Unit).FailsWith F :=
  fun _ failed => nomatch failed

end Outcome

namespace Binder

variable {binder : Binder} {coerce : Coercion} {schema base : Schema} {raw value : Json}
  {kind : Kind} {mode : Mode}

/-! ## Fields and records -/

/-- Parts of a value fail only through what they are, when their kinds refer to known types. -/
def BlamesValueBelow (binder : Binder) (depth : Nat) (coerce : Coercion) : Prop :=
  ∀ part kind mode, part.depth < depth → binder.registry.Refers kind →
    (coerce part kind mode).FailsWith BindingProblem.LiesInValue

theorem bindFieldWith_blames {field : Field} (parts : binder.BlamesValueBelow raw.depth coerce)
    (refers : binder.registry.Refers field.kind) :
    (bindFieldWith coerce schema raw mode field).FailsWith BindingError.LiesInValue := by
  unfold bindFieldWith
  cases object : raw.asMembers? with
  | none => exact .throw trivial
  | some members =>
    cases found : members.lookup field.wire with
    | none =>
      simp only [found]
      split
      · exact .pure _
      · exact .throw trivial
    | some part =>
      have read := parts part field.kind (field.mode.getD mode)
        (Json.depth_lt_of_lookup object found) refers
      cases part with
      | null =>
        simp only [found]
        split
        · exact .pure _
        · exact .throw trivial
      | _ =>
        simp only [found]
        exact read.mapError fun problem lies => lies

theorem bindEagerWith_blames (sound : binder.registry.Sound)
    (registered : schema ∈ binder.registry.schemas)
    (parts : binder.BlamesValueBelow raw.depth coerce) :
    (bindEagerWith coerce schema raw).FailsWith BindingError.LiesInValue := by
  unfold bindEagerWith
  cases raw.asMembers? with
  | none => exact .throw trivial
  | some members =>
    refine .bind (.mapM fun field mem => ?_) fun values _ => ?_
    · exact bindFieldWith_blames parts (sound.fields schema registered field mem)
    · cases schema.undeclared? members with
      | some key => exact .throw trivial
      | none => exact .pure _

theorem bindWith_blames (sound : binder.registry.Sound)
    (registered : schema ∈ binder.registry.schemas)
    (parts : binder.BlamesValueBelow raw.depth coerce) :
    (bindWith coerce schema raw mode).FailsWith BindingError.LiesInValue := by
  cases mode with
  | eager => exact bindEagerWith_blames sound registered parts
  | lazy => exact .pure _

/-! ## Candidates -/

theorem candidateSchema_blames {subtypes : Subtypes} {candidate : Candidate}
    (sound : binder.registry.Sound) (registered : base ∈ binder.registry.schemas)
    (polymorphic : base.subtypes = some subtypes) (mem : candidate ∈ subtypes.candidates) :
    (binder.candidateSchema base candidate).FailsWith ResolutionError.LiesInValue := by
  obtain ⟨target, described⟩ := sound.candidates base registered subtypes polymorphic candidate mem
  apply Outcome.FailsWith.ofOption
  intro missing
  rw [describe?, described] at missing
  cases missing

theorem discriminate_blames {subtypes : Subtypes} {members : List (String × Json)}
    (sound : binder.registry.Sound) (registered : base ∈ binder.registry.schemas)
    (polymorphic : base.subtypes = some subtypes) :
    (binder.discriminate base subtypes members).FailsWith ResolutionError.LiesInValue := by
  refine .bind (.mapM fun candidate mem => ?_) fun tested _ => ?_
  · exact (candidateSchema_blames sound registered polymorphic mem).bind fun schema _ => .pure _
  · have refused : mismatchesLieInValue (tested.filterMap fun test =>
        test.2.map fun failed => Mismatch.refused test.1.id failed.1 failed.2) := by
      rw [mismatchesLieInValue_iff]
      intro mismatch mem
      obtain ⟨test, -, same⟩ := List.mem_filterMap.1 mem
      obtain ⟨failed, -, rfl⟩ := Option.map_eq_some_iff.1 same
      exact trivial
    dsimp only
    split
    · exact .throw refused
    · split
      · refine .throw (mismatchesLieInValue_iff.2 ?_)
        intro mismatch mem
        rcases List.mem_append.1 mem with old | last
        · exact mismatchesLieInValue_iff.1 refused mismatch old
        · rw [List.mem_singleton.1 last]
          exact trivial
      · exact .pure _
    · exact .throw trivial

theorem bindStructural_blames {subtypes : Subtypes} (sound : binder.registry.Sound)
    (registered : base ∈ binder.registry.schemas) (polymorphic : base.subtypes = some subtypes)
    (parts : binder.BlamesValueBelow raw.depth coerce) :
    (binder.bindStructural coerce base subtypes raw).FailsWith ResolutionError.LiesInValue := by
  refine .bind (.mapM fun candidate mem => ?_) fun trials tried => ?_
  · exact (candidateSchema_blames sound registered polymorphic mem).bind fun schema _ =>
      .bind (.attempt _) fun trial _ => .pure _
  · -- A candidate that was tried and did not bind gives its error to a mismatch.
    have unbound : ∀ schema error, (schema, .error error) ∈ trials → error.LiesInValue := by
      intro schema error mem
      obtain ⟨candidate, -, trial⟩ := exists_of_mem_right (Outcome.result_mapM_eq_ok.1 tried) mem
      obtain ⟨own, described, attempted⟩ := Outcome.result_bind_eq_ok.1 trial
      obtain ⟨outcome, attempt, last⟩ := Outcome.result_bind_eq_ok.1 attempted
      cases last
      rw [Outcome.result_attempt, Except.ok.injEq] at attempt
      have listed := mem_of_describe? (Outcome.result_ofOption_eq_ok.1 described)
      exact bindEagerWith_blames sound listed parts error attempt
    dsimp only
    split
    · refine .throw (mismatchesLieInValue_iff.2 ?_)
      intro mismatch mem
      obtain ⟨⟨schema, trial⟩, among, same⟩ := List.mem_filterMap.1 mem
      cases trial with
      | ok view => cases same
      | error error =>
        cases same
        exact BindingError.problem_liesInValue (unbound schema error among)
    · exact .pure _
    · split
      · exact .throw trivial
      · exact .bind (.warn _) fun _ _ => .pure _

theorem resolveWith_blames {subtypes : Subtypes} (sound : binder.registry.Sound)
    (registered : base ∈ binder.registry.schemas) (polymorphic : base.subtypes = some subtypes)
    (parts : binder.BlamesValueBelow raw.depth coerce) :
    (binder.resolveWith coerce base raw mode).FailsWith ResolutionError.LiesInValue := by
  unfold resolveWith
  rw [polymorphic]
  cases raw.asMembers? with
  | none => exact .throw trivial
  | some members =>
    dsimp only
    cases subtypes.rule with
    | discriminated =>
      refine (discriminate_blames sound registered polymorphic).bind fun chosen found => ?_
      obtain ⟨candidate, -, described, -⟩ := candidate_of_discriminate found
      have bound : (bindWith coerce chosen raw mode).FailsWith BindingError.LiesInValue :=
        bindWith_blames sound (mem_of_describe? described) parts
      exact .bind (bound.mapError fun error lies => lies) fun view _ => .pure _
    | structural =>
      refine (bindStructural_blames sound registered polymorphic parts).bind fun view _ => ?_
      cases mode <;> exact .pure _

/-! ## Values -/

theorem coerceWith_blames (sound : binder.registry.Sound)
    (parts : binder.BlamesValueBelow value.depth coerce) (refers : binder.registry.Refers kind) :
    (binder.coerceWith coerce value kind mode).FailsWith BindingProblem.LiesInValue := by
  cases kind with
  | boolean | long | double | string => exact .ofOption fun _ => trivial
  | any => exact .pure _
  | enumeration constants =>
    exact .bind (.ofOption fun _ => trivial) fun text _ => .ofOption fun _ => trivial
  | record type =>
    obtain ⟨target, described, -⟩ := refers ⟨type, false⟩ rfl
    refine .bind (.ofOption fun missing => ?_) fun schema found => ?_
    · rw [describe?, described] at missing
      cases missing
    · have listed := mem_of_describe? (Outcome.result_ofOption_eq_ok.1 found)
      cases mode with
      | eager =>
        exact (bindEagerWith_blames sound listed parts).map.mapError fun error lies => lies
      | lazy =>
        cases value.asMembers? with
        | none => exact .throw trivial
        | some members => exact .pure _
  | subtype base =>
    obtain ⟨target, described, polymorphic⟩ := refers ⟨base, true⟩ rfl
    refine .bind (.ofOption fun missing => ?_) fun schema found => ?_
    · rw [describe?, described] at missing
      cases missing
    · have found := Outcome.result_ofOption_eq_ok.1 found
      obtain rfl : target = schema := Option.some.inj (described.symm.trans found)
      obtain ⟨subtypes, declared⟩ := Option.isSome_iff_exists.1 (polymorphic rfl)
      have resolved : (binder.resolveWith coerce target value mode).FailsWith
          ResolutionError.LiesInValue :=
        resolveWith_blames sound (mem_of_describe? found) declared parts
      exact .bind (resolved.mapError fun error lies => lies) fun variant _ => .pure _
  | list element =>
    refine .bind (.ofOption fun _ => trivial) fun items array => .map (.mapM ?_)
    rintro ⟨item, index⟩ mem
    have listed : item ∈ items := List.fst_mem_of_mem_zipIdx mem
    have smaller := Json.depth_lt_of_item (Outcome.result_ofOption_eq_ok.1 array) listed
    exact (parts item element mode smaller refers).mapError fun problem lies => lies

theorem coerce_blames (sound : binder.registry.Sound) (depth : Nat) :
    binder.BlamesValueBelow depth binder.coerce := by
  intro part kind mode below refers
  clear below
  induction part using Json.induction_on_depth generalizing kind mode with
  | step part ih =>
    rw [coerce_eq_coerceWith]
    apply coerceWith_blames sound _ refers
    intro other kind mode smaller
    exact ih other smaller kind mode

theorem bindField_blames {field : Field} (sound : binder.registry.Sound)
    (registered : schema ∈ binder.registry.schemas) (declared : field ∈ schema.fields) :
    (binder.bindField schema raw mode field).FailsWith BindingError.LiesInValue :=
  bindFieldWith_blames (coerce_blames sound raw.depth)
    (sound.fields schema registered field declared)

theorem bind_blames (sound : binder.registry.Sound)
    (registered : schema ∈ binder.registry.schemas) :
    (binder.bind schema raw mode).FailsWith BindingError.LiesInValue :=
  bindWith_blames sound registered (coerce_blames sound raw.depth)

theorem resolve_blames {error : ResolutionError} (sound : binder.registry.Sound)
    (registered : base ∈ binder.registry.schemas)
    (failed : (binder.resolve base raw mode).result = .error error) :
    error.LiesInValue ∨ base.subtypes = none ∧ error = .notPolymorphic base.id := by
  cases polymorphic : base.subtypes with
  | none =>
    simp only [resolve, resolveWith, polymorphic, Outcome.result_throw,
      Except.error.injEq] at failed
    exact .inr ⟨rfl, failed.symm⟩
  | some subtypes =>
    exact .inl (resolveWith_blames sound registered polymorphic (coerce_blames sound raw.depth)
      error failed)

end Binder

/-! ## Views -/

/-- A view is one of a registered record, and its slots keep errors of the value only. -/
structure View.Blameless (registry : Registry) (view : View) : Prop where
  registered : view.schema ∈ registry.schemas
  errors : ∀ error, some (.error error) ∈ view.slots → error.LiesInValue

namespace Binder

variable {binder : Binder}

theorem keeps_blameless (sound : binder.registry.Sound) :
    binder.Keeps (· ∈ binder.registry.schemas) (View.Blameless binder.registry) where
  registered := fun _ => id
  blank := by
    intro schema raw registered
    refine ⟨registered, ?_⟩
    intro error slot
    simp [View.blank, View.slots] at slot
  bound := by
    intro schema raw view registered bound
    obtain ⟨members, values, -, -, -, rfl⟩ := bindEagerWith_eq_ok.1 bound
    refine ⟨registered, ?_⟩
    intro error slot
    obtain ⟨value, -, same⟩ := List.mem_map.1 slot
    cases same
  decoded := by
    intro view index field good empty declared
    refine ⟨good.registered, ?_⟩
    intro error slot
    rcases List.mem_or_eq_of_mem_set slot with old | new
    · exact good.errors error old
    · exact bindField_blames sound good.registered (List.mem_of_getElem? declared) error
        (Option.some.inj new).symm
  stable := by
    intro view index value other good slot alike
    refine ⟨good.registered, ?_⟩
    intro error slot
    rcases List.mem_or_eq_of_mem_set slot with old | new
    · exact good.errors error old
    · cases new

theorem fieldAt_blames (sound : binder.registry.Sound) (start : View) (index : Nat) :
    (binder.fieldAt index).Safe
      (fun view => view.All (View.Blameless binder.registry) ∧ start.Alike view)
      BindingError.LiesInValue := by
  intro view good
  refine ⟨(all_of_fieldAt (keeps_blameless sound) start index view good).1, ?_⟩
  obtain ⟨registered, errors⟩ := good.1.here
  intro error failed
  obtain ⟨outcome, slot, read⟩ | ⟨field, -, declared, read⟩ | ⟨-, read⟩ :=
    fieldAt_cases binder index view
  · rw [read] at failed
    cases failed
    exact errors error (List.mem_of_getElem? slot)
  · rw [read] at failed
    exact bindField_blames sound registered (List.mem_of_getElem? declared) error failed
  · rw [read] at failed
    cases failed
    exact trivial

/-- With a registry that was built, no error of binding, of narrowing or of reading fields blames
the registry, at whatever depth; but a record without candidates cannot be narrowed. -/
theorem errors_lie_in_value {draft : Registry.Draft} {registry : Registry}
    (built : draft.build = .ok registry) (ambiguity : AmbiguityPolicy) :
    (∀ schema ∈ registry.schemas, ∀ raw mode error,
      (Binder.bind ⟨registry, ambiguity⟩ schema raw mode).result = .error error →
      error.LiesInValue) ∧
    (∀ base ∈ registry.schemas, ∀ raw mode error,
      (Binder.resolve ⟨registry, ambiguity⟩ base raw mode).result = .error error →
      error.LiesInValue ∨ base.subtypes = none ∧ error = .notPolymorphic base.id) ∧
    ∀ (shared : SharedViews) (key : ViewKey) (view : View),
      shared.Obtained ⟨registry, ambiguity⟩ (· ∈ registry.schemas) →
      shared.get? key = some view →
      ∀ (α : Type) (access : Access α), Reading ⟨registry, ambiguity⟩ α access →
      ∀ error, (access.run.run view).value.1 = .error error → error.LiesInValue := by
  let binder : Binder := ⟨registry, ambiguity⟩
  have sound : binder.registry.Sound := Registry.Draft.sound_of_build built
  refine ⟨?_, ?_, ?_⟩
  · intro schema registered raw mode
    exact bind_blames sound registered
  · intro base registered raw mode error failed
    exact resolve_blames sound registered failed
  · intro shared key view obtained held α access reading
    have all := obtained.all_of_get? (keeps_blameless sound) held
    exact (reading.safe (fieldAt_blames sound view) (fun _ _ => trivial) (fun _ _ => trivial)
      view ⟨all, .refl view⟩).2

def drawings : Registry.Draft where
  schemas := [Registry.openRecord,
    ⟨"Drawing", [⟨"shapes", "shapes", false, false, .list (.subtype "Shape"), none⟩], false, none,
      none⟩,
    ⟨"Shape", [], true, none, some ⟨.structural, [⟨"Circle", []⟩]⟩⟩,
    ⟨"Circle", [⟨"radius", "radius", false, false, .double, none⟩], false, some "Shape", none⟩]

def roundless : Json :=
  .object [("shapes", .array [.object [("radius", .string "long")]])]

theorem errors_lie_in_value_drawing :
    drawings.build = .ok ⟨drawings.schemas⟩ ∧
    ∃ schema ∈ drawings.schemas, ∃ error,
      (Binder.bind ⟨⟨drawings.schemas⟩, .firstMatch⟩ schema roundless .eager).result
        = .error error ∧
      error.message = "Drawing.shapes (list of subtype of Shape): element 0: no subtype of " ++
        "'Shape' matches: Circle (radius: found string)" ∧
      error.LiesInValue := by
  have built : drawings.build = .ok ⟨drawings.schemas⟩ := rfl
  obtain ⟨error, failed, message⟩ : ∃ error,
      (Binder.bind ⟨⟨drawings.schemas⟩, .firstMatch⟩ drawings.schemas[1] roundless .eager).result
        = .error error ∧
      error.message = "Drawing.shapes (list of subtype of Shape): element 0: no subtype of " ++
        "'Shape' matches: Circle (radius: found string)" := ⟨_, rfl, by decide +kernel⟩
  have registered : drawings.schemas[1] ∈ drawings.schemas := List.getElem_mem _
  exact ⟨built, _, registered, error, failed, message,
    (errors_lie_in_value built .firstMatch).1 _ registered roundless .eager error failed⟩

end Binder

end DebugLink
