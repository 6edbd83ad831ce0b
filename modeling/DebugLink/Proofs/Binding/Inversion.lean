import DebugLink.Binding.Access
import DebugLink.Proofs.Binding.Result

/-!
# What a binding that succeeds has done

Each part of binding gives a value just when its own parts do, and the value is made of theirs.
-/

set_option autoImplicit false

namespace DebugLink

theorem exists_of_mem_right {α β : Type} {R : α → β → Prop} {as : List α} {bs : List β}
    (related : List.Forall₂ R as bs) {b : β} (mem : b ∈ bs) : ∃ a ∈ as, R a b := by
  induction related with
  | nil => cases mem
  | cons head tail ih =>
    rcases List.mem_cons.1 mem with rfl | later
    · exact ⟨_, List.mem_cons_self, head⟩
    · obtain ⟨a, mem, holds⟩ := ih later
      exact ⟨a, List.mem_cons_of_mem _ mem, holds⟩

theorem exists_forall₂ {α β γ : Type} {R : α → β → Prop} {S : α → γ → Prop} {T : β → γ → Prop}
    {as : List α} {bs : List β} (related : List.Forall₂ R as bs)
    (step : ∀ a ∈ as, ∀ b ∈ bs, R a b → ∃ c, S a c ∧ T b c) :
    ∃ cs, List.Forall₂ S as cs ∧ List.Forall₂ T bs cs := by
  induction related with
  | nil => exact ⟨[], .nil, .nil⟩
  | @cons a b as bs head tail ih =>
    obtain ⟨c, first, second⟩ := step a List.mem_cons_self b List.mem_cons_self head
    obtain ⟨cs, firsts, seconds⟩ := ih fun other mem another among =>
      step other (List.mem_cons_of_mem a mem) another (List.mem_cons_of_mem b among)
    exact ⟨c :: cs, .cons first firsts, .cons second seconds⟩

namespace Binder

variable {binder : Binder} {coerce : Coercion} {schema : Schema} {raw value : Json} {mode : Mode}

/-! ## Fields and records -/

theorem bindFieldWith_eq_ok {field : Field} {x : FieldValue} :
    (bindFieldWith coerce schema raw mode field).result = .ok x ↔
      ∃ members, raw.asMembers? = some members ∧
        ((members.lookup field.wire = none ∧ field.optional = true ∧ x = .unset) ∨
        (members.lookup field.wire = some .null ∧ field.nullable = true ∧ x = .null) ∨
        ∃ value, members.lookup field.wire = some value ∧ value ≠ .null ∧
          (coerce value field.kind (field.mode.getD mode)).result = .ok x) := by
  unfold bindFieldWith
  cases raw.asMembers? with
  | none => simp
  | some members =>
    have ok_iff : ∀ y : FieldValue, Except.ok y = (.ok x : Except BindingError FieldValue) ↔ x = y :=
      fun y => ⟨fun same => (Except.ok.inj same).symm, fun same => same ▸ rfl⟩
    simp only [Option.some.injEq, exists_eq_left']
    cases members.lookup field.wire with
    | none =>
      cases field.optional
      · simp
      · simp [ok_iff]
    | some value =>
      cases value with
      | null =>
        cases field.nullable
        · simp
        · simp [ok_iff]
      | _ => simp only [Outcome.result_mapError_eq_ok]; simp

theorem bindEagerWith_eq_ok {view : View} :
    (bindEagerWith coerce schema raw).result = .ok view ↔
      ∃ members values, raw.asMembers? = some members ∧
        List.Forall₂ (fun field value =>
          (bindFieldWith coerce schema raw .eager field).result = .ok value) schema.fields values ∧
        schema.undeclared? members = none ∧
        view = .mk schema raw .eager (values.map fun value => some (.ok value)) := by
  unfold bindEagerWith
  cases raw.asMembers? with
  | none => simp
  | some members =>
    simp only [Outcome.result_bind_eq_ok, Outcome.result_mapM_eq_ok, Option.some.injEq,
      exists_and_left, exists_eq_left']
    refine exists_congr fun values => and_congr_right fun _ => ?_
    cases schema.undeclared? members with
    | some key => simp
    | none =>
      simp only [Outcome.result_pure, Except.ok.injEq, true_and]
      exact eq_comm

theorem slot_of_bindEagerWith {view : View} {index : Nat} {field : Field}
    (bound : (bindEagerWith coerce schema raw).result = .ok view)
    (declared : schema.fields[index]? = some field) :
    ∃ x, view.slots[index]? = some (some (.ok x)) ∧
      (bindFieldWith coerce schema raw .eager field).result = .ok x := by
  obtain ⟨members, values, -, fields, -, rfl⟩ := bindEagerWith_eq_ok.1 bound
  obtain ⟨below, rfl⟩ := List.getElem?_eq_some_iff.1 declared
  have length := fields.length_eq
  refine ⟨values[index], ?_, fields.get below (by omega)⟩
  simp [View.slots, show index < values.length by omega]

theorem schema_of_bindEagerWith {view : View}
    (bound : (bindEagerWith coerce schema raw).result = .ok view) : view.schema = schema := by
  obtain ⟨members, values, -, -, -, rfl⟩ := bindEagerWith_eq_ok.1 bound
  rfl

theorem raw_of_bindEagerWith {view : View}
    (bound : (bindEagerWith coerce schema raw).result = .ok view) : view.raw = raw := by
  obtain ⟨members, values, -, -, -, rfl⟩ := bindEagerWith_eq_ok.1 bound
  rfl

/-! ## Values -/

theorem coerceWith_long_eq_ok {x : FieldValue} :
    (binder.coerceWith coerce value .long mode).result = .ok x ↔
      ∃ n, long? value = some n ∧ .long n = x := by
  simp only [coerceWith, Outcome.result_ofOption_eq_ok, Option.map_eq_some_iff]

theorem coerceWith_boolean_eq_ok {x : FieldValue} :
    (binder.coerceWith coerce value .boolean mode).result = .ok x ↔
      ∃ b, value.asBool? = some b ∧ .bool b = x := by
  simp only [coerceWith, Outcome.result_ofOption_eq_ok, Option.map_eq_some_iff]

theorem coerceWith_string_eq_ok {x : FieldValue} :
    (binder.coerceWith coerce value .string mode).result = .ok x ↔
      ∃ text, value.asString? = some text ∧ .string text = x := by
  simp only [coerceWith, Outcome.result_ofOption_eq_ok, Option.map_eq_some_iff]

theorem coerceWith_list_eq_ok {element : Kind} {x : FieldValue} :
    (binder.coerceWith coerce value (.list element) mode).result = .ok x ↔
      ∃ items xs, value.asItems? = some items ∧
        List.Forall₂ (fun item x => (coerce item element mode).result = .ok x) items xs ∧
        .list xs = x := by
  simp only [coerceWith, Outcome.result_bind_eq_ok, Outcome.result_ofOption_eq_ok,
    Outcome.result_map_eq_ok, Outcome.result_mapM_eq_ok, Outcome.result_mapError_eq_ok]
  have places : ∀ (items : List Json) (xs : List FieldValue),
      List.Forall₂ (fun item x => (coerce item.1 element mode).result = .ok x) items.zipIdx xs ↔
        List.Forall₂ (fun item x => (coerce item element mode).result = .ok x) items xs := by
    intro items xs
    have forgotten := List.forall₂_map_left_iff (f := Prod.fst) (l := items.zipIdx) (u := xs)
      (R := fun item x => (coerce item element mode).result = .ok x)
    rw [List.zipIdx_map_fst] at forgotten
    exact forgotten.symm
  simp only [places, exists_and_left]

theorem coerceWith_record_eager_eq_ok {type : String} {x : FieldValue} :
    (binder.coerceWith coerce value (.record type) .eager).result = .ok x ↔
      ∃ schema view, binder.describe? type = some schema ∧
        (bindEagerWith coerce schema value).result = .ok view ∧ .record view = x := by
  simp only [coerceWith, Outcome.result_bind_eq_ok, Outcome.result_ofOption_eq_ok,
    Outcome.result_mapError_eq_ok, Outcome.result_map_eq_ok, exists_and_left]

theorem coerceWith_record_lazy_eq_ok {type : String} {x : FieldValue} :
    (binder.coerceWith coerce value (.record type) .lazy).result = .ok x ↔
      ∃ schema, binder.describe? type = some schema ∧ (∃ members, value.asMembers? = some members) ∧
        .record (.blank schema value .lazy) = x := by
  simp only [coerceWith, Outcome.result_bind_eq_ok, Outcome.result_ofOption_eq_ok]
  cases value.asMembers? with
  | none => simp
  | some members => simp

theorem coerceWith_subtype_eq_ok {base : String} {x : FieldValue} :
    (binder.coerceWith coerce value (.subtype base) mode).result = .ok x ↔
      ∃ schema variant, binder.describe? base = some schema ∧
        (binder.resolveWith coerce schema value mode).result = .ok variant ∧
        .variant variant.base variant.type variant.view = x := by
  simp only [coerceWith, Outcome.result_bind_eq_ok, Outcome.result_ofOption_eq_ok,
    Outcome.result_mapError_eq_ok, Outcome.result_pure, Except.ok.injEq, exists_and_left]

/-! ## Narrowing -/

theorem mem_of_describe? {type : String} (described : binder.describe? type = some schema) :
    schema ∈ binder.registry.schemas :=
  List.mem_of_find?_eq_some described

theorem candidate_of_discriminate {base chosen : Schema} {subtypes : Subtypes}
    {members : List (String × Json)}
    (found : (binder.discriminate base subtypes members).result = .ok chosen) :
    ∃ candidate ∈ subtypes.candidates, binder.describe? candidate.type = some chosen ∧
      firstFailure? members candidate = none := by
  unfold discriminate at found
  obtain ⟨tested, trials, rest⟩ := Outcome.result_bind_eq_ok.1 found
  rw [Outcome.result_mapM_eq_ok] at trials
  dsimp only at rest
  have passed : (chosen, none) ∈ tested := by
    split at rest
    · cases rest
    · rename_i schema matched
      have same : schema = chosen := by
        split at rest
        · cases rest
        · exact Except.ok.inj rest
      have mem : schema ∈ [schema] := List.mem_singleton.2 rfl
      rw [← matched, List.mem_filterMap] at mem
      obtain ⟨⟨other, failed⟩, mem, kept⟩ := mem
      cases failed with
      | none =>
        obtain rfl : other = schema := by simpa using kept
        exact same ▸ mem
      | some failure => simp at kept
    · cases rest
  obtain ⟨candidate, listed, trial⟩ := exists_of_mem_right trials passed
  obtain ⟨schema, described, result⟩ := Outcome.result_bind_eq_ok.1 trial
  obtain ⟨rfl, passes⟩ := Prod.mk.inj (Except.ok.inj result)
  exact ⟨candidate, listed, Outcome.result_ofOption_eq_ok.1 described, passes⟩

theorem resolveWith_discriminated_eq_ok {base : Schema} {candidates : List Candidate}
    {variant : Variant} (rule : base.subtypes = some ⟨.discriminated, candidates⟩) :
    (binder.resolveWith coerce base raw mode).result = .ok variant ↔
      ∃ members chosen view, raw.asMembers? = some members ∧
        (binder.discriminate base ⟨.discriminated, candidates⟩ members).result = .ok chosen ∧
        (bindWith coerce chosen raw mode).result = .ok view ∧
        ⟨base.id, chosen.id, view⟩ = variant := by
  unfold resolveWith
  rw [rule]
  cases raw.asMembers? with
  | none => simp
  | some members =>
    simp only [Outcome.result_bind_eq_ok, Outcome.result_mapError_eq_ok, Option.some.injEq,
      exists_and_left, exists_eq_left', Outcome.result_pure, Except.ok.injEq]

theorem bound_of_bindStructural {base : Schema} {subtypes : Subtypes} {view : View}
    (narrowed : (binder.bindStructural coerce base subtypes raw).result = .ok view) :
    ∃ candidate ∈ subtypes.candidates, ∃ chosen, binder.describe? candidate.type = some chosen ∧
      (bindEagerWith coerce chosen raw).result = .ok view := by
  unfold bindStructural at narrowed
  obtain ⟨trials, tried, rest⟩ := Outcome.result_bind_eq_ok.1 narrowed
  rw [Outcome.result_mapM_eq_ok] at tried
  dsimp only at rest
  have chosen : view ∈ trials.filterMap fun trial => trial.2.toOption := by
    split at rest
    · cases rest
    · rename_i only matched
      rw [matched, ← Except.ok.inj rest]
      exact List.mem_cons_self
    · rename_i first others more matched
      rw [matched]
      split at rest
      · cases rest
      · obtain ⟨-, -, last⟩ := Outcome.result_bind_eq_ok.1 rest
        rw [← Except.ok.inj last]
        exact List.mem_cons_self
  obtain ⟨⟨schema, trial⟩, mem, bound⟩ := List.mem_filterMap.1 chosen
  obtain ⟨candidate, listed, result⟩ := exists_of_mem_right tried mem
  obtain ⟨own, described, attempted⟩ := Outcome.result_bind_eq_ok.1 result
  obtain ⟨outcome, attempt, last⟩ := Outcome.result_bind_eq_ok.1 attempted
  obtain ⟨rfl, rfl⟩ := Prod.mk.inj (Except.ok.inj last)
  refine ⟨candidate, listed, own, Outcome.result_ofOption_eq_ok.1 described, ?_⟩
  rw [Outcome.result_attempt, Except.ok.injEq] at attempt
  rw [attempt]
  cases outcome with
  | ok bound' =>
    cases bound
    rfl
  | error error => cases bound

/-- Narrowing by trial binds eagerly to choose, whatever the mode. -/
theorem resolveWith_structural_eq_ok {base : Schema} {candidates : List Candidate}
    {variant : Variant} (rule : base.subtypes = some ⟨.structural, candidates⟩) :
    (binder.resolveWith coerce base raw mode).result = .ok variant ↔
      ∃ members view, raw.asMembers? = some members ∧
        (binder.bindStructural coerce base ⟨.structural, candidates⟩ raw).result = .ok view ∧
        variant = ⟨base.id, view.type,
          match mode with
          | .eager => view
          | .lazy => .blank view.schema raw .lazy⟩ := by
  unfold resolveWith
  rw [rule]
  cases raw.asMembers? with
  | none => simp
  | some members =>
    simp only [Outcome.result_bind_eq_ok, Option.some.injEq, exists_and_left, exists_eq_left']
    refine exists_congr fun view => and_congr_right fun _ => ?_
    cases mode <;> simp [eq_comm]

theorem lazy_of_resolveWith_eager {base : Schema} {variant : Variant}
    (narrowed : (binder.resolveWith coerce base raw .eager).result = .ok variant) :
    ∃ chosen ∈ binder.registry.schemas,
      (bindEagerWith coerce chosen raw).result = .ok variant.view ∧
      (binder.resolveWith coerce base raw .lazy).result
        = .ok ⟨variant.base, variant.type, .blank chosen raw .lazy⟩ := by
  cases polymorphic : base.subtypes with
  | none => simp [resolveWith, polymorphic] at narrowed
  | some subtypes =>
    obtain ⟨rule, candidates⟩ := subtypes
    cases rule with
    | discriminated =>
      obtain ⟨members, chosen, view, object, found, bound, rfl⟩ :=
        (resolveWith_discriminated_eq_ok polymorphic).1 narrowed
      obtain ⟨candidate, -, described, -⟩ := candidate_of_discriminate found
      refine ⟨chosen, mem_of_describe? described, bound, ?_⟩
      exact (resolveWith_discriminated_eq_ok polymorphic).2
        ⟨members, chosen, _, object, found, rfl, rfl⟩
    | structural =>
      obtain ⟨members, view, object, tried, rfl⟩ :=
        (resolveWith_structural_eq_ok polymorphic).1 narrowed
      obtain ⟨candidate, -, chosen, described, bound⟩ := bound_of_bindStructural tried
      refine ⟨chosen, mem_of_describe? described, bound, ?_⟩
      refine (resolveWith_structural_eq_ok polymorphic).2 ⟨members, view, object, tried, ?_⟩
      rw [schema_of_bindEagerWith bound]

theorem eager_of_resolveWith_lazy {base : Schema} {variant : Variant}
    (narrowed : (binder.resolveWith coerce base raw .lazy).result = .ok variant) :
    ∃ chosen ∈ binder.registry.schemas, variant.view = .blank chosen raw .lazy ∧
      (∃ members, raw.asMembers? = some members) ∧
      ((∃ view, (bindEagerWith coerce chosen raw).result = .ok view) →
        ∃ other, (binder.resolveWith coerce base raw .eager).result = .ok other) := by
  cases polymorphic : base.subtypes with
  | none => simp [resolveWith, polymorphic] at narrowed
  | some subtypes =>
    obtain ⟨rule, candidates⟩ := subtypes
    cases rule with
    | discriminated =>
      obtain ⟨members, chosen, view, object, found, bound, rfl⟩ :=
        (resolveWith_discriminated_eq_ok polymorphic).1 narrowed
      obtain ⟨candidate, -, described, -⟩ := candidate_of_discriminate found
      refine ⟨chosen, mem_of_describe? described, (Except.ok.inj bound).symm, ⟨members, object⟩, ?_⟩
      rintro ⟨eager, bindable⟩
      exact ⟨_, (resolveWith_discriminated_eq_ok polymorphic).2
        ⟨members, chosen, eager, object, found, bindable, rfl⟩⟩
    | structural =>
      obtain ⟨members, view, object, tried, rfl⟩ :=
        (resolveWith_structural_eq_ok polymorphic).1 narrowed
      obtain ⟨candidate, -, chosen, described, bound⟩ := bound_of_bindStructural tried
      refine ⟨chosen, mem_of_describe? described, ?_, ⟨members, object⟩, ?_⟩
      · rw [schema_of_bindEagerWith bound]
      · intro bindable
        exact ⟨_, (resolveWith_structural_eq_ok polymorphic).2
          ⟨members, view, object, tried, rfl⟩⟩

theorem candidate_of_resolveWith {base : Schema} {variant : Variant}
    (narrowed : (binder.resolveWith coerce base raw mode).result = .ok variant) :
    ∃ subtypes, base.subtypes = some subtypes ∧ ∃ candidate ∈ subtypes.candidates, ∃ chosen,
      binder.describe? candidate.type = some chosen ∧
      (bindWith coerce chosen raw mode).result = .ok variant.view ∧
      variant.base = base.id ∧ variant.type = chosen.id := by
  cases polymorphic : base.subtypes with
  | none => simp [resolveWith, polymorphic] at narrowed
  | some subtypes =>
    refine ⟨subtypes, rfl, ?_⟩
    obtain ⟨rule, candidates⟩ := subtypes
    cases rule with
    | discriminated =>
      obtain ⟨members, chosen, view, -, found, bound, rfl⟩ :=
        (resolveWith_discriminated_eq_ok polymorphic).1 narrowed
      obtain ⟨candidate, listed, described, -⟩ := candidate_of_discriminate found
      exact ⟨candidate, listed, chosen, described, bound, rfl, rfl⟩
    | structural =>
      obtain ⟨members, view, -, tried, rfl⟩ :=
        (resolveWith_structural_eq_ok polymorphic).1 narrowed
      obtain ⟨candidate, listed, chosen, described, bound⟩ := bound_of_bindStructural tried
      have own := schema_of_bindEagerWith bound
      refine ⟨candidate, listed, chosen, described, ?_, rfl, congrArg Schema.id own⟩
      cases mode with
      | eager => exact bound
      | lazy => rw [← own]; rfl

end Binder

/-! ## Reading -/

theorem Access.get_bind {α : Type} (f : View → Access α) (view : View) :
    ((get : Access View) >>= f).run.run view = (f view).run.run view := rfl

namespace Binder

theorem fieldNamed_of_index (binder : Binder) {view : View} {name : String} {index : Nat}
    (place : view.schema.fieldIndex? name = some index) :
    (binder.fieldNamed name).run.run view = (binder.fieldAt index).run.run view := by
  unfold fieldNamed
  rw [Access.get_bind, place]

theorem fieldAt_of_slot (binder : Binder) {view : View} {index : Nat}
    {outcome : Except BindingError FieldValue}
    (slot : view.slots[index]? = some (some outcome)) :
    (binder.fieldAt index).run.run view = pure (outcome, view) := by
  change binder.fieldAt index view = _
  unfold fieldAt
  rw [slot]

end Binder

end DebugLink
