import Mathlib.Data.List.Nodup
import DebugLink.Proofs.Binding.Obtained
import DebugLink.Proofs.Binding.References

/-!
# Extending a registry

References between the schemas of a registry that was built stay within it. So whatever binding
looks up on its way, starting from one of them, is described alike in every registry that has these
schemas and others.
-/

set_option autoImplicit false

namespace DebugLink

/-! ## Registries with the schemas of another -/

namespace Registry

def Within (registry extended : Registry) : Prop :=
  ∀ type schema, registry.describe? type = some schema → extended.describe? type = some schema

def Describes (registry : Registry) (type : String) : Prop :=
  ∃ schema, registry.describe? type = some schema

theorem describes_of_mem {registry : Registry} {schema : Schema}
    (registered : schema ∈ registry.schemas) : registry.Describes schema.id := by
  cases found : registry.describe? schema.id with
  | some other => exact ⟨other, found⟩
  | none =>
    have absent := List.find?_eq_none.1 found schema registered
    simp at absent

namespace Draft

variable {draft : Draft} {schema : Schema}

def Distinct (draft : Draft) : Prop :=
  (draft.schemas.map Schema.id).Nodup

theorem describe?_of_mem (distinct : draft.Distinct) (mem : schema ∈ draft.schemas) :
    draft.describe? schema.id = some schema := by
  obtain ⟨other, found⟩ : Registry.Describes ⟨draft.schemas⟩ schema.id := describes_of_mem mem
  have named : other.id = schema.id := by simpa using List.find?_some found
  have among : other ∈ draft.schemas := List.mem_of_find?_eq_some found
  rw [List.inj_on_of_nodup_map distinct among mem named] at found
  exact found

theorem distinct_register {next : Draft} (distinct : draft.Distinct)
    (registered : draft.register schema = .ok next) : next.Distinct := by
  unfold register at registered
  split at registered
  · cases registered
  · rename_i fresh
    cases registered
    have unused : schema.id ∉ draft.schemas.map Schema.id := by
      intro used
      obtain ⟨other, among, named⟩ := List.mem_map.1 used
      have found := describe?_of_mem distinct among
      rw [named] at found
      exact fresh (by rw [contains, found]; rfl)
    simpa [Distinct, List.nodup_append] using ⟨distinct, by simpa using unused⟩

theorem distinct_registerAll (distinct : draft.Distinct) (schemas : List Schema) :
    (draft.registerAll schemas).1.Distinct := by
  induction schemas generalizing draft with
  | nil => exact distinct
  | cons schema rest ih =>
    unfold registerAll
    split
    · rename_i next registered
      exact ih (distinct_register distinct registered)
    · exact distinct

end Draft

theorem within_of_build {registry extended : Registry} {schemas : List Schema}
    (built : (Draft.empty.registerAll schemas).1.build = .ok extended)
    (among : ∀ schema ∈ registry.schemas, schema ∈ extended.schemas) :
    registry.Within extended := by
  have alone : Draft.empty.Distinct := List.nodup_singleton _
  have distinct := Draft.distinct_registerAll alone schemas
  intro type schema described
  have mem := among schema (List.mem_of_find?_eq_some described)
  rw [Draft.schemas_of_build built] at mem
  have named := id_of_describe? described
  rw [describe?, Draft.schemas_of_build built, ← named]
  exact Draft.describe?_of_mem distinct mem

end Registry

/-! ## Runs that go on alike -/

theorem Logged.bind_congr {ρ α β : Type} {x : Logged ρ α} {f g : α → Logged ρ β}
    (same : f x.value = g x.value) : x >>= f = x >>= g := by
  refine Logged.ext ?_ ?_
  · rw [Logged.log_bind, Logged.log_bind, same]
  · rw [Logged.value_bind, Logged.value_bind, same]

theorem Outcome.bind_congr {ε α β : Type} {x : Outcome ε α} {f g : α → Outcome ε β}
    (same : ∀ a, x.result = .ok a → f a = g a) : x >>= f = x >>= g := by
  refine Logged.bind_congr ?_
  change ExceptT.bindCont f x.result = ExceptT.bindCont g x.result
  cases given : x.result with
  | ok a => exact same a given
  | error error => rfl

namespace Binder

/-- A binder describes every type that another one knows as the other does, and settles ambiguity
alike. -/
structure Within (binder larger : Binder) : Prop where
  registry : binder.registry.Within larger.registry
  ambiguity : larger.ambiguity = binder.ambiguity

def AgreeOnKnown (binder : Binder) (depth : Nat) (first second : Coercion) : Prop :=
  ∀ kind, binder.registry.Refers kind → AgreeBelow depth first second kind

variable {binder larger : Binder} {first second : Coercion} {schema base : Schema}
  {raw value : Json} {mode : Mode}

/-! ## Fields and records -/

theorem describe?_within {type : String} (within : binder.Within larger)
    (described : binder.describe? type = some schema) :
    larger.describe? type = binder.describe? type :=
  (within.registry type schema described).trans described.symm

theorem bindEagerWith_within (sound : binder.registry.Sound)
    (registered : schema ∈ binder.registry.schemas)
    (agree : binder.AgreeOnKnown raw.depth first second) :
    bindEagerWith first schema raw = bindEagerWith second schema raw :=
  bindEagerWith_congr fun field declared =>
    agree field.kind (sound.fields schema registered field declared)

theorem bindWith_within (sound : binder.registry.Sound)
    (registered : schema ∈ binder.registry.schemas)
    (agree : binder.AgreeOnKnown raw.depth first second) (mode : Mode) :
    bindWith first schema raw mode = bindWith second schema raw mode :=
  bindWith_congr (fun field declared =>
    agree field.kind (sound.fields schema registered field declared)) mode

/-! ## Narrowing -/

theorem candidateSchema_within {subtypes : Subtypes} {candidate : Candidate}
    (within : binder.Within larger) (sound : binder.registry.Sound)
    (registered : base ∈ binder.registry.schemas) (polymorphic : base.subtypes = some subtypes)
    (mem : candidate ∈ subtypes.candidates) :
    larger.candidateSchema base candidate = binder.candidateSchema base candidate := by
  obtain ⟨target, described⟩ := sound.candidates base registered subtypes polymorphic candidate mem
  unfold candidateSchema
  rw [describe?_within within described]

theorem discriminate_within {subtypes : Subtypes} (within : binder.Within larger)
    (sound : binder.registry.Sound) (registered : base ∈ binder.registry.schemas)
    (polymorphic : base.subtypes = some subtypes) (members : List (String × Json)) :
    larger.discriminate base subtypes members = binder.discriminate base subtypes members := by
  have tested : ∀ candidate ∈ subtypes.candidates,
      (larger.candidateSchema base candidate >>= fun schema =>
          pure (schema, firstFailure? members candidate))
        = binder.candidateSchema base candidate >>= fun schema =>
          pure (schema, firstFailure? members candidate) := by
    intro candidate mem
    rw [candidateSchema_within within sound registered polymorphic mem]
  unfold discriminate
  rw [mapM_congr_left tested]

theorem bindStructural_within {subtypes : Subtypes} (within : binder.Within larger)
    (sound : binder.registry.Sound) (registered : base ∈ binder.registry.schemas)
    (polymorphic : base.subtypes = some subtypes)
    (agree : binder.AgreeOnKnown raw.depth first second) :
    larger.bindStructural second base subtypes raw
      = binder.bindStructural first base subtypes raw := by
  have tried : ∀ candidate ∈ subtypes.candidates,
      (larger.candidateSchema base candidate >>= fun schema =>
          (bindEagerWith second schema raw).attempt >>= fun trial => pure (schema, trial))
        = binder.candidateSchema base candidate >>= fun schema =>
          (bindEagerWith first schema raw).attempt >>= fun trial => pure (schema, trial) := by
    intro candidate mem
    rw [candidateSchema_within within sound registered polymorphic mem]
    refine Outcome.bind_congr fun schema found => ?_
    have listed := mem_of_describe? (Outcome.result_ofOption_eq_ok.1 found)
    rw [bindEagerWith_within sound listed agree]
  unfold bindStructural
  rw [mapM_congr_left tried, within.ambiguity]

theorem resolveWith_within (within : binder.Within larger) (sound : binder.registry.Sound)
    (registered : base ∈ binder.registry.schemas)
    (agree : binder.AgreeOnKnown raw.depth first second) :
    larger.resolveWith second base raw mode = binder.resolveWith first base raw mode := by
  unfold resolveWith
  cases polymorphic : base.subtypes with
  | none => rfl
  | some subtypes =>
    cases raw.asMembers? with
    | none => rfl
    | some members =>
      dsimp only
      cases subtypes.rule with
      | discriminated =>
        rw [discriminate_within within sound registered polymorphic]
        refine Outcome.bind_congr fun chosen found => ?_
        obtain ⟨candidate, -, described, -⟩ := candidate_of_discriminate found
        rw [bindWith_within sound (mem_of_describe? described) agree]
      | structural =>
        rw [bindStructural_within within sound registered polymorphic agree]

/-! ## Values -/

theorem coerceWith_within {kind : Kind} (within : binder.Within larger)
    (sound : binder.registry.Sound) (refers : binder.registry.Refers kind)
    (agree : binder.AgreeOnKnown value.depth first second) :
    larger.coerceWith second value kind mode = binder.coerceWith first value kind mode := by
  cases kind with
  | boolean | long | double | string | any | enumeration => rfl
  | record type =>
    obtain ⟨target, described, -⟩ := refers ⟨type, false⟩ rfl
    simp only [coerceWith, describe?_within within described]
    refine Outcome.bind_congr fun schema found => ?_
    have listed := mem_of_describe? (Outcome.result_ofOption_eq_ok.1 found)
    rw [bindEagerWith_within sound listed agree]
  | subtype base =>
    obtain ⟨target, described, -⟩ := refers ⟨base, true⟩ rfl
    simp only [coerceWith, describe?_within within described]
    refine Outcome.bind_congr fun schema found => ?_
    have listed := mem_of_describe? (Outcome.result_ofOption_eq_ok.1 found)
    rw [resolveWith_within within sound listed agree]
  | list element =>
    exact (coerceWith_list_congr (agree element refers) larger mode).symm

theorem agree_within (within : binder.Within larger) (sound : binder.registry.Sound) (depth : Nat) :
    binder.AgreeOnKnown depth binder.coerce larger.coerce := by
  intro kind refers part mode below
  clear below
  induction part using Json.induction_on_depth generalizing kind mode with
  | step part ih =>
    rw [coerce_eq_coerceWith binder, coerce_eq_coerceWith larger]
    symm
    apply coerceWith_within within sound refers
    intro kind refers other mode smaller
    exact ih other smaller kind refers mode

/-! ## Binding and narrowing -/

theorem bindField_within {field : Field} (within : binder.Within larger)
    (sound : binder.registry.Sound) (registered : schema ∈ binder.registry.schemas)
    (declared : field ∈ schema.fields) :
    larger.bindField schema raw mode field = binder.bindField schema raw mode field :=
  (bindFieldWith_congr (agree_within within sound raw.depth field.kind
    (sound.fields schema registered field declared)) schema mode).symm

theorem bind_within (within : binder.Within larger) (sound : binder.registry.Sound)
    (registered : schema ∈ binder.registry.schemas) (raw : Json) (mode : Mode) :
    larger.bind schema raw mode = binder.bind schema raw mode :=
  (bindWith_within sound registered (agree_within within sound raw.depth) mode).symm

theorem bindType_within {type : String} (within : binder.Within larger)
    (sound : binder.registry.Sound) (described : binder.describe? type = some schema) (raw : Json)
    (mode : Mode) : larger.bindType type raw mode = binder.bindType type raw mode := by
  simp only [bindType, describe?_within within described]
  refine Outcome.bind_congr fun own found => ?_
  have listed := mem_of_describe? (Outcome.result_ofOption_eq_ok.1 found)
  exact bind_within within sound listed raw mode

theorem resolve_within (within : binder.Within larger) (sound : binder.registry.Sound)
    (registered : base ∈ binder.registry.schemas) (raw : Json) (mode : Mode) :
    larger.resolve base raw mode = binder.resolve base raw mode :=
  resolveWith_within within sound registered (agree_within within sound raw.depth)

theorem registered_of_listed {type sibling : String} (sound : binder.registry.Sound)
    (described : binder.describe? type = some base)
    (listed : ((binder.describe? type).bind Schema.subtypes).any (·.lists sibling) = true) :
    ∃ target, binder.describe? sibling = some target := by
  rw [described] at listed
  obtain ⟨subtypes, polymorphic, lists⟩ := (Option.any_eq_true _ _).1 listed
  obtain ⟨place, at_place⟩ := Option.isSome_iff_exists.1 lists
  obtain ⟨below, named, -⟩ := List.findIdx?_eq_some_iff_getElem.1 at_place
  have same : subtypes.candidates[place].type = sibling := by simpa using named
  rw [← same]
  exact sound.candidates base (mem_of_describe? described) subtypes polymorphic _
    (List.getElem_mem below)

theorem reresolveAs_within {variant : Variant} (within : binder.Within larger)
    (sound : binder.registry.Sound) (described : binder.describe? variant.base = some base)
    (sibling : String) :
    larger.reresolveAs variant sibling = binder.reresolveAs variant sibling := by
  have found : (larger.describe? sibling).filter
        (fun _ => ((larger.describe? variant.base).bind Schema.subtypes).any (·.lists sibling))
      = (binder.describe? sibling).filter fun _ =>
        ((binder.describe? variant.base).bind Schema.subtypes).any (·.lists sibling) := by
    rw [describe?_within within described]
    cases listed : ((binder.describe? variant.base).bind Schema.subtypes).any
        (·.lists sibling) with
    | false => simp
    | true =>
      obtain ⟨target, known⟩ := registered_of_listed sound described listed
      rw [describe?_within within known]
  simp only [reresolveAs, found]
  refine Outcome.bind_congr fun own chosen => ?_
  have known := (Option.filter_eq_some_iff.1 (Outcome.result_ofOption_eq_ok.1 chosen)).1
  rw [bind_within within sound (mem_of_describe? known)]

theorem narrow_within {variant : Variant} (within : binder.Within larger)
    (sound : binder.registry.Sound) (registered : variant.view.schema ∈ binder.registry.schemas) :
    larger.narrow variant = binder.narrow variant :=
  resolve_within within sound registered variant.raw variant.view.mode

end Binder

end DebugLink
