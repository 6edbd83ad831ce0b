import Mathlib.Logic.Relation
import DebugLink.Proofs.Binding.Recall
import DebugLink.Proofs.Binding.Trial

/-!
# What the policy for ambiguity changes

To reject a value that binds as several candidates, or to take the first of them, makes a difference
only where candidates are tried. As long as no trial is met within a trial, the same candidates bind
under both policies. Then whatever is read without an ambiguity is read alike when the first match
is taken.
-/

set_option autoImplicit false

namespace DebugLink

/-! ## Registries in which trials do not meet -/

def Schema.IsStructural (schema : Schema) : Prop :=
  ∃ candidates, schema.subtypes = some ⟨.structural, candidates⟩

namespace Registry

def CandidateOf (registry : Registry) (base target : Schema) : Prop :=
  ∃ subtypes, base.subtypes = some subtypes ∧ ∃ candidate ∈ subtypes.candidates,
    registry.describe? candidate.type = some target

/-- A field of a record holds another record, or a candidate of a base; or a list does that is in
the field. -/
inductive Leads (registry : Registry) : Schema → Schema → Prop where
  | record {owner target : Schema} {field : Field} {type : String}
      (declared : field ∈ owner.fields) (refers : field.kind.reference? = some ⟨type, false⟩)
      (described : registry.describe? type = some target) : Leads registry owner target
  | candidate {owner base target : Schema} {field : Field} {type : String}
      (declared : field ∈ owner.fields) (refers : field.kind.reference? = some ⟨type, true⟩)
      (described : registry.describe? type = some base)
      (listed : registry.CandidateOf base target) : Leads registry owner target

/-- However deep in a record, no field is narrowed by trial. -/
def Untried (registry : Registry) (schema : Schema) : Prop :=
  ∀ reached, Relation.ReflTransGen registry.Leads schema reached → ∀ field ∈ reached.fields,
    ∀ type base, field.kind.reference? = some ⟨type, true⟩ →
      registry.describe? type = some base → ¬ base.IsStructural

/-- No trial is met in a record that is tried. -/
def TrialsApart (registry : Registry) : Prop :=
  ∀ base ∈ registry.schemas, base.IsStructural →
    ∀ target, registry.CandidateOf base target → registry.Untried target

structure UntriedKind (registry : Registry) (kind : Kind) : Prop where
  record : ∀ type target, kind.reference? = some ⟨type, false⟩ →
    registry.describe? type = some target → registry.Untried target
  subtype : ∀ type base, kind.reference? = some ⟨type, true⟩ →
    registry.describe? type = some base →
      ¬ base.IsStructural ∧ ∀ target, registry.CandidateOf base target → registry.Untried target

variable {registry : Registry} {schema target : Schema}

theorem Untried.of_leads (untried : registry.Untried schema) (leads : registry.Leads schema target) :
    registry.Untried target :=
  fun reached further => untried reached (.head leads further)

theorem Untried.kind (untried : registry.Untried schema) {field : Field}
    (declared : field ∈ schema.fields) : registry.UntriedKind field.kind where
  record := fun _ _ refers described => untried.of_leads (.record declared refers described)
  subtype := by
    intro type base refers described
    refine ⟨untried schema .refl field declared type base refers described, ?_⟩
    intro target listed
    exact untried.of_leads (.candidate declared refers described listed)

theorem Untried.of_plain (plain : ∀ field ∈ schema.fields, field.kind.reference? = none) :
    registry.Untried schema := by
  intro reached chain field declared type base refers
  obtain rfl | ⟨next, leads, -⟩ := chain.cases_head
  · cases (plain field declared).symm.trans refers
  · cases leads with
    | record declared refers => cases (plain _ declared).symm.trans refers
    | candidate declared refers => cases (plain _ declared).symm.trans refers

end Registry

namespace Binder

variable {registry : Registry} {policy other : AmbiguityPolicy} {first second : Coercion}
  {schema base : Schema} {raw value : Json} {kind : Kind} {mode : Mode}

/-! ## Without trials the policy is not asked -/

def AgreeUntried (registry : Registry) (depth : Nat) (first second : Coercion) : Prop :=
  ∀ kind, registry.UntriedKind kind → AgreeBelow depth first second kind

theorem bindEagerWith_untried (untried : registry.Untried schema)
    (agree : AgreeUntried registry raw.depth first second) :
    bindEagerWith first schema raw = bindEagerWith second schema raw :=
  bindEagerWith_congr fun _ declared => agree _ (untried.kind declared)

theorem resolveWith_untried (plain : ¬ base.IsStructural)
    (untried : ∀ target, registry.CandidateOf base target → registry.Untried target)
    (agree : AgreeUntried registry raw.depth first second) :
    resolveWith ⟨registry, policy⟩ first base raw mode
      = resolveWith ⟨registry, other⟩ second base raw mode := by
  unfold resolveWith
  cases polymorphic : base.subtypes with
  | none => rfl
  | some subtypes =>
    cases raw.asMembers? with
    | none => rfl
    | some members =>
      obtain ⟨rule, candidates⟩ := subtypes
      cases rule with
      | structural => exact absurd ⟨candidates, polymorphic⟩ plain
      | discriminated =>
        refine Outcome.bind_congr fun chosen found => ?_
        obtain ⟨candidate, listed, described, -⟩ := candidate_of_discriminate found
        have known := untried chosen ⟨_, polymorphic, candidate, listed, described⟩
        rw [bindWith_congr (fun _ declared => agree _ (known.kind declared)) mode]

theorem coerceWith_untried (untried : registry.UntriedKind kind)
    (agree : AgreeUntried registry value.depth first second) :
    coerceWith ⟨registry, policy⟩ first value kind mode
      = coerceWith ⟨registry, other⟩ second value kind mode := by
  cases kind with
  | boolean | long | double | string | any | enumeration => rfl
  | record type =>
    refine Outcome.bind_congr fun schema found => ?_
    have known := untried.record type schema rfl (Outcome.result_ofOption_eq_ok.1 found)
    rw [bindEagerWith_untried known agree]
  | subtype type =>
    refine Outcome.bind_congr fun base found => ?_
    obtain ⟨plain, known⟩ := untried.subtype type base rfl (Outcome.result_ofOption_eq_ok.1 found)
    rw [resolveWith_untried plain known agree]
  | list element =>
    have inside : registry.UntriedKind element := ⟨untried.record, untried.subtype⟩
    exact coerceWith_list_congr (agree element inside) _ mode

theorem agreeUntried (registry : Registry) (policy other : AmbiguityPolicy) (depth : Nat) :
    AgreeUntried registry depth (coerce ⟨registry, policy⟩) (coerce ⟨registry, other⟩) := by
  intro kind untried part mode below
  clear below
  induction part using Json.induction_on_depth generalizing kind mode with
  | step part ih =>
    rw [coerce_eq_coerceWith ⟨registry, policy⟩, coerce_eq_coerceWith ⟨registry, other⟩]
    apply coerceWith_untried untried
    intro kind untried inner mode smaller
    exact ih inner smaller kind untried mode

/-! ## What is read without ambiguity -/

/-- What the first coercion reads of the values below a depth, the second reads alike. -/
def FollowsBelow (depth : Nat) (first second : Coercion) : Prop :=
  ∀ part kind mode x, part.depth < depth → (first part kind mode).result = .ok x →
    (second part kind mode).result = .ok x

theorem bindFieldWith_follows {field : Field} {x : FieldValue}
    (follows : FollowsBelow raw.depth first second)
    (bound : (bindFieldWith first schema raw mode field).result = .ok x) :
    (bindFieldWith second schema raw mode field).result = .ok x := by
  obtain ⟨members, object, absent | null | ⟨part, found, given, read⟩⟩ :=
    bindFieldWith_eq_ok.1 bound
  · exact bindFieldWith_eq_ok.2 ⟨members, object, .inl absent⟩
  · exact bindFieldWith_eq_ok.2 ⟨members, object, .inr (.inl null)⟩
  · have smaller := Json.depth_lt_of_lookup object found
    exact bindFieldWith_eq_ok.2
      ⟨members, object, .inr (.inr ⟨part, found, given, follows part _ _ x smaller read⟩)⟩

theorem bindWith_follows {view : View} (follows : FollowsBelow raw.depth first second)
    (bound : (bindWith first schema raw mode).result = .ok view) :
    (bindWith second schema raw mode).result = .ok view := by
  cases mode with
  | lazy => exact bound
  | eager =>
    obtain ⟨members, values, object, fields, declared, rfl⟩ := bindEagerWith_eq_ok.1 bound
    refine bindEagerWith_eq_ok.2 ⟨members, values, object, ?_, declared, rfl⟩
    exact fields.imp fun _ _ read => bindFieldWith_follows follows read

/-- Where candidates bind alike, one that is chosen under the strict policy is the first. -/
theorem bindStructural_relaxes {subtypes : Subtypes} {view : View}
    (chosen : (bindStructural ⟨registry, .reject⟩ first base subtypes raw).result = .ok view) :
    (bindStructural ⟨registry, .firstMatch⟩ first base subtypes raw).result = .ok view := by
  unfold bindStructural at chosen ⊢
  obtain ⟨trials, tried, rest⟩ := Outcome.result_bind_eq_ok.1 chosen
  refine Outcome.result_bind_eq_ok.2 ⟨trials, tried, ?_⟩
  dsimp only at rest ⊢
  split at rest
  · cases rest
  · exact rest
  · cases rest

theorem bindStructural_untried {subtypes : Subtypes} (polymorphic : base.subtypes = some subtypes)
    (untried : ∀ target, registry.CandidateOf base target → registry.Untried target)
    (agree : AgreeUntried registry raw.depth first second) :
    bindStructural ⟨registry, policy⟩ first base subtypes raw
      = bindStructural ⟨registry, policy⟩ second base subtypes raw := by
  have tried : ∀ candidate ∈ subtypes.candidates,
      (candidateSchema ⟨registry, policy⟩ base candidate >>= fun schema =>
          (bindEagerWith first schema raw).attempt >>= fun trial => pure (schema, trial))
        = candidateSchema ⟨registry, policy⟩ base candidate >>= fun schema =>
          (bindEagerWith second schema raw).attempt >>= fun trial => pure (schema, trial) := by
    intro candidate listed
    refine Outcome.bind_congr fun schema found => ?_
    have described := Outcome.result_ofOption_eq_ok.1 found
    rw [bindEagerWith_untried (untried schema ⟨_, polymorphic, candidate, listed, described⟩) agree]
  unfold bindStructural
  rw [mapM_congr_left tried]

theorem resolveWith_follows {variant : Variant} (apart : registry.TrialsApart)
    (registered : base ∈ registry.schemas) (agree : AgreeUntried registry raw.depth first second)
    (follows : FollowsBelow raw.depth first second)
    (narrowed : (resolveWith ⟨registry, .reject⟩ first base raw mode).result = .ok variant) :
    (resolveWith ⟨registry, .firstMatch⟩ second base raw mode).result = .ok variant := by
  cases polymorphic : base.subtypes with
  | none => simp [resolveWith, polymorphic] at narrowed
  | some subtypes =>
    obtain ⟨rule, candidates⟩ := subtypes
    cases rule with
    | discriminated =>
      obtain ⟨members, chosen, view, object, found, bound, rfl⟩ :=
        (resolveWith_discriminated_eq_ok polymorphic).1 narrowed
      exact (resolveWith_discriminated_eq_ok polymorphic).2
        ⟨members, chosen, view, object, found, bindWith_follows follows bound, rfl⟩
    | structural =>
      obtain ⟨members, view, object, chosen, rfl⟩ :=
        (resolveWith_structural_eq_ok polymorphic).1 narrowed
      refine (resolveWith_structural_eq_ok polymorphic).2 ⟨members, view, object, ?_, rfl⟩
      have untried := apart base registered ⟨candidates, polymorphic⟩
      rw [← bindStructural_untried polymorphic untried agree]
      exact bindStructural_relaxes chosen

theorem coerceWith_follows {x : FieldValue} (apart : registry.TrialsApart)
    (agree : AgreeUntried registry value.depth first second)
    (follows : FollowsBelow value.depth first second)
    (read : (coerceWith ⟨registry, .reject⟩ first value kind mode).result = .ok x) :
    (coerceWith ⟨registry, .firstMatch⟩ second value kind mode).result = .ok x := by
  cases kind with
  | boolean | long | double | string | any | enumeration => exact read
  | record type =>
    cases mode with
    | lazy => exact read
    | eager =>
      obtain ⟨schema, view, described, bound, rfl⟩ := coerceWith_record_eager_eq_ok.1 read
      have relaxed : (bindWith second schema value .eager).result = .ok view :=
        bindWith_follows follows bound
      exact coerceWith_record_eager_eq_ok.2 ⟨schema, view, described, relaxed, rfl⟩
  | subtype type =>
    obtain ⟨base, variant, described, narrowed, rfl⟩ := coerceWith_subtype_eq_ok.1 read
    have registered : base ∈ registry.schemas := mem_of_describe? described
    exact coerceWith_subtype_eq_ok.2
      ⟨base, variant, described, resolveWith_follows apart registered agree follows narrowed, rfl⟩
  | list element =>
    obtain ⟨items, xs, array, each, rfl⟩ := coerceWith_list_eq_ok.1 read
    refine coerceWith_list_eq_ok.2 ⟨items, xs, array, ?_, rfl⟩
    rw [List.forall₂_iff_get] at each ⊢
    obtain ⟨length, reads⟩ := each
    refine ⟨length, fun index below below' => ?_⟩
    have smaller := Json.depth_lt_of_item array (List.get_mem items ⟨index, below⟩)
    exact follows _ element mode _ smaller (reads index below below')

theorem followsBelow (apart : registry.TrialsApart) (depth : Nat) :
    FollowsBelow depth (coerce ⟨registry, .reject⟩) (coerce ⟨registry, .firstMatch⟩) := by
  intro part kind mode x below read
  clear below
  induction part using Json.induction_on_depth generalizing kind mode x with
  | step part ih =>
    rw [coerce_eq_coerceWith] at read ⊢
    refine coerceWith_follows apart (agreeUntried registry _ _ part.depth) ?_ read
    intro inner kind mode x smaller
    exact ih inner smaller kind mode x

theorem bindField_follows {field : Field} {x : FieldValue} (apart : registry.TrialsApart)
    (bound : (bindField ⟨registry, .reject⟩ schema raw mode field).result = .ok x) :
    (bindField ⟨registry, .firstMatch⟩ schema raw mode field).result = .ok x :=
  bindFieldWith_follows (followsBelow apart _) bound

theorem bind_follows {view : View} (apart : registry.TrialsApart)
    (bound : (bind ⟨registry, .reject⟩ schema raw mode).result = .ok view) :
    (bind ⟨registry, .firstMatch⟩ schema raw mode).result = .ok view :=
  bindWith_follows (followsBelow apart _) bound

theorem resolve_follows {variant : Variant} (apart : registry.TrialsApart)
    (registered : base ∈ registry.schemas)
    (narrowed : (resolve ⟨registry, .reject⟩ base raw mode).result = .ok variant) :
    (resolve ⟨registry, .firstMatch⟩ base raw mode).result = .ok variant :=
  resolveWith_follows apart registered (agreeUntried registry _ _ _) (followsBelow apart _) narrowed

theorem reresolveAs_follows {variant same next : Variant} {sibling : String}
    (apart : registry.TrialsApart) (base : same.base = variant.base)
    (alike : variant.view.Alike same.view)
    (again : (reresolveAs ⟨registry, .reject⟩ variant sibling).result = .ok next) :
    (reresolveAs ⟨registry, .firstMatch⟩ same sibling).result = .ok next := by
  obtain ⟨schema, found, rest⟩ := Outcome.result_bind_eq_ok.1 again
  obtain ⟨view, bound, last⟩ := Outcome.result_bind_eq_ok.1 rest
  have relaxed := bind_follows apart (Outcome.result_mapError_eq_ok.1 bound)
  obtain ⟨-, raw, mode⟩ := alike
  unfold reresolveAs
  rw [base, Variant.raw, raw, mode]
  exact Outcome.result_bind_eq_ok.2 ⟨schema, found, Outcome.result_bind_eq_ok.2
    ⟨view, Outcome.result_mapError_eq_ok.2 relaxed, last⟩⟩

theorem narrow_follows {variant same next : Variant} (apart : registry.TrialsApart)
    (registered : variant.view.schema ∈ registry.schemas) (alike : variant.view.Alike same.view)
    (further : (narrow ⟨registry, .reject⟩ variant).result = .ok next) :
    (narrow ⟨registry, .firstMatch⟩ same).result = .ok next := by
  obtain ⟨schema, raw, mode⟩ := alike
  unfold narrow
  rw [Variant.raw, schema, raw, mode]
  exact resolve_follows apart registered further

/-! ## Fields of views -/

variable {binder : Binder} {view same : View} {index : Nat}

theorem declared_of_shows {x : FieldValue} (sized : view.Sized)
    (shown : binder.shows index view = .ok x) :
    ∃ field, view.schema.fields[index]? = some field := by
  have readable : index < view.slots.length := by
    by_contra beyond
    obtain ⟨outcome, slot, -⟩ | ⟨field, slot, -, -⟩ | ⟨-, gives⟩ := fieldAt_cases binder index view
    · exact beyond (List.getElem?_eq_some_iff.1 slot).1
    · exact beyond (List.getElem?_eq_some_iff.1 slot).1
    · have read : binder.read index view
          = .error (.mk view.type ("#" ++ toString index) .declaredField .notDeclared) :=
        congrArg Prod.fst gives
      rw [shows, read] at shown
      cases shown
  have declared : index < view.schema.fields.length := sized ▸ readable
  exact ⟨_, List.getElem?_eq_getElem declared⟩

theorem shows_follows {x : FieldValue} (apart : registry.TrialsApart)
    (recalled : Recalled ⟨registry, .reject⟩ view) (relaxed : Recalled ⟨registry, .firstMatch⟩ same)
    (alike : view.Alike same) (shown : shows ⟨registry, .reject⟩ index view = .ok x) :
    shows ⟨registry, .firstMatch⟩ index same = .ok x := by
  obtain ⟨field, declared⟩ := declared_of_shows recalled.sized shown
  obtain ⟨schema, raw, mode⟩ := alike
  rw [recalled.shows declared] at shown
  rw [relaxed.shows (by rw [schema]; exact declared), schema, raw, mode]
  cases bound : (bindField ⟨registry, .reject⟩ view.schema view.raw view.mode field).result with
  | error error =>
    rw [bound] at shown
    cases shown
  | ok own =>
    rw [bindField_follows apart bound, ← bound]
    exact shown

end Binder

def Query.IsAccess : Query → Prop
  | .fieldAt _ | .field _ | .typed .. | .bindAll => True
  | .isDecoded _ | .equals _ => False

namespace Binder

variable {registry : Registry} {view same : View} {x : FieldValue}

theorem ok_of_bare {outcome : Except BindingError FieldValue}
    (gives : outcome.map FieldValue.bare = .ok x) : ∃ y, outcome = .ok y ∧ y.bare = x := by
  cases outcome with
  | error error => cases gives
  | ok y => exact ⟨y, rfl, Except.ok.inj gives⟩

def ShowsAll (registry : Registry) (view same : View) : Prop :=
  ∀ index x, shows ⟨registry, .reject⟩ index view = .ok x →
    shows ⟨registry, .firstMatch⟩ index same = .ok x

theorem fieldAt_follows {index : Nat} (follows : ShowsAll registry view same)
    (gives : ((fieldAt ⟨registry, .reject⟩ index).run.run view).value.1 = .ok x) :
    ∃ y, ((fieldAt ⟨registry, .firstMatch⟩ index).run.run same).value.1 = .ok y ∧
      y.bare = x.bare :=
  ok_of_bare (follows index x.bare (congrArg (Except.map FieldValue.bare) gives))

theorem fieldNamed_follows {name : String} (follows : ShowsAll registry view same)
    (alike : view.Alike same)
    (gives : ((fieldNamed ⟨registry, .reject⟩ name).run.run view).value.1 = .ok x) :
    ∃ y, ((fieldNamed ⟨registry, .firstMatch⟩ name).run.run same).value.1 = .ok y ∧
      y.bare = x.bare := by
  cases place : view.schema.fieldIndex? name with
  | some index =>
    rw [fieldNamed_of_index _ place] at gives
    rw [fieldNamed_of_index _ (by rwa [alike.schema])]
    exact fieldAt_follows follows gives
  | none =>
    unfold fieldNamed at gives
    rw [Access.get_bind, place] at gives
    cases gives

theorem bindAll_follows (follows : ShowsAll registry view same) (alike : view.Alike same)
    (sized : view.Sized) (sized' : same.Sized)
    (gives : ((bindAll ⟨registry, .reject⟩).run.run view).value.1 = .ok ()) :
    ((bindAll ⟨registry, .firstMatch⟩).run.run same).value.1 = .ok () := by
  obtain ⟨reads, declared⟩ := (bindAll_eq_ok sized).1 gives
  rw [bindAll_eq_ok sized', alike.raw, alike.schema]
  refine ⟨fun index below => ?_, declared⟩
  have inside : index < view.slots.length := by
    rw [sized, ← alike.schema, ← sized']
    exact below
  obtain ⟨x, read⟩ := reads index inside
  obtain ⟨y, read, -⟩ := fieldAt_follows follows read
  exact ⟨y, read⟩

theorem ask_follows {query : Query} {shared others : SharedViews} {answer : Answer}
    (apart : registry.TrialsApart) (recalled : Recalled ⟨registry, .reject⟩ view)
    (relaxed : Recalled ⟨registry, .firstMatch⟩ same) (alike : view.Alike same)
    (access : query.IsAccess) (answered : query.ask ⟨registry, .reject⟩ shared view = .ok answer) :
    ∃ again, query.ask ⟨registry, .firstMatch⟩ others same = .ok again ∧
      again.bare = answer.bare := by
  have follows : ShowsAll registry view same :=
    fun index x => shows_follows apart recalled relaxed alike
  unfold Query.ask at answered ⊢
  cases query with
  | isDecoded name | equals key => cases access
  | fieldAt index =>
    obtain ⟨x, gives, rfl⟩ := Access.outcome_map_eq_ok answered
    obtain ⟨y, read, bare⟩ := fieldAt_follows follows gives
    refine ⟨.value y, ?_, congrArg Answer.value bare⟩
    rw [Query.access, Access.outcome_map, read]
    rfl
  | field name =>
    obtain ⟨x, gives, rfl⟩ := Access.outcome_map_eq_ok answered
    obtain ⟨y, read, bare⟩ := fieldNamed_follows follows alike gives
    refine ⟨.value y, ?_, congrArg Answer.value bare⟩
    rw [Query.access, Access.outcome_map, read]
    rfl
  | typed accessor name =>
    obtain ⟨x, gives, rfl⟩ := Access.outcome_map_eq_ok answered
    obtain ⟨y, read, bare⟩ := fieldNamed_follows follows alike gives
    refine ⟨.shown (accessor.read y), ?_, ?_⟩
    · rw [Query.access, Access.outcome_map, read]
      rfl
    · simp only [Answer.bare, ← accessor.read_bare, bare]
  | bindAll =>
    obtain ⟨done, gives, rfl⟩ := Access.outcome_map_eq_ok answered
    refine ⟨.done, ?_, rfl⟩
    rw [Query.access, Access.outcome_map, bindAll_follows follows alike recalled.sized relaxed.sized
      gives]
    rfl

/-- Whatever succeeds under one binder succeeds under another, with the same result. What it starts
from may differ in what has been decoded. -/
structure Relaxes (strict lenient : Binder) : Prop where
  bind : ∀ schema raw mode view, (strict.bind schema raw mode).result = .ok view →
    (lenient.bind schema raw mode).result = .ok view
  bindType : ∀ type raw mode view, (strict.bindType type raw mode).result = .ok view →
    (lenient.bindType type raw mode).result = .ok view
  resolve : ∀ base ∈ strict.registry.schemas, ∀ raw mode variant,
    (strict.resolve base raw mode).result = .ok variant →
      (lenient.resolve base raw mode).result = .ok variant
  reresolveAs : ∀ (variant same : Variant) (sibling : String) (next : Variant),
    same.base = variant.base → variant.view.Alike same.view →
      (strict.reresolveAs variant sibling).result = .ok next →
        (lenient.reresolveAs same sibling).result = .ok next
  narrow : ∀ variant same next : Variant, variant.view.schema ∈ strict.registry.schemas →
    variant.view.Alike same.view → (strict.narrow variant).result = .ok next →
      (lenient.narrow same).result = .ok next
  access : ∀ (Given Given' : Schema → Prop) (shared others : SharedViews) (key other : ViewKey)
    (view same : View), shared.Obtained strict Given → others.Obtained lenient Given' →
      shared.get? key = some view → others.get? other = some same → view.Alike same →
        ∀ (query : Query) (answer : Answer), query.IsAccess →
          query.ask strict shared view = .ok answer →
            ∃ again, query.ask lenient others same = .ok again ∧ again.bare = answer.bare

/-- In a registry where no trial is met in a record that is tried, taking the first match changes no
reading that is accepted without it. -/
theorem first_match_only_relaxes {registry : Registry} (apart : registry.TrialsApart) :
    Relaxes ⟨registry, .reject⟩ ⟨registry, .firstMatch⟩ where
  bind := fun _ _ _ _ => bind_follows apart
  bindType := by
    intro type raw mode view bound
    obtain ⟨schema, described, bound⟩ := Outcome.result_bind_eq_ok.1 bound
    exact Outcome.result_bind_eq_ok.2 ⟨schema, described, bind_follows apart bound⟩
  resolve := fun _ registered _ _ _ => resolve_follows apart registered
  reresolveAs := fun _ _ _ _ => reresolveAs_follows apart
  narrow := fun _ _ _ => narrow_follows apart
  access := by
    intro Given Given' shared others key other view same obtained relaxed held found alike query
      answer access answered
    exact ask_follows apart (obtained.recalled held) (relaxed.recalled found) alike access answered

def entry : Schema :=
  ⟨"Entry", [⟨"scalar", "scalar", false, false, .subtype "Scalar", none⟩], true, none, none⟩

def entries : Registry :=
  ⟨entry :: scalars.schemas⟩

theorem trialsApart_entries : entries.TrialsApart := by
  rintro base registered ⟨candidates, polymorphic⟩ target ⟨subtypes, same, candidate, listed, found⟩
  cases polymorphic.symm.trans same
  simp only [entries, scalars, List.mem_cons, List.not_mem_nil, or_false] at registered
  rcases registered with rfl | rfl | rfl | rfl
  · cases polymorphic
  · -- Only scalars are tried, and neither a number nor a text holds a record.
    cases polymorphic
    simp only [List.mem_cons, List.not_mem_nil, or_false] at listed
    rcases listed with rfl | rfl <;> cases found <;> exact .of_plain (by simp [Kind.reference?])
  · cases polymorphic
  · cases polymorphic

/-- An entry of a number is read alike under both policies, and one of a scalar that is a number and
a text is read only under the second. -/
theorem first_match_only_relaxes_entries :
    let single : Json := .object [("scalar", .object [("value", .ofUInt64 1)])]
    let double : Json := .object [("scalar", numberAndText)]
    (∃ view, (bind ⟨entries, .reject⟩ entry single .eager).result = .ok view ∧
      (bind ⟨entries, .firstMatch⟩ entry single .eager).result = .ok view) ∧
    (∃ error, (bind ⟨entries, .reject⟩ entry double .eager).result = .error error) ∧
    ∃ view, (bind ⟨entries, .firstMatch⟩ entry double .eager).result = .ok view := by
  intro single double
  obtain ⟨view, bound⟩ : ∃ view, (bind ⟨entries, .reject⟩ entry single .eager).result = .ok view :=
    ⟨_, rfl⟩
  have relaxes := first_match_only_relaxes trialsApart_entries
  exact ⟨⟨view, bound, relaxes.bind entry single .eager view bound⟩, ⟨_, rfl⟩, _, rfl⟩

end Binder

end DebugLink
