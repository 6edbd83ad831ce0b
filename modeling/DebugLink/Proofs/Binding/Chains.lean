import Mathlib.Logic.Relation
import DebugLink.Proofs.Binding.Recall

/-!
# Chains of variants

A variant is resolved again as a sibling, or narrowed by the candidates of its own type, and so is
what comes out. However long a chain of such steps gets, each variant on it is of a registered base
and is one of its candidates, over the value with which the chain began; and steps to siblings can
be taken back.
-/

set_option autoImplicit false

namespace DebugLink

/-! ## Every value equals itself -/

theorem Double.equal_self (d : Double) : d.equal d = true := by
  simp [Double.equal]

theorem Number.equal_self (n : Number) : n.equal n = true := by
  cases n with
  | integer => simp [Number.equal]
  | double d => exact d.equal_self

namespace Json

mutual

theorem equal_self : ∀ value : Json, value.equal value = true
  | .null => rfl
  | .bool _ | .string _ => by simp [equal]
  | .number n => n.equal_self
  | .array items => equalItems_self items
  | .object members => equalMembers_self members

theorem equalItems_self : ∀ items : List Json, equalItems items items = true
  | [] => rfl
  | item :: rest => by simp [equalItems, equal_self item, equalItems_self rest]

theorem equalMembers_self : ∀ members : List (String × Json), equalMembers members members = true
  | [] => rfl
  | (key, value) :: rest => by simp [equalMembers, equal_self value, equalMembers_self rest]

end

end Json

theorem View.Alike.equal {view other : View} (alike : view.Alike other) :
    other.equal view = true := by
  simp [View.equal, View.type, alike.schema, alike.raw, Json.equal_self]

/-! ## Candidates of a registry -/

namespace Registry

variable {registry : Registry} {schemas : List Schema} {schema target : Schema}
  {subtypes : Subtypes} {candidate : Candidate}

theorem lists_of_mem (listed : candidate ∈ subtypes.candidates) :
    subtypes.lists candidate.type = true := by
  unfold Subtypes.lists Subtypes.position?
  rw [List.findIdx?_isSome, List.any_eq_true]
  exact ⟨candidate, listed, beq_self_eq_true _⟩

theorem base_of_candidateFault? {draft : Draft} {index : Nat}
    (fine : draft.candidateFault? schema subtypes index candidate = none)
    (described : draft.describe? candidate.type = some target) : target.base = some schema.id := by
  simp only [Draft.candidateFault?, described] at fine
  split at fine
  · cases fine
  · rename_i declares
    exact not_not.1 declares

theorem base_of_build {draft : Draft} (built : draft.build = .ok registry)
    (registered : schema ∈ registry.schemas) (polymorphic : schema.subtypes = some subtypes)
    (listed : candidate ∈ subtypes.candidates)
    (described : registry.describe? candidate.type = some target) :
    target.base = some schema.id := by
  obtain ⟨fine, rfl⟩ := Draft.build_eq_ok.1 built
  have checked := (Option.or_eq_none_iff.1 (Option.or_eq_none_iff.1 (fine schema registered)).2).2
  obtain ⟨index, at_index⟩ := List.getElem?_of_mem listed
  exact base_of_candidateFault?
    (Draft.candidateFault?_of_subtypesFault? checked polymorphic at_index) described

theorem describe?_of_build (built : (Draft.empty.registerAll schemas).1.build = .ok registry)
    (registered : schema ∈ registry.schemas) : registry.describe? schema.id = some schema := by
  have alone : Draft.empty.Distinct := List.nodup_singleton _
  rw [Draft.schemas_of_build built] at registered
  rw [describe?, Draft.schemas_of_build built]
  exact Draft.describe?_of_mem (Draft.distinct_registerAll alone schemas) registered

end Registry

/-! ## Variants in fields -/

theorem FieldValue.viewAt?_of_itemAt? {places : List Nat} {value : FieldValue} {base type : String}
    {view : View} (lies : value.itemAt? places = some (.variant base type view)) :
    value.viewAt? places = some view := by
  induction places generalizing value with
  | nil =>
    cases lies
    rfl
  | cons place places ih =>
    cases value with
    | list items =>
      obtain ⟨item, at_place, lies⟩ := Option.bind_eq_some_iff.1 lies
      exact Option.bind_eq_some_iff.2 ⟨item, at_place, ih lies⟩
    | _ => cases lies

/-- A variant in a field can be taken out, and its slots are shared from then on. -/
theorem SharedViews.get?_inside {shared : SharedViews} {key : ViewKey} {view inner : View}
    {hop : Hop} {base type : String} (held : shared.get? key = some view)
    (lies : view.itemAt? hop = some (.variant base type inner)) :
    shared.get? (key.inside hop) = some inner := by
  obtain ⟨root, at_root, descends⟩ := mem_roots_of_get? held
  unfold View.itemAt? at lies
  split at lies
  · rename_i value slot
    have inside : view.descend? [hop] = some inner := by
      rw [View.descend?_cons_eq, View.held?_eq_some.2 slot, Option.bind_some,
        FieldValue.viewAt?_of_itemAt? lies]
      rfl
    refine Option.bind_eq_some_iff.2 ⟨root, at_root, ?_⟩
    rw [ViewKey.inside, View.descend?_append, descends]
    exact inside
  · cases lies

namespace Binder

def Lists (binder : Binder) (base type : String) : Prop :=
  ∃ schema subtypes, binder.describe? base = some schema ∧ schema.subtypes = some subtypes ∧
    subtypes.lists type = true

structure Candidacy (binder : Binder) (variant : Variant) : Prop where
  listed : binder.Lists variant.base variant.type
  described : binder.describe? variant.type = some variant.view.schema
  base : variant.view.schema.base = some variant.base
  type : variant.view.type = variant.type

/-! ## Steps -/

/-- A variant is resolved again as a sibling, or fields of it are read. -/
inductive Sidesteps (binder : Binder) : Variant → Variant → Prop where
  | reresolved {variant next : Variant} {sibling : String}
      (again : (binder.reresolveAs variant sibling).result = .ok next) :
      Sidesteps binder variant next
  | read {base type : String} {view later : View} (grows : binder.Grows view later) :
      Sidesteps binder ⟨base, type, view⟩ ⟨base, type, later⟩

/-- A variant is narrowed further, or it stays on its level. -/
inductive Steps (binder : Binder) : Variant → Variant → Prop where
  | aside {variant next : Variant} (step : binder.Sidesteps variant next) : Steps binder variant next
  | narrowed {variant next : Variant} (further : (binder.narrow variant).result = .ok next) :
      Steps binder variant next

/-- How a chain begins: with a variant of a registered base, or with one that lies in a field of a
view. With it goes the value that is narrowed, and the mode. -/
inductive Begins (binder : Binder) : Variant → Json → Mode → Prop where
  | resolved {base : Schema} {raw : Json} {mode : Mode} {variant : Variant}
      (registered : base ∈ binder.registry.schemas)
      (resolved : (binder.resolve base raw mode).result = .ok variant) :
      Begins binder variant raw mode
  | nested {shared : SharedViews} {key : ViewKey} {view inner : View} {hop : Hop}
      {base type : String} (obtained : shared.Obtained binder (· ∈ binder.registry.schemas))
      (held : shared.get? key = some view)
      (lies : view.itemAt? hop = some (.variant base type inner)) :
      Begins binder ⟨base, type, inner⟩ inner.raw inner.mode

structure OnChain (binder : Binder) (raw : Json) (mode : Mode) (variant : Variant) : Prop where
  candidacy : binder.Candidacy variant
  raw : variant.raw = raw
  mode : variant.view.mode = mode
  recalled : binder.Recalled variant.view

variable {binder : Binder} {registry : Registry} {schemas : List Schema} {raw : Json} {mode : Mode}
  {variant next last : Variant} {sibling : String}

theorem raw_of_bind {schema : Schema} {view : View}
    (bound : (binder.bind schema raw mode).result = .ok view) : view.raw = raw := by
  cases mode with
  | eager => exact raw_of_bindEagerWith bound
  | lazy =>
    cases bound
    rfl

theorem schema_of_bind {schema : Schema} {view : View}
    (bound : (binder.bind schema raw mode).result = .ok view) : view.schema = schema := by
  cases mode with
  | eager => exact schema_of_bindEagerWith bound
  | lazy =>
    cases bound
    rfl

theorem onChain_of_resolve {base : Schema}
    (built : (Registry.Draft.empty.registerAll schemas).1.build = .ok binder.registry)
    (registered : base ∈ binder.registry.schemas)
    (resolved : (binder.resolve base raw mode).result = .ok variant) :
    binder.OnChain raw mode variant := by
  obtain ⟨subtypes, polymorphic, candidate, listed, chosen, described, bound, own, type⟩ :=
    candidate_of_resolveWith resolved
  have named : variant.type = candidate.type := type.trans (Registry.id_of_describe? described)
  have schema := schema_of_bind bound
  refine ⟨⟨⟨base, subtypes, ?_, polymorphic, ?_⟩, ?_, ?_, ?_⟩, raw_of_bind bound,
    mode_of_bind bound, .of_bind bound⟩
  · rw [own]
    exact Registry.describe?_of_build built registered
  · rw [named]
    exact Registry.lists_of_mem listed
  · rw [named, schema]
    exact described
  · rw [own, schema]
    exact Registry.base_of_build built registered polymorphic listed described
  · rw [type, View.type, schema]

theorem OnChain.read {view later : View} {base type : String}
    (chained : binder.OnChain raw mode ⟨base, type, view⟩) (grows : binder.Grows view later) :
    binder.OnChain raw mode ⟨base, type, later⟩ := by
  obtain ⟨⟨listed, described, own, named⟩, held, delayed, recalled⟩ := chained
  obtain ⟨schema, value, ways⟩ := grows.alike
  dsimp only at described own named delayed
  refine ⟨⟨listed, ?_, ?_, ?_⟩, ?_, ways.trans delayed, recalled.grow grows⟩
  · rw [schema]
    exact described
  · rw [schema]
    exact own
  · rw [View.type, schema]
    exact named
  · exact value.trans held

/-! ## Resolving again -/

theorem lists_iff {base type : String} : binder.Lists base type ↔
    ((binder.describe? base).bind Schema.subtypes).any (·.lists type) = true := by
  simp only [Lists, Option.any_eq_true, Option.bind_eq_some_iff]
  constructor
  · rintro ⟨schema, subtypes, described, polymorphic, lists⟩
    exact ⟨subtypes, ⟨schema, described, polymorphic⟩, lists⟩
  · rintro ⟨subtypes, ⟨schema, described, polymorphic⟩, lists⟩
    exact ⟨schema, subtypes, described, polymorphic, lists⟩

theorem describe?_of_lists {base : String}
    (built : (Registry.Draft.empty.registerAll schemas).1.build = .ok binder.registry)
    (listed : binder.Lists base sibling) :
    ∃ schema, binder.describe? sibling = some schema ∧ schema.base = some base := by
  obtain ⟨owner, subtypes, described, polymorphic, lists⟩ := listed
  obtain ⟨place, at_place⟩ := Option.isSome_iff_exists.1 lists
  obtain ⟨below, named, -⟩ := List.findIdx?_eq_some_iff_getElem.1 at_place
  have among := List.getElem_mem below
  have same : subtypes.candidates[place].type = sibling := by simpa using named
  have registered := mem_of_describe? described
  obtain ⟨target, known⟩ := (Registry.Draft.sound_of_build built).candidates owner registered
    subtypes polymorphic _ among
  have declares := Registry.base_of_build built registered polymorphic among known
  rw [Registry.id_of_describe? described] at declares
  rw [same] at known
  exact ⟨target, known, declares⟩

theorem reresolveAs_of_lists {schema : Schema} (listed : binder.Lists variant.base sibling)
    (described : binder.describe? sibling = some schema) :
    (binder.reresolveAs variant sibling).result
      = ((binder.bind schema variant.raw variant.view.mode).result.mapError .binding).map
        fun view => ⟨variant.base, schema.id, view⟩ := by
  have lists := lists_iff.1 listed
  simp only [reresolveAs, lists, described, Option.filter_some, if_true]
  exact Outcome.result_map _ _

theorem reresolveAs_of_not_lists (unlisted : ¬ binder.Lists variant.base sibling) :
    (binder.reresolveAs variant sibling).result
      = .error (.notACandidate variant.base sibling) := by
  rw [lists_iff, Bool.not_eq_true] at unlisted
  simp only [reresolveAs, unlisted]
  cases binder.describe? sibling <;> rfl

theorem lists_of_reresolveAs (again : (binder.reresolveAs variant sibling).result = .ok next) :
    binder.Lists variant.base sibling := by
  by_contra unlisted
  rw [reresolveAs_of_not_lists unlisted] at again
  cases again

theorem reresolveAs_eq_notACandidate
    (built : (Registry.Draft.empty.registerAll schemas).1.build = .ok binder.registry)
    {base type : String} :
    (binder.reresolveAs variant sibling).result = .error (.notACandidate base type) ↔
      base = variant.base ∧ type = sibling ∧ ¬ binder.Lists variant.base sibling := by
  by_cases listed : binder.Lists variant.base sibling
  · obtain ⟨schema, described, -⟩ := describe?_of_lists built listed
    rw [reresolveAs_of_lists listed described]
    simp only [listed, not_true_eq_false, and_false, iff_false]
    cases (binder.bind schema variant.raw variant.view.mode).result <;>
      simp [Except.mapError, Except.map]
  · rw [reresolveAs_of_not_lists listed]
    simp only [listed, not_false_eq_true, and_true, Except.error.injEq,
      ResolutionError.notACandidate.injEq]
    exact and_congr eq_comm eq_comm

theorem OnChain.reresolved
    (built : (Registry.Draft.empty.registerAll schemas).1.build = .ok binder.registry)
    (chained : binder.OnChain raw mode variant)
    (again : (binder.reresolveAs variant sibling).result = .ok next) :
    binder.OnChain raw mode next ∧ next.base = variant.base := by
  have listed := lists_of_reresolveAs again
  obtain ⟨schema, described, declares⟩ := describe?_of_lists built listed
  have named := Registry.id_of_describe? described
  rw [reresolveAs_of_lists listed described, chained.raw, chained.mode] at again
  cases bound : (binder.bind schema raw mode).result with
  | error error =>
    rw [bound] at again
    cases again
  | ok view =>
    rw [bound] at again
    cases again
    have own := schema_of_bind bound
    refine ⟨⟨⟨?_, ?_, ?_, congrArg Schema.id own⟩, raw_of_bind bound, mode_of_bind bound,
      .of_bind bound⟩, rfl⟩
    · dsimp only
      rw [named]
      exact listed
    · dsimp only
      rw [named, own]
      exact described
    · exact own ▸ declares

/-- A variant can be resolved again as any that has been on its chain and is of its base. -/
theorem OnChain.back (chained : binder.OnChain raw mode variant)
    (other : binder.OnChain raw mode last) (same : last.base = variant.base) :
    ∃ view, (binder.reresolveAs last variant.type).result
        = .ok ⟨variant.base, variant.type, view⟩ ∧
      binder.Grows view variant.view ∧ view.equal variant.view = true := by
  obtain ⟨fresh, bound, grows⟩ := chained.recalled
  have listed : binder.Lists last.base variant.type := same ▸ chained.candidacy.listed
  have named := Registry.id_of_describe? chained.candidacy.described
  have value : variant.view.raw = raw := chained.raw
  rw [value, chained.mode] at bound
  refine ⟨fresh, ?_, grows, ?_⟩
  · rw [reresolveAs_of_lists listed chained.candidacy.described, other.raw, other.mode, bound, same,
      named]
    rfl
  · have alike : variant.view.Alike fresh :=
      ⟨grows.alike.schema.symm, grows.alike.raw.symm, grows.alike.mode.symm⟩
    exact alike.equal

/-! ## Chains -/

theorem onChain_of_begins
    (built : (Registry.Draft.empty.registerAll schemas).1.build = .ok binder.registry)
    (begins : binder.Begins variant raw mode) : binder.OnChain raw mode variant := by
  cases begins with
  | resolved registered resolved => exact onChain_of_resolve built registered resolved
  | @nested shared key view inner hop base type obtained held lies =>
    -- What narrowing gave differs from what lies in the field only in what is decoded inside.
    obtain ⟨own, registered, part, ways, made, narrowed, same⟩ :=
      (obtained.recalled held).resolved lies
    obtain ⟨⟨listed, described, declares, named⟩, -, -, -⟩ :=
      onChain_of_resolve built registered narrowed
    have schema : made.schema = inner.schema := by
      have whole := congrArg View.schema same
      exact whole
    dsimp only at described declares named
    refine ⟨⟨listed, schema ▸ described, schema ▸ declares, ?_⟩, rfl, rfl, ?_⟩
    · rw [View.type, ← schema]
      exact named
    · exact obtained.recalled (SharedViews.get?_inside held lies)

theorem onChain_of_chain
    (built : (Registry.Draft.empty.registerAll schemas).1.build = .ok binder.registry)
    (begun : binder.OnChain raw mode variant)
    (chain : Relation.ReflTransGen binder.Steps variant last) : binder.OnChain raw mode last := by
  induction chain with
  | refl => exact begun
  | tail before step ih =>
    cases step with
    | aside step =>
      cases step with
      | reresolved again => exact (ih.reresolved built again).1
      | read grows => exact ih.read grows
    | narrowed further =>
      have registered := mem_of_describe? ih.candidacy.described
      rw [narrow, ih.raw, ih.mode] at further
      exact onChain_of_resolve built registered further

theorem onChain_of_sidesteps
    (built : (Registry.Draft.empty.registerAll schemas).1.build = .ok binder.registry)
    (begun : binder.OnChain raw mode variant)
    (aside : Relation.ReflTransGen binder.Sidesteps variant last) :
    binder.OnChain raw mode last ∧ last.base = variant.base := by
  induction aside with
  | refl => exact ⟨begun, rfl⟩
  | tail before step ih =>
    obtain ⟨chained, own⟩ := ih
    cases step with
    | reresolved again =>
      obtain ⟨chained, same⟩ := chained.reresolved built again
      exact ⟨chained, same.trans own⟩
    | read grows => exact ⟨chained.read grows, own⟩

/-- On a chain that begins with a variant of a registered base, or with one in a field, every
variant is a candidate of a registered base that the candidate declares, over the value and in the
mode of the first. It can be resolved again as just those types that its base lists; and after any
steps to siblings, or none, it can be resolved again as what it was. -/
theorem chains_stay_sound {first : Variant}
    (built : (Registry.Draft.empty.registerAll schemas).1.build = .ok binder.registry)
    (begins : binder.Begins first raw mode)
    (chain : Relation.ReflTransGen binder.Steps first last) :
    binder.Candidacy last ∧ last.raw = raw ∧ last.view.mode = mode ∧
    (∀ sibling base type,
      (binder.reresolveAs last sibling).result = .error (.notACandidate base type) ↔
        base = last.base ∧ type = sibling ∧ ¬ binder.Lists last.base sibling) ∧
    ∀ other, Relation.ReflTransGen binder.Sidesteps last other →
      ∃ view, (binder.reresolveAs other last.type).result = .ok ⟨last.base, last.type, view⟩ ∧
        binder.Grows view last.view ∧ view.equal last.view = true := by
  have chained := onChain_of_chain built (onChain_of_begins built begins) chain
  refine ⟨chained.candidacy, chained.raw, chained.mode, ?_, ?_⟩
  · exact fun sibling base type => reresolveAs_eq_notACandidate built
  · intro other aside
    obtain ⟨beside, same⟩ := onChain_of_sidesteps built chained aside
    exact chained.back beside same

def creature : Schema :=
  ⟨"Creature", [], true, none,
    some ⟨.discriminated, [⟨"Dog", [.present "barks"]⟩, ⟨"Cat", [.present "purrs"]⟩]⟩⟩

def creatures : List Schema := [creature,
  ⟨"Dog", [], true, some "Creature", some ⟨.structural, [⟨"Puppy", []⟩]⟩⟩,
  ⟨"Cat", [], true, some "Creature", none⟩,
  ⟨"Puppy", [⟨"weeks", "weeks", false, false, .long, none⟩], true, some "Dog", none⟩]

def youngDog : Json :=
  .object [("barks", .bool true), ("weeks", .ofUInt64 6)]

/-- A dog is taken for a cat and for a dog again, and then for the puppy that it is. -/
theorem chains_stay_sound_creatures :
    ∃ registry dog puppy, (Registry.Draft.empty.registerAll creatures).1.build = .ok registry ∧
      (resolve ⟨registry, .reject⟩ creature youngDog .lazy).result = .ok dog ∧
      Relation.ReflTransGen (Steps ⟨registry, .reject⟩) dog puppy ∧
      puppy.base = "Dog" ∧ puppy.type = "Puppy" ∧ puppy.raw = youngDog ∧
      (reresolveAs ⟨registry, .reject⟩ puppy "Cat").result
        = .error (.notACandidate "Dog" "Cat") := by
  let binder : Binder := ⟨⟨(Registry.Draft.empty.registerAll creatures).1.schemas⟩, .reject⟩
  have built : (Registry.Draft.empty.registerAll creatures).1.build = .ok binder.registry := rfl
  obtain ⟨dog, resolved, cat, asCat, again, asDog, puppy, further, base, type⟩ : ∃ dog,
      (binder.resolve creature youngDog .lazy).result = .ok dog ∧
      ∃ cat, (binder.reresolveAs dog "Cat").result = .ok cat ∧
      ∃ again, (binder.reresolveAs cat "Dog").result = .ok again ∧
      ∃ puppy, (binder.narrow again).result = .ok puppy ∧
        puppy.base = "Dog" ∧ puppy.type = "Puppy" :=
    ⟨_, rfl, _, rfl, _, rfl, _, rfl, rfl, rfl⟩
  have chain : Relation.ReflTransGen binder.Steps dog puppy :=
    ((Relation.ReflTransGen.single (.aside (.reresolved asCat))).tail
      (.aside (.reresolved asDog))).tail (.narrowed further)
  have registered : creature ∈ binder.registry.schemas :=
    List.mem_cons_of_mem _ List.mem_cons_self
  obtain ⟨-, whole, -, refused, -⟩ :=
    chains_stay_sound built (.resolved registered resolved) chain
  have unlisted : ¬ binder.Lists puppy.base "Cat" := by
    rw [lists_iff, base]
    decide
  refine ⟨binder.registry, dog, puppy, built, resolved, chain, base, type, whole, ?_⟩
  exact (refused _ _ _).2 ⟨base.symm, rfl, unlisted⟩

end Binder

end DebugLink
