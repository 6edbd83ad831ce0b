import Mathlib.Data.List.Basic
import DebugLink.Schema.Registry

/-!
# References of a registry

A registry is built from a draft only if every reference between its schemas can be followed: from
the kind of a field, through lists, and from a polymorphic record to its candidates.
-/

set_option autoImplicit false

namespace DebugLink

namespace Registry

/-- The type that a kind refers to is registered, and polymorphic if it has to be. -/
def Refers (registry : Registry) (kind : Kind) : Prop :=
  ∀ reference, kind.reference? = some reference →
    ∃ target, registry.describe? reference.type = some target ∧
      (reference.polymorphic = true → target.subtypes.isSome = true)

structure Sound (registry : Registry) : Prop where
  fields : ∀ schema ∈ registry.schemas, ∀ field ∈ schema.fields, registry.Refers field.kind
  candidates : ∀ schema ∈ registry.schemas, ∀ subtypes, schema.subtypes = some subtypes →
    ∀ candidate ∈ subtypes.candidates, ∃ target, registry.describe? candidate.type = some target

theorem id_of_describe? {registry : Registry} {type : String} {schema : Schema}
    (described : registry.describe? type = some schema) : schema.id = type := by
  simpa using List.find?_some described

namespace Draft

variable {draft : Draft} {registry : Registry}

theorem build_eq_ok : draft.build = .ok registry ↔
    (∀ schema ∈ draft.schemas, draft.fault? schema = none) ∧ registry = ⟨draft.schemas⟩ := by
  unfold build
  rw [← List.findSome?_eq_none_iff]
  cases draft.schemas.findSome? draft.fault? with
  | some error => simp
  | none => simp [eq_comm]

theorem schemas_of_build (built : draft.build = .ok registry) :
    registry.schemas = draft.schemas := by
  rw [(build_eq_ok.1 built).2]

theorem refers_of_fieldFault? {owner : Schema} {field : Field}
    (fine : draft.fieldFault? owner field = none) :
    Registry.Refers ⟨draft.schemas⟩ field.kind := by
  intro reference refers
  simp only [fieldFault?, refers] at fine
  cases described : draft.describe? reference.type with
  | none => simp [described] at fine
  | some target =>
    refine ⟨target, described, ?_⟩
    intro polymorphic
    simp only [described, polymorphic, Bool.true_and] at fine
    cases subtypes : target.subtypes with
    | none => simp [subtypes] at fine
    | some _ => rfl

theorem candidateFault?_of_subtypesFault? {schema : Schema} {subtypes : Subtypes}
    (fine : draft.subtypesFault? schema = none) (polymorphic : schema.subtypes = some subtypes)
    {index : Nat} {candidate : Candidate} (at_index : subtypes.candidates[index]? = some candidate) :
    draft.candidateFault? schema subtypes index candidate = none := by
  simp only [subtypesFault?, polymorphic] at fine
  split at fine
  · cases fine
  · have listed : (candidate, index) ∈ subtypes.candidates.zipIdx := by
      rw [List.mem_zipIdx_iff_getElem?]
      exact at_index
    exact List.findSome?_eq_none_iff.1 fine _ listed

theorem registered_of_subtypesFault? {schema : Schema} {subtypes : Subtypes}
    (fine : draft.subtypesFault? schema = none) (polymorphic : schema.subtypes = some subtypes) :
    ∀ candidate ∈ subtypes.candidates, ∃ target, draft.describe? candidate.type = some target := by
  intro candidate mem
  obtain ⟨index, at_index⟩ := List.getElem?_of_mem mem
  have checked := candidateFault?_of_subtypesFault? fine polymorphic at_index
  simp only [candidateFault?] at checked
  cases described : draft.describe? candidate.type with
  | none => simp [described] at checked
  | some target => exact ⟨target, rfl⟩

theorem position?_of_subtypesFault? {schema : Schema} {subtypes : Subtypes}
    (fine : draft.subtypesFault? schema = none) (polymorphic : schema.subtypes = some subtypes)
    {index : Nat} {candidate : Candidate} (at_index : subtypes.candidates[index]? = some candidate) :
    subtypes.position? candidate.type = some index := by
  have checked := candidateFault?_of_subtypesFault? fine polymorphic at_index
  simp only [candidateFault?] at checked
  split at checked
  · cases checked
  · split at checked
    · cases checked
    · split at checked
      · cases checked
      · rename_i first
        exact not_not.1 first

theorem nodup_of_build (built : draft.build = .ok registry) {schema : Schema} {subtypes : Subtypes}
    (registered : schema ∈ registry.schemas) (polymorphic : schema.subtypes = some subtypes) :
    (subtypes.candidates.map Candidate.type).Nodup := by
  obtain ⟨fine, rfl⟩ := build_eq_ok.1 built
  have checked := (Option.or_eq_none_iff.1 (Option.or_eq_none_iff.1 (fine schema registered)).2).2
  rw [List.Nodup, List.pairwise_iff_getElem]
  intro i j below below' smaller same
  rw [List.length_map] at below below'
  simp only [List.getElem_map] at same
  have first := position?_of_subtypesFault? checked polymorphic (List.getElem?_eq_getElem below)
  have second := position?_of_subtypesFault? checked polymorphic (List.getElem?_eq_getElem below')
  rw [same, second] at first
  cases first
  exact Nat.lt_irrefl _ smaller

theorem sound_of_build (built : draft.build = .ok registry) : registry.Sound := by
  obtain ⟨fine, rfl⟩ := build_eq_ok.1 built
  constructor
  · intro schema mem field declared
    have checked := (Option.or_eq_none_iff.1 (fine schema mem)).1
    exact refers_of_fieldFault? (List.findSome?_eq_none_iff.1 checked field declared)
  · intro schema mem subtypes polymorphic
    have checked := (Option.or_eq_none_iff.1 (Option.or_eq_none_iff.1 (fine schema mem)).2).2
    exact registered_of_subtypesFault? checked polymorphic

end Draft

end Registry

end DebugLink
