import DebugLink.Proofs.Binding.Expansion
import DebugLink.Proofs.Binding.Modes

/-!
# Binding eagerly and forcing a lazy view

As long as no field overrides the mode, a record can be bound eagerly just when all fields of its
lazy view can be decoded, and those of every view that is met on the way.
-/

set_option autoImplicit false

namespace DebugLink

namespace Binder

/-- A view is met when fields of another are read, and fields of what they give. -/
inductive Reaches (binder : Binder) : View → View → Prop where
  | here (view : View) : Reaches binder view view
  | inside {view inner last : View} {index : Nat} {value : FieldValue}
      (reads : binder.read index view = .ok value) (mem : inner ∈ value.views)
      (rest : Reaches binder inner last) : Reaches binder view last

/-- All fields of a view can be decoded, and no member is left over. -/
def Decodes (binder : Binder) (view : View) : Prop :=
  (binder.bindAll.run.run view).value.1 = .ok ()

/-- All fields of a view can be decoded, and those of every view that is met on the way. -/
def Forces (binder : Binder) (view : View) : Prop :=
  ∀ inner, binder.Reaches view inner → binder.Decodes inner

def Uniform (binder : Binder) : Prop :=
  ∀ schema ∈ binder.registry.schemas, ∀ field ∈ schema.fields, field.mode = none

/-- A lazy view of a value that can be bound eagerly. -/
inductive Bindable (binder : Binder) : View → Prop where
  | intro {schema : Schema} {raw : Json} {view : View}
      (registered : schema ∈ binder.registry.schemas)
      (bound : (binder.bindEager schema raw).result = .ok view) :
      Bindable binder (.blank schema raw .lazy)

variable {binder : Binder} {schema : Schema} {raw value : Json} {kind : Kind} {x y : FieldValue}

/-! ## Lazy views -/

theorem decodes_blank : binder.Decodes (.blank schema raw .lazy) ↔
    (∀ field ∈ schema.fields, ∃ x, (binder.bindField schema raw .lazy field).result = .ok x) ∧
      raw.asMembers?.bind schema.undeclared? = none := by
  have size : (View.blank schema raw .lazy).slots.length = schema.fields.length :=
    View.sized_blank schema raw .lazy
  unfold Decodes
  rw [bindAll_eq_ok (View.sized_blank schema raw .lazy), size]
  refine and_congr_left fun _ => ⟨?_, ?_⟩
  · intro reads field mem
    obtain ⟨index, below, rfl⟩ := List.getElem_of_mem mem
    obtain ⟨x, gives⟩ := reads index below
    exact ⟨x, (read_blank (List.getElem?_eq_getElem below)).symm.trans gives⟩
  · intro binds index below
    obtain ⟨x, bound⟩ := binds _ (List.getElem_mem below)
    exact ⟨x, (read_blank (List.getElem?_eq_getElem below)).trans bound⟩

/-! ## From eager to lazy -/

/-- A value that can be read eagerly has, when read lazily, only views inside that can be bound
eagerly. -/
theorem bindable_of_coerce (eagerly : (binder.coerce value kind .eager).result = .ok x)
    (lazily : (binder.coerce value kind .lazy).result = .ok y) :
    ∀ inner ∈ y.views, binder.Bindable inner := by
  induction kind generalizing value x y with
  | record type =>
    rw [coerce_eq_coerceWith] at eagerly lazily
    obtain ⟨schema, view, described, bound, rfl⟩ := coerceWith_record_eager_eq_ok.1 eagerly
    obtain ⟨other, same, -, rfl⟩ := coerceWith_record_lazy_eq_ok.1 lazily
    cases described.symm.trans same
    intro inner mem
    rw [List.mem_singleton.1 mem]
    exact .intro (mem_of_describe? described) bound
  | subtype base =>
    rw [coerce_eq_coerceWith] at eagerly lazily
    obtain ⟨schema, variant, described, narrowed, rfl⟩ := coerceWith_subtype_eq_ok.1 eagerly
    obtain ⟨other, narrower, same, narrowedLazily, rfl⟩ := coerceWith_subtype_eq_ok.1 lazily
    cases described.symm.trans same
    obtain ⟨chosen, registered, bound, chosenLazily⟩ := lazy_of_resolveWith_eager narrowed
    cases chosenLazily.symm.trans narrowedLazily
    intro inner mem
    rw [List.mem_singleton.1 mem]
    exact .intro registered bound
  | list element ih =>
    rw [coerce_eq_coerceWith] at eagerly lazily
    obtain ⟨items, xs, array, eagerItems, rfl⟩ := coerceWith_list_eq_ok.1 eagerly
    obtain ⟨others, ys, same, lazyItems, rfl⟩ := coerceWith_list_eq_ok.1 lazily
    cases array.symm.trans same
    intro inner mem
    obtain ⟨own, listed, mem⟩ := mem_viewsOfItems.1 mem
    obtain ⟨item, among, lazily⟩ := exists_of_mem_right lazyItems listed
    obtain ⟨x, -, eagerly⟩ := exists_of_mem_right eagerItems.flip among
    exact ih eagerly lazily inner mem
  | _ =>
    rw [coerce_eq_coerceWith] at lazily
    intro inner mem
    rw [views_of_scalar rfl lazily] at mem
    cases mem

theorem bindable_of_bindField {field : Field} (uniform : field.mode = none)
    (eagerly : (binder.bindField schema raw .eager field).result = .ok x)
    (lazily : (binder.bindField schema raw .lazy field).result = .ok y) :
    ∀ inner ∈ y.views, binder.Bindable inner := by
  obtain ⟨members, object, lazyCases⟩ := bindFieldWith_eq_ok.1 lazily
  obtain ⟨-, -, rfl⟩ | ⟨-, -, rfl⟩ | ⟨part, found, given, lazilyRead⟩ := lazyCases
  · simp [FieldValue.views]
  · simp [FieldValue.views]
  · obtain ⟨others, same, eagerCases⟩ := bindFieldWith_eq_ok.1 eagerly
    cases object.symm.trans same
    rw [found] at eagerCases
    obtain ⟨absent, -⟩ | ⟨null, -⟩ | ⟨other, again, -, eagerlyRead⟩ := eagerCases
    · cases absent
    · exact absurd (Option.some.inj null) given
    · cases again
      rw [uniform] at eagerlyRead lazilyRead
      exact bindable_of_coerce eagerlyRead lazilyRead

theorem bindable_of_reaches {view last : View} (uniform : binder.Uniform)
    (bindable : binder.Bindable view) (reaches : binder.Reaches view last) :
    binder.Bindable last := by
  induction reaches with
  | here view => exact bindable
  | inside reads mem rest ih =>
    apply ih
    obtain ⟨registered, bound⟩ := bindable
    obtain ⟨field, declared⟩ := declared_of_read_blank reads
    rw [read_blank declared] at reads
    obtain ⟨x, -, eagerly⟩ := slot_of_bindEagerWith bound declared
    have plain := uniform _ registered field (List.mem_of_getElem? declared)
    exact bindable_of_bindField plain eagerly reads _ mem

theorem decodes_of_bindable {view : View} (bindable : binder.Bindable view) :
    binder.Decodes view := by
  obtain ⟨-, bound⟩ := bindable
  obtain ⟨members, values, object, fields, declared, -⟩ := bindEagerWith_eq_ok.1 bound
  refine decodes_blank.2 ⟨?_, ?_⟩
  · intro field mem
    obtain ⟨x, -, eagerly⟩ := exists_of_mem_right fields.flip mem
    obtain ⟨y, lazily, -⟩ := lazy_of_bindField (binder.lazyBelow _) eagerly
    exact ⟨y, lazily⟩
  · rw [object]
    exact declared

theorem forces_of_bindEager {view : View} (uniform : binder.Uniform)
    (registered : schema ∈ binder.registry.schemas)
    (bound : (binder.bindEager schema raw).result = .ok view) :
    binder.Forces (.blank schema raw .lazy) :=
  fun _ reaches => decodes_of_bindable (bindable_of_reaches uniform (.intro registered bound) reaches)

/-! ## From lazy to eager -/

/-- Objects below a depth whose lazy view can be forced can be bound eagerly. -/
def BindsBelow (binder : Binder) (depth : Nat) : Prop :=
  ∀ schema ∈ binder.registry.schemas, ∀ raw, raw.depth < depth →
    (∃ members, raw.asMembers? = some members) → binder.Forces (.blank schema raw .lazy) →
    ∃ view, (binder.bindEager schema raw).result = .ok view

/-- A value that is read lazily, with views inside that can be forced, can be read eagerly. -/
theorem eager_of_coerce {depth : Nat} (binds : binder.BindsBelow depth)
    (below : value.depth < depth) (lazily : (binder.coerce value kind .lazy).result = .ok y)
    (forced : ∀ inner ∈ y.views, binder.Forces inner) :
    ∃ x, (binder.coerce value kind .eager).result = .ok x := by
  -- Only a list goes on to other kinds; for records inside the bound on the depth takes over.
  induction kind generalizing value y with
  | record type =>
    rw [coerce_eq_coerceWith] at lazily ⊢
    obtain ⟨schema, described, object, rfl⟩ := coerceWith_record_lazy_eq_ok.1 lazily
    have forces := forced _ (List.mem_singleton.2 rfl)
    obtain ⟨view, bound⟩ := binds schema (mem_of_describe? described) value below object forces
    exact ⟨_, coerceWith_record_eager_eq_ok.2 ⟨schema, view, described, bound, rfl⟩⟩
  | subtype base =>
    rw [coerce_eq_coerceWith] at lazily ⊢
    obtain ⟨schema, variant, described, narrowed, rfl⟩ := coerceWith_subtype_eq_ok.1 lazily
    obtain ⟨chosen, registered, view_eq, object, narrow⟩ := eager_of_resolveWith_lazy narrowed
    have forces := forced _ (List.mem_singleton.2 rfl)
    rw [view_eq] at forces
    obtain ⟨other, eagerly⟩ := narrow (binds chosen registered value below object forces)
    exact ⟨_, coerceWith_subtype_eq_ok.2 ⟨schema, other, described, eagerly, rfl⟩⟩
  | list element ih =>
    rw [coerce_eq_coerceWith] at lazily ⊢
    obtain ⟨items, ys, array, each, rfl⟩ := coerceWith_list_eq_ok.1 lazily
    have eagerly : ∀ item ∈ items, ∀ y ∈ ys, (binder.coerce item element .lazy).result = .ok y →
        ∃ x, (binder.coerce item element .eager).result = .ok x ∧ True := by
      intro item mem y listed read
      have smaller := Json.depth_lt_of_item array mem
      obtain ⟨x, eagerly⟩ := ih (by omega) read fun inner among =>
        forced inner (mem_viewsOfItems.2 ⟨y, listed, among⟩)
      exact ⟨x, eagerly, trivial⟩
    obtain ⟨xs, read, -⟩ := exists_forall₂ each eagerly
    exact ⟨_, coerceWith_list_eq_ok.2 ⟨items, xs, array, read, rfl⟩⟩
  | _ =>
    rw [coerce_eq_coerceWith] at lazily ⊢
    exact ⟨y, lazily⟩

theorem eager_of_bindField {field : Field} (binds : binder.BindsBelow raw.depth)
    (uniform : field.mode = none)
    (lazily : (binder.bindField schema raw .lazy field).result = .ok y)
    (forced : ∀ inner ∈ y.views, binder.Forces inner) :
    ∃ x, (binder.bindField schema raw .eager field).result = .ok x := by
  obtain ⟨members, object, absent | null | ⟨part, found, given, read⟩⟩ :=
    bindFieldWith_eq_ok.1 lazily
  · exact ⟨y, bindFieldWith_eq_ok.2 ⟨members, object, .inl absent⟩⟩
  · exact ⟨y, bindFieldWith_eq_ok.2 ⟨members, object, .inr (.inl null)⟩⟩
  · have smaller := Json.depth_lt_of_lookup object found
    rw [uniform] at read
    obtain ⟨x, eagerly⟩ := eager_of_coerce binds smaller read forced
    refine ⟨x, bindFieldWith_eq_ok.2 ⟨members, object, .inr (.inr ⟨part, found, given, ?_⟩)⟩⟩
    rw [uniform]
    exact eagerly

theorem bindsBelow (uniform : binder.Uniform) (depth : Nat) : binder.BindsBelow depth := by
  induction depth with
  | zero =>
    intro schema registered raw below
    exact absurd below (Nat.not_lt_zero _)
  | succ depth ih =>
    rintro schema registered raw below ⟨members, object⟩ forces
    have smaller : binder.BindsBelow raw.depth := by
      intro other listed part inside
      exact ih other listed part (by omega)
    obtain ⟨binds, declared⟩ := decodes_blank.1 (forces _ (.here _))
    have eagerly : ∀ field ∈ schema.fields,
        ∃ x, (bindFieldWith binder.coerce schema raw .eager field).result = .ok x := by
      intro field mem
      obtain ⟨y, lazily⟩ := binds field mem
      obtain ⟨index, inside, rfl⟩ := List.getElem_of_mem mem
      -- Views in the field are met on the way, so they can be forced as well.
      have gives := (read_blank (List.getElem?_eq_getElem inside)).trans lazily
      refine eager_of_bindField smaller (uniform schema registered _ mem) lazily ?_
      intro inner among last reaches
      exact forces last (.inside gives among reaches)
    obtain ⟨values, bound⟩ := Outcome.exists_result_mapM eagerly
    rw [object] at declared
    exact ⟨_, bindEagerWith_eq_ok.2
      ⟨members, values, object, Outcome.result_mapM_eq_ok.1 bound, declared, rfl⟩⟩

/-! ## Both ways -/

/-- A lazy view shows the same as the eager one, when there is one, in all that can be read of it.
If no field overrides the mode there is one just when the lazy view can be forced. -/
theorem eager_agrees_with_lazy {members : List (String × Json)} {delayed : View}
    (registered : schema ∈ binder.registry.schemas) (object : raw.asMembers? = some members)
    (lazily : (binder.bind schema raw .lazy).result = .ok delayed) :
    (∀ view, (binder.bind schema raw .eager).result = .ok view →
      (binder.expand delayed).value.unmarked = (binder.expand view).value.unmarked ∧
      (binder.expand delayed).value.Complete ∧ (binder.expand view).value.Complete) ∧
    (binder.Uniform →
      ((∃ view, (binder.bind schema raw .eager).result = .ok view) ↔ binder.Forces delayed)) := by
  obtain rfl : .blank schema raw .lazy = delayed := Except.ok.inj lazily
  constructor
  · intro view bound
    refine ⟨(unmarked_expand_of_bindEager bound).symm, ?_, ?_⟩
    · exact complete_expand (tapers_blank schema raw .lazy)
    · exact complete_expand (tapers_of_bindEager bound).2
  · intro uniform
    constructor
    · rintro ⟨view, bound⟩
      exact forces_of_bindEager uniform registered bound
    · intro forces
      exact bindsBelow uniform (raw.depth + 1) schema registered raw (Nat.lt_succ_self _)
        ⟨members, object⟩ forces

def chain : Schema where
  id := "Chain"
  fields := [⟨"number", "number", false, false, .long, none⟩,
    ⟨"next", "next", true, false, .record "Chain", none⟩]
  allowsOthers := false
  base := none
  subtypes := none

def chains : Binder := ⟨⟨[Registry.openRecord, chain]⟩, .reject⟩

def twoLinks : Json :=
  .object [("next", .object [("number", .ofUInt64 2)]), ("number", .ofUInt64 1)]

theorem eager_agrees_with_lazy_chain :
    chains.Forces (.blank chain twoLinks .lazy) ∧
    ∃ view, (chains.bind chain twoLinks .eager).result = .ok view ∧
      (chains.expand (.blank chain twoLinks .lazy)).value.unmarked
        = (chains.expand view).value.unmarked := by
  have registered : chain ∈ chains.registry.schemas := by simp [chains]
  have uniform : chains.Uniform := by
    intro schema listed field mem
    simp only [chains, List.mem_cons, List.not_mem_nil, or_false] at listed
    rcases listed with rfl | rfl
    · cases mem
    · simp only [chain, List.mem_cons, List.not_mem_nil, or_false] at mem
      rcases mem with rfl | rfl <;> rfl
  obtain ⟨view, bound⟩ : ∃ view, (chains.bind chain twoLinks .eager).result = .ok view :=
    ⟨_, rfl⟩
  have lazily : (chains.bind chain twoLinks .lazy).result = .ok (.blank chain twoLinks .lazy) :=
    rfl
  obtain ⟨same, forced⟩ := eager_agrees_with_lazy registered rfl lazily
  exact ⟨(forced uniform).1 ⟨view, bound⟩, view, bound, (same view bound).1⟩

end Binder

end DebugLink
