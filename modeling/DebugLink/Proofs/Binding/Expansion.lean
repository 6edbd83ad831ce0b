import DebugLink.Proofs.Binding.Budget
import DebugLink.Proofs.Binding.Reading

/-!
# Expanding reaches every view

A view in a decoded field shows a part of the raw value, so views are nested no deeper than their
raw values. The budget with which a view is expanded therefore lasts: afterwards no slot of it, nor
of any view inside, is empty.
-/

set_option autoImplicit false

namespace DebugLink

/-! ## The views inside a view -/

mutual

def FieldValue.views : FieldValue → List View
  | .record view => [view]
  | .variant _ _ view => [view]
  | .list items => viewsOfItems items
  | _ => []

def viewsOfItems : List FieldValue → List View
  | [] => []
  | item :: rest => item.views ++ viewsOfItems rest

end

theorem mem_viewsOfItems {view : View} {items : List FieldValue} :
    view ∈ viewsOfItems items ↔ ∃ item ∈ items, view ∈ item.views := by
  induction items with
  | nil => simp [viewsOfItems]
  | cons item rest ih => simp [viewsOfItems, ih]

def Kind.isScalar : Kind → Bool
  | .record _ | .subtype _ | .list _ => false
  | .boolean | .long | .double | .string | .any | .enumeration _ => true

theorem Binder.views_of_scalar {binder : Binder} {coerce : Coercion} {value : Json} {kind : Kind}
    {mode : Mode} {x : FieldValue} (scalar : kind.isScalar = true)
    (read : (binder.coerceWith coerce value kind mode).result = .ok x) : x.views = [] := by
  cases kind with
  | record | subtype | list => cases scalar
  | any =>
    cases read
    rfl
  | long =>
    obtain ⟨n, -, rfl⟩ := coerceWith_long_eq_ok.1 read
    rfl
  | enumeration constants =>
    simp only [coerceWith, Outcome.result_bind_eq_ok, Outcome.result_ofOption_eq_ok,
      Option.map_eq_some_iff] at read
    obtain ⟨-, -, -, -, rfl⟩ := read
    rfl
  | boolean | double | string =>
    simp only [coerceWith, Outcome.result_ofOption_eq_ok, Option.map_eq_some_iff] at read
    obtain ⟨-, -, rfl⟩ := read
    rfl

def View.Holds (view inner : View) : Prop :=
  ∃ value, some (.ok value) ∈ view.slots ∧ inner ∈ value.views

/-- A view has a slot for each field, and the views inside show parts of its raw value. -/
inductive View.Tapers : View → Prop where
  | intro {view : View} (sized : view.Sized)
      (smaller : ∀ inner, view.Holds inner → inner.raw.depth < view.raw.depth)
      (inside : ∀ inner, view.Holds inner → inner.Tapers) : Tapers view

inductive View.Complete : View → Prop where
  | intro {view : View} (filled : none ∉ view.slots)
      (inside : ∀ inner, view.Holds inner → inner.Complete) : Complete view

namespace Binder

variable {binder : Binder} {schema : Schema} {raw value : Json} {kind : Kind} {mode : Mode}
  {x : FieldValue}

/-- What is read from a value shows no more than the value. -/
def Fits (depth : Nat) (x : FieldValue) : Prop :=
  ∀ inner ∈ x.views, inner.raw.depth ≤ depth ∧ inner.Tapers

def FitsBelow (binder : Binder) (depth : Nat) : Prop :=
  ∀ part kind mode x, part.depth < depth → (binder.coerce part kind mode).result = .ok x →
    Fits part.depth x

theorem tapers_blank (schema : Schema) (raw : Json) (mode : Mode) :
    (View.blank schema raw mode).Tapers := by
  have empty : ∀ inner, ¬ (View.blank schema raw mode).Holds inner := by
    rintro inner ⟨value, slot, -⟩
    simp [View.blank, View.slots] at slot
  exact .intro (View.sized_blank schema raw mode) (fun inner holds => (empty inner holds).elim)
    fun inner holds => (empty inner holds).elim

theorem fits_of_bindField {field : Field} (parts : binder.FitsBelow raw.depth)
    (bound : (binder.bindField schema raw mode field).result = .ok x) :
    ∀ inner ∈ x.views, inner.raw.depth < raw.depth ∧ inner.Tapers := by
  obtain ⟨members, object, absent | null | ⟨part, found, given, coerced⟩⟩ :=
    bindFieldWith_eq_ok.1 bound
  · obtain ⟨-, -, rfl⟩ := absent
    simp [FieldValue.views]
  · obtain ⟨-, -, rfl⟩ := null
    simp [FieldValue.views]
  · have smaller := Json.depth_lt_of_lookup object found
    intro inner mem
    obtain ⟨below, tapers⟩ := parts part field.kind _ x smaller coerced inner mem
    exact ⟨by omega, tapers⟩

theorem tapers_of_bindEager_of_parts {view : View} (parts : binder.FitsBelow raw.depth)
    (bound : (binder.bindEager schema raw).result = .ok view) :
    view.raw = raw ∧ view.Tapers := by
  obtain ⟨members, values, -, fields, -, rfl⟩ := bindEagerWith_eq_ok.1 bound
  have inside : ∀ inner,
      (View.mk schema raw .eager (values.map fun value => some (.ok value))).Holds inner →
      inner.raw.depth < raw.depth ∧ inner.Tapers := by
    rintro inner ⟨value, slot, mem⟩
    obtain ⟨own, listed, same⟩ := List.mem_map.1 slot
    cases same
    obtain ⟨field, -, read⟩ := exists_of_mem_right fields listed
    exact fits_of_bindField parts read inner mem
  exact ⟨rfl, .intro (sized_of_bindEager bound) (fun inner holds => (inside inner holds).1)
    fun inner holds => (inside inner holds).2⟩

theorem fits_of_coerce_of_parts (parts : binder.FitsBelow value.depth)
    (read : (binder.coerce value kind mode).result = .ok x) : Fits value.depth x := by
  rw [coerce_eq_coerceWith] at read
  cases kind with
  | record type =>
    cases mode with
    | eager =>
      obtain ⟨schema, view, -, bound, rfl⟩ := coerceWith_record_eager_eq_ok.1 read
      obtain ⟨raw_eq, tapers⟩ := tapers_of_bindEager_of_parts parts bound
      intro inner mem
      rw [List.mem_singleton.1 mem, raw_eq]
      exact ⟨Nat.le_refl _, tapers⟩
    | lazy =>
      obtain ⟨schema, -, -, rfl⟩ := coerceWith_record_lazy_eq_ok.1 read
      intro inner mem
      rw [List.mem_singleton.1 mem]
      exact ⟨Nat.le_refl _, tapers_blank schema value .lazy⟩
  | subtype base =>
    obtain ⟨schema, variant, -, narrowed, rfl⟩ := coerceWith_subtype_eq_ok.1 read
    intro inner mem
    rw [List.mem_singleton.1 mem]
    cases mode with
    | eager =>
      obtain ⟨chosen, -, bound, -⟩ := lazy_of_resolveWith_eager narrowed
      obtain ⟨raw_eq, tapers⟩ := tapers_of_bindEager_of_parts parts bound
      rw [raw_eq]
      exact ⟨Nat.le_refl _, tapers⟩
    | lazy =>
      obtain ⟨chosen, -, view_eq, -⟩ := eager_of_resolveWith_lazy narrowed
      rw [view_eq]
      exact ⟨Nat.le_refl _, tapers_blank chosen value .lazy⟩
  | list element =>
    obtain ⟨items, xs, array, each, rfl⟩ := coerceWith_list_eq_ok.1 read
    intro inner mem
    obtain ⟨own, listed, mem⟩ := mem_viewsOfItems.1 mem
    obtain ⟨item, among, read⟩ := exists_of_mem_right each listed
    have smaller := Json.depth_lt_of_item array among
    obtain ⟨below, tapers⟩ := parts item element mode own smaller read inner mem
    exact ⟨by omega, tapers⟩
  | _ =>
    intro inner mem
    rw [views_of_scalar rfl read] at mem
    cases mem

theorem fitsBelow (binder : Binder) (depth : Nat) : binder.FitsBelow depth := by
  intro part kind mode x below read
  clear below
  induction part using Json.induction_on_depth generalizing kind mode x with
  | step part ih =>
    apply fits_of_coerce_of_parts _ read
    intro other kind mode x smaller
    exact ih other smaller kind mode x

theorem tapers_of_bindEager {view : View}
    (bound : (binder.bindEager schema raw).result = .ok view) :
    view.raw = raw ∧ view.Tapers :=
  tapers_of_bindEager_of_parts (binder.fitsBelow raw.depth) bound

/-! ## Expanded views -/

theorem tapers_of_read {view : View} {index : Nat} (tapers : view.Tapers)
    (below : index < view.slots.length) (gives : binder.read index view = .ok x) :
    ∀ inner ∈ x.views, inner.raw.depth < view.raw.depth ∧ inner.Tapers := by
  cases tapers with
  | intro sized smaller inside =>
    have slot := List.getElem?_eq_getElem below
    cases held : view.slots[index] with
    | some outcome =>
      rw [held] at slot
      rw [read_of_slot slot] at gives
      subst gives
      intro inner mem
      have holds : view.Holds inner := ⟨x, List.mem_of_getElem? slot, mem⟩
      exact ⟨smaller inner holds, inside inner holds⟩
    | none =>
      rw [held] at slot
      rw [read_of_empty slot (List.getElem?_eq_getElem (sized ▸ below))] at gives
      exact fits_of_bindField (binder.fitsBelow view.raw.depth) gives

mutual

theorem views_expandValue (expand : View → Warned View) (x : FieldValue) :
    (expandValue expand x).value.views = x.views.map fun view => (expand view).value := by
  match x with
  | .record view | .variant _ _ view => rfl
  | .list items => exact views_expandItems expand items
  | .unset | .null | .bool _ | .long _ | .double _ | .string _ | .enumeration _ | .any _ => rfl

theorem views_expandItems (expand : View → Warned View) (items : List FieldValue) :
    viewsOfItems (expandItems expand items).value
      = (viewsOfItems items).map fun view => (expand view).value := by
  match items with
  | [] => rfl
  | item :: rest =>
    simp only [expandItems, Logged.value_bind, Logged.value_pure, viewsOfItems, List.map_append,
      views_expandValue expand item, views_expandItems expand rest]

end

theorem complete_expandWithin {view : View} {budget : Nat} (tapers : view.Tapers)
    (enough : view.raw.depth < budget) : (binder.expandWithin budget view).value.Complete := by
  induction budget generalizing view with
  | zero => omega
  | succ budget ih =>
    have sized : view.Sized := by
      cases tapers
      assumption
    rw [value_expandWithin sized]
    constructor
    · simp [View.slots]
    · rintro inner ⟨value, slot, mem⟩
      obtain ⟨index, listed, own⟩ := List.mem_map.1 slot
      simp only [expanded, Option.some.injEq] at own
      cases gives : binder.read index view with
      | error error =>
        rw [gives] at own
        cases own
      | ok x =>
        rw [gives] at own
        cases own
        rw [views_expandValue] at mem
        obtain ⟨part, among, rfl⟩ := List.mem_map.1 mem
        obtain ⟨smaller, inside⟩ := tapers_of_read tapers (List.mem_range.1 listed) gives part among
        exact ih inside (by omega)

theorem complete_expand {view : View} (tapers : view.Tapers) :
    (binder.expand view).value.Complete :=
  complete_expandWithin tapers (Nat.lt_succ_self _)

end Binder

end DebugLink
