import DebugLink.Proofs.Binding.Budget
import DebugLink.Proofs.Binding.Reading

/-!
# Eager and lazy views show the same

A value that can be read eagerly can be read lazily as well. The two readings differ in what is
decoded so far and in the modes that the views inside carry; once all of it is decoded only the
modes are left.
-/

set_option autoImplicit false

namespace DebugLink

/-! ## Modes apart -/

mutual

def FieldValue.unmarked : FieldValue → FieldValue
  | .record view => .record view.unmarked
  | .variant base type view => .variant base type view.unmarked
  | .list items => .list (unmarkedItems items)
  | value => value

def unmarkedItems : List FieldValue → List FieldValue
  | [] => []
  | item :: rest => item.unmarked :: unmarkedItems rest

def View.unmarked : View → View
  | .mk schema raw _ slots => .mk schema raw .eager (unmarkedSlots slots)

def unmarkedSlots : List (Option (Except BindingError FieldValue)) →
    List (Option (Except BindingError FieldValue))
  | [] => []
  | some (.ok value) :: rest => some (.ok value.unmarked) :: unmarkedSlots rest
  | slot :: rest => slot :: unmarkedSlots rest

end

theorem unmarkedItems_eq_map (items : List FieldValue) :
    unmarkedItems items = items.map FieldValue.unmarked := by
  induction items with
  | nil => rfl
  | cons item rest ih => rw [unmarkedItems, ih, List.map_cons]

theorem unmarkedSlots_eq_map (slots : List Slot) :
    unmarkedSlots slots = slots.map (Option.map (Except.map FieldValue.unmarked)) := by
  induction slots with
  | nil => rfl
  | cons slot rest ih =>
    rw [List.map_cons, ← ih]
    match slot with
    | none => rfl
    | some (.error error) => rfl
    | some (.ok value) => rfl

namespace Binder

/-- Two readings of a value show the same once all inside them is decoded. -/
def ShowSame (binder : Binder) (budget : Nat) (x y : FieldValue) : Prop :=
  (expandValue (binder.expandWithin budget) x).value.unmarked
    = (expandValue (binder.expandWithin budget) y).value.unmarked

variable {binder : Binder} {schema : Schema} {raw value : Json} {kind : Kind} {x : FieldValue}

/-- Whatever is read eagerly below a depth is read lazily as well, and shows the same. -/
def LazyBelow (binder : Binder) (depth : Nat) : Prop :=
  ∀ part kind x, part.depth < depth → (binder.coerce part kind .eager).result = .ok x →
    ∃ y, (binder.coerce part kind .lazy).result = .ok y ∧
      ∀ budget, part.depth < budget → binder.ShowSame budget x y

/-! ## Fields -/

/-- A field that is bound eagerly is bound lazily as well. A field that overrides the mode is bound
to the very same value. -/
theorem lazy_of_bindField {field : Field} (parts : binder.LazyBelow raw.depth)
    (bound : (binder.bindField schema raw .eager field).result = .ok x) :
    ∃ y, (binder.bindField schema raw .lazy field).result = .ok y ∧
      ∀ budget, raw.depth ≤ budget → binder.ShowSame budget x y := by
  obtain ⟨members, object, absent | null | ⟨part, found, given, coerced⟩⟩ :=
    bindFieldWith_eq_ok.1 bound
  · exact ⟨x, bindFieldWith_eq_ok.2 ⟨members, object, .inl absent⟩, fun _ _ => rfl⟩
  · exact ⟨x, bindFieldWith_eq_ok.2 ⟨members, object, .inr (.inl null)⟩, fun _ _ => rfl⟩
  · have smaller := Json.depth_lt_of_lookup object found
    cases own : field.mode with
    | some mode =>
      rw [own] at coerced
      refine ⟨x, bindFieldWith_eq_ok.2 ⟨members, object, .inr (.inr ⟨part, found, given, ?_⟩)⟩,
        fun _ _ => rfl⟩
      rw [own]
      exact coerced
    | none =>
      rw [own] at coerced
      obtain ⟨y, lazily, same⟩ := parts part field.kind x smaller coerced
      refine ⟨y, bindFieldWith_eq_ok.2 ⟨members, object, .inr (.inr ⟨part, found, given, ?_⟩)⟩, ?_⟩
      · rw [own]
        exact lazily
      · intro budget enough
        exact same budget (Nat.lt_of_lt_of_le smaller enough)

/-! ## Records -/

theorem unmarked_expand_of_parts {view : View} (parts : binder.LazyBelow raw.depth)
    (bound : (binder.bindEager schema raw).result = .ok view) {budget : Nat}
    (enough : raw.depth < budget) :
    (binder.expandWithin budget view).value.unmarked
      = (binder.expandWithin budget (.blank schema raw .lazy)).value.unmarked := by
  cases budget with
  | zero => omega
  | succ budget =>
    rw [value_expandWithin (sized_of_bindEager bound),
      value_expandWithin (View.sized_blank schema raw .lazy)]
    obtain ⟨members, values, -, fields, -, view_eq⟩ := bindEagerWith_eq_ok.1 bound
    have schema_eq : view.schema = schema := schema_of_bindEagerWith bound
    have raw_eq : view.raw = raw := by rw [view_eq]; rfl
    have size : view.slots.length = (View.blank schema raw .lazy).slots.length := by
      rw [sized_of_bindEager bound, View.sized_blank, schema_eq]
      rfl
    rw [schema_eq, raw_eq, size, View.unmarked, View.unmarked, unmarkedSlots_eq_map,
      unmarkedSlots_eq_map, List.map_map, List.map_map]
    refine congrArg (View.mk schema raw .eager) (List.map_congr_left ?_)
    intro index mem
    have below : index < schema.fields.length := by
      have listed := List.mem_range.1 mem
      rwa [View.sized_blank] at listed
    obtain ⟨x, slot, eagerly⟩ :=
      slot_of_bindEagerWith bound (List.getElem?_eq_getElem below)
    obtain ⟨y, lazily, same⟩ := lazy_of_bindField parts eagerly
    have readLazily : binder.read index (.blank schema raw .lazy) = .ok y :=
      (read_blank (List.getElem?_eq_getElem below)).trans lazily
    simp only [Function.comp, expanded, read_of_slot slot, readLazily, Except.map, Option.map]
    exact congrArg (some ∘ Except.ok) (same budget (by omega))

/-! ## Values -/

theorem showSame_record {view other : View} {budget : Nat}
    (same : (binder.expandWithin budget view).value.unmarked
      = (binder.expandWithin budget other).value.unmarked) :
    binder.ShowSame budget (.record view) (.record other) :=
  congrArg FieldValue.record same

theorem showSame_variant {view other : View} {base type : String} {budget : Nat}
    (same : (binder.expandWithin budget view).value.unmarked
      = (binder.expandWithin budget other).value.unmarked) :
    binder.ShowSame budget (.variant base type view) (.variant base type other) :=
  congrArg (FieldValue.variant base type) same

theorem showSame_list {xs ys : List FieldValue} {budget : Nat}
    (same : List.Forall₂ (binder.ShowSame budget) xs ys) :
    binder.ShowSame budget (.list xs) (.list ys) := by
  have items : ∀ zs, (expandValue (binder.expandWithin budget) (.list zs)).value.unmarked
      = .list (zs.map fun z => (expandValue (binder.expandWithin budget) z).value.unmarked) := by
    intro zs
    change FieldValue.unmarked (.list (expandItems (binder.expandWithin budget) zs).value) = _
    rw [value_expandItems, FieldValue.unmarked, unmarkedItems_eq_map, List.map_map]
    rfl
  unfold ShowSame
  rw [items, items]
  refine congrArg FieldValue.list ?_
  induction same with
  | nil => rfl
  | cons head tail ih => rw [List.map_cons, List.map_cons, ih, head]

theorem lazy_of_coerce_of_parts (parts : binder.LazyBelow value.depth)
    (eagerly : (binder.coerce value kind .eager).result = .ok x) :
    ∃ y, (binder.coerce value kind .lazy).result = .ok y ∧
      ∀ budget, value.depth < budget → binder.ShowSame budget x y := by
  rw [coerce_eq_coerceWith] at eagerly ⊢
  cases kind with
  | record type =>
    obtain ⟨schema, view, described, bound, rfl⟩ := coerceWith_record_eager_eq_ok.1 eagerly
    obtain ⟨members, -, object, -⟩ := bindEagerWith_eq_ok.1 bound
    refine ⟨_, coerceWith_record_lazy_eq_ok.2 ⟨schema, described, ⟨members, object⟩, rfl⟩, ?_⟩
    intro budget enough
    exact showSame_record (unmarked_expand_of_parts parts bound enough)
  | subtype base =>
    obtain ⟨schema, variant, described, narrowed, rfl⟩ := coerceWith_subtype_eq_ok.1 eagerly
    obtain ⟨chosen, -, bound, lazily⟩ := lazy_of_resolveWith_eager narrowed
    refine ⟨_, coerceWith_subtype_eq_ok.2 ⟨schema, _, described, lazily, rfl⟩, ?_⟩
    intro budget enough
    exact showSame_variant (unmarked_expand_of_parts parts bound enough)
  | list element =>
    obtain ⟨items, xs, array, read, rfl⟩ := coerceWith_list_eq_ok.1 eagerly
    have each : ∀ item ∈ items, ∀ x ∈ xs, (binder.coerce item element .eager).result = .ok x →
        ∃ y, (binder.coerce item element .lazy).result = .ok y ∧
          ∀ budget, value.depth < budget → binder.ShowSame budget x y := by
      intro item mem x among read
      have smaller := Json.depth_lt_of_item array mem
      obtain ⟨y, lazily, same⟩ := parts item element x smaller read
      exact ⟨y, lazily, fun budget enough => same budget (by omega)⟩
    obtain ⟨ys, lazily, same⟩ := exists_forall₂ read each
    refine ⟨_, coerceWith_list_eq_ok.2 ⟨items, ys, array, lazily, rfl⟩, ?_⟩
    intro budget enough
    exact showSame_list (same.imp fun x y same => same budget enough)
  | _ => exact ⟨x, eagerly, fun _ _ => rfl⟩

theorem lazyBelow (binder : Binder) (depth : Nat) : binder.LazyBelow depth := by
  intro part kind x below eagerly
  clear below
  induction part using Json.induction_on_depth generalizing kind x with
  | step part ih =>
    apply lazy_of_coerce_of_parts _ eagerly
    intro other kind x smaller
    exact ih other smaller kind x

theorem unmarked_expand_of_bindEager {view : View}
    (bound : (binder.bindEager schema raw).result = .ok view) :
    (binder.expand view).value.unmarked
      = (binder.expand (.blank schema raw .lazy)).value.unmarked := by
  have raw_eq : view.raw = raw := by
    obtain ⟨members, values, -, -, -, rfl⟩ := bindEagerWith_eq_ok.1 bound
    rfl
  unfold expand
  rw [raw_eq]
  exact unmarked_expand_of_parts (binder.lazyBelow raw.depth) bound (Nat.lt_succ_self _)

end Binder

end DebugLink
