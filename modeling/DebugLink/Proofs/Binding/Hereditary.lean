import DebugLink.Binding.Shared
import DebugLink.Proofs.Binding.Expansion

/-!
# What holds of a view and of all views inside

A property that views have when they are made, and keep when one of their fields is decoded, holds
of all views that binding makes, however deep they lie inside one another. It still does when a view
inside goes on being decoded.
-/

set_option autoImplicit false

namespace DebugLink

/-! ## A property of a view and of all views inside -/

inductive View.All (P : View → Prop) : View → Prop where
  | intro {view : View} (here : P view) (inside : ∀ inner, view.Holds inner → All P inner) :
      All P view

/-- Two views show one value as a record of one schema in one mode. -/
structure View.Alike (view other : View) : Prop where
  schema : other.schema = view.schema
  raw : other.raw = view.raw
  mode : other.mode = view.mode

mutual

def FieldValue.bases : FieldValue → List String
  | .variant base _ _ => [base]
  | .list items => basesOfItems items
  | _ => []

def basesOfItems : List FieldValue → List String
  | [] => []
  | item :: rest => item.bases ++ basesOfItems rest

end

theorem mem_basesOfItems {base : String} {items : List FieldValue} :
    base ∈ basesOfItems items ↔ ∃ item ∈ items, base ∈ item.bases := by
  induction items with
  | nil => simp [basesOfItems]
  | cons item rest ih => simp [basesOfItems, ih]

structure FieldValue.Alike (value other : FieldValue) : Prop where
  views : List.Forall₂ View.Alike value.views other.views
  bases : other.bases = value.bases

namespace View

variable {P : View → Prop} {view other inner : View}

theorem All.here (all : view.All P) : P view := by
  cases all
  assumption

theorem All.inside (all : view.All P) (holds : view.Holds inner) : inner.All P := by
  cases all with
  | intro here inside => exact inside inner holds

theorem All.of_blank {schema : Schema} {raw : Json} {mode : Mode}
    (here : P (.blank schema raw mode)) : (View.blank schema raw mode).All P := by
  refine .intro here ?_
  rintro inner ⟨value, slot, -⟩
  simp [blank, slots] at slot

theorem Alike.refl (view : View) : view.Alike view := ⟨rfl, rfl, rfl⟩

theorem Alike.trans {third : View} (first : view.Alike other) (second : other.Alike third) :
    view.Alike third :=
  ⟨second.schema.trans first.schema, second.raw.trans first.raw, second.mode.trans first.mode⟩

@[simp] theorem schema_setSlot (view : View) (index : Nat)
    (outcome : Except BindingError FieldValue) :
    (view.setSlot index outcome).schema = view.schema := rfl

@[simp] theorem mode_setSlot (view : View) (index : Nat)
    (outcome : Except BindingError FieldValue) :
    (view.setSlot index outcome).mode = view.mode := rfl

theorem slots_setSlot (view : View) (index : Nat) (outcome : Except BindingError FieldValue) :
    (view.setSlot index outcome).slots = view.slots.set index (some outcome) := rfl

theorem slot_setSlot {view : View} {index other : Nat} {slot : Slot}
    {outcome : Except BindingError FieldValue}
    (held : (view.setSlot index outcome).slots[other]? = some slot) :
    (index = other ∧ slot = some outcome) ∨ view.slots[other]? = some slot := by
  rw [slots_setSlot] at held
  by_cases same : index = other
  · subst same
    have below : index < view.slots.length := by
      simpa using (List.getElem?_eq_some_iff.1 held).1
    rw [List.getElem?_set_self below] at held
    exact .inl ⟨rfl, (Option.some.inj held).symm⟩
  · rw [List.getElem?_set_ne same] at held
    exact .inr held

theorem alike_setSlot (view : View) (index : Nat) (outcome : Except BindingError FieldValue) :
    view.Alike (view.setSlot index outcome) := ⟨rfl, rfl, rfl⟩

theorem All.setSlot {index : Nat} {outcome : Except BindingError FieldValue} (all : view.All P)
    (here : P (view.setSlot index outcome))
    (inside : ∀ value, outcome = .ok value → ∀ inner ∈ value.views, inner.All P) :
    (view.setSlot index outcome).All P := by
  refine .intro here ?_
  rintro inner ⟨value, slot, mem⟩
  rcases List.mem_or_eq_of_mem_set slot with old | new
  · exact all.inside ⟨value, old, mem⟩
  · exact inside value (Option.some.inj new).symm inner mem

end View

/-! ## The way down to a view inside -/

theorem viewsOfItems_append (front back : List FieldValue) :
    viewsOfItems (front ++ back) = viewsOfItems front ++ viewsOfItems back := by
  induction front with
  | nil => rfl
  | cons item rest ih => simp only [List.cons_append, viewsOfItems, ih, List.append_assoc]

/-- The view at some places of a value is one of the views in it, and the only one that changes
when it is changed. -/
theorem FieldValue.views_modifyViewAt (change : View → View) {target : View} {places : List Nat}
    {value : FieldValue} (found : value.viewAt? places = some target) :
    ∃ front back, value.views = front ++ target :: back ∧
      (value.modifyViewAt change places).views = front ++ change target :: back := by
  induction places generalizing value with
  | nil =>
    cases value with
    | record | variant =>
      cases found
      exact ⟨[], [], rfl, rfl⟩
    | _ => cases found
  | cons place places ih =>
    cases value with
    | list items =>
      simp only [viewAt?, Option.bind_eq_some_iff] at found
      obtain ⟨item, at_place, found⟩ := found
      obtain ⟨front, back, before, after⟩ := ih found
      obtain ⟨below, rfl⟩ := List.getElem?_eq_some_iff.1 at_place
      refine ⟨viewsOfItems (items.take place) ++ front,
        back ++ viewsOfItems (items.drop (place + 1)), ?_, ?_⟩
      · have split : items = items.take place ++ items[place] :: items.drop (place + 1) := by
          rw [← List.drop_eq_getElem_cons below, List.take_append_drop]
        change viewsOfItems items = _
        rw [split, viewsOfItems_append, viewsOfItems, before]
        simp
      · change viewsOfItems (items.modify place (modifyViewAt change places)) = _
        rw [List.modify_eq_take_cons_drop below, viewsOfItems_append, viewsOfItems, after]
        simp
    | _ => cases found

theorem basesOfItems_modify {change : FieldValue → FieldValue}
    (kept : ∀ item, (change item).bases = item.bases) (place : Nat) (items : List FieldValue) :
    basesOfItems (items.modify place change) = basesOfItems items := by
  induction items generalizing place with
  | nil => simp
  | cons item rest ih =>
    cases place with
    | zero => simp [basesOfItems, kept]
    | succ place => simp [basesOfItems, ih]

theorem FieldValue.bases_modifyViewAt (change : View → View) (places : List Nat)
    (value : FieldValue) : (value.modifyViewAt change places).bases = value.bases := by
  induction places generalizing value with
  | nil => cases value <;> rfl
  | cons place places ih =>
    cases value with
    | list items => exact basesOfItems_modify ih place items
    | _ => rfl

namespace View

variable {P : View → Prop} {view target new : View} {hops : List Hop}

theorem descend?_cons {hop : Hop} (found : view.descend? (hop :: hops) = some target) :
    ∃ value inner, view.slots[hop.field]? = some (some (.ok value)) ∧
      value.viewAt? hop.items = some inner ∧ inner.descend? hops = some target := by
  unfold descend? at found
  split at found
  · rename_i value slot
    obtain ⟨inner, at_items, rest⟩ := Option.bind_eq_some_iff.1 found
    exact ⟨value, inner, slot, at_items, rest⟩
  · cases found

theorem holds_of_viewAt? {index : Nat} {value : FieldValue} {places : List Nat} {inner : View}
    (slot : view.slots[index]? = some (some (.ok value)))
    (found : value.viewAt? places = some inner) : view.Holds inner := by
  obtain ⟨front, back, before, -⟩ := FieldValue.views_modifyViewAt id found
  exact ⟨value, List.mem_of_getElem? slot, by simp [before]⟩

theorem All.descend (all : view.All P) (found : view.descend? hops = some target) :
    target.All P := by
  induction hops generalizing view with
  | nil =>
    cases found
    exact all
  | cons hop hops ih =>
    obtain ⟨value, inner, slot, at_items, rest⟩ := descend?_cons found
    exact ih (all.inside (holds_of_viewAt? slot at_items)) rest

/-- A property that a view keeps when views inside it go on being decoded. -/
def Stable (P : View → Prop) : Prop :=
  ∀ view index value other, P view → view.slots[index]? = some (some (.ok value)) →
    value.Alike other → P (view.setSlot index (.ok other))

theorem All.modifyAt (stable : Stable P) (all : view.All P)
    (found : view.descend? hops = some target) (alike : target.Alike new) (good : new.All P) :
    (view.modifyAt (fun _ => new) hops).All P ∧ view.Alike (view.modifyAt (fun _ => new) hops) := by
  induction hops generalizing view with
  | nil =>
    cases found
    exact ⟨good, alike⟩
  | cons hop hops ih =>
    obtain ⟨value, inner, slot, at_items, rest⟩ := descend?_cons found
    obtain ⟨changed, same⟩ := ih (all.inside (holds_of_viewAt? slot at_items)) rest
    -- Of the views in the slot that is passed, the one on the way changes and the others stay.
    obtain ⟨front, back, before, after⟩ :=
      FieldValue.views_modifyViewAt (View.modifyAt (fun _ => new) hops) at_items
    have each : List.Forall₂ Alike value.views
        (value.modifyViewAt (View.modifyAt (fun _ => new) hops) hop.items).views := by
      rw [before, after]
      have unchanged : ∀ views : List View, List.Forall₂ Alike views views :=
        fun views => List.forall₂_same.2 fun view _ => Alike.refl view
      exact List.rel_append (unchanged front) (.cons same (unchanged back))
    simp only [View.modifyAt, slot]
    have whole := stable _ _ _ _ all.here slot
      ⟨each, FieldValue.bases_modifyViewAt _ hop.items value⟩
    refine ⟨all.setSlot whole ?_, alike_setSlot ..⟩
    intro other own inside mem
    cases own
    rw [after] at mem
    rcases List.mem_append.1 mem with old | new
    · exact all.inside ⟨value, List.mem_of_getElem? slot, by simp [before, old]⟩
    · rcases List.mem_cons.1 new with rfl | old
      · exact changed
      · exact all.inside ⟨value, List.mem_of_getElem? slot, by simp [before, old]⟩

end View

/-! ## What binding makes -/

namespace Binder

variable {binder : Binder} {schema : Schema} {raw value : Json} {kind : Kind} {mode : Mode}
  {x : FieldValue}

theorem bound_of_resolve {base : Schema} {variant : Variant}
    (narrowed : (binder.resolve base raw mode).result = .ok variant) :
    ∃ own ∈ binder.registry.schemas, (binder.bind own raw mode).result = .ok variant.view := by
  obtain ⟨subtypes, -, candidate, -, chosen, described, bound, -⟩ :=
    candidate_of_resolveWith narrowed
  exact ⟨chosen, mem_of_describe? described, bound⟩

/-- The views in what is read from a value are bound to registered records, over parts of the value
and in the mode of the reading. -/
theorem bound_of_coerce (read : (binder.coerce value kind mode).result = .ok x) :
    ∀ inner ∈ x.views, ∃ own ∈ binder.registry.schemas, ∃ part : Json,
      part.depth ≤ value.depth ∧ (binder.bind own part mode).result = .ok inner := by
  -- Only the kinds of lists are nested, and records in a list are bound over its items.
  induction kind generalizing value x with
  | record type =>
    rw [coerce_eq_coerceWith] at read
    cases mode with
    | eager =>
      obtain ⟨own, view, described, bound, rfl⟩ := coerceWith_record_eager_eq_ok.1 read
      intro inner mem
      rw [List.mem_singleton.1 mem]
      exact ⟨own, mem_of_describe? described, value, Nat.le_refl _, bound⟩
    | lazy =>
      obtain ⟨own, described, -, rfl⟩ := coerceWith_record_lazy_eq_ok.1 read
      intro inner mem
      rw [List.mem_singleton.1 mem]
      exact ⟨own, mem_of_describe? described, value, Nat.le_refl _, rfl⟩
  | subtype base =>
    rw [coerce_eq_coerceWith] at read
    obtain ⟨schema, variant, -, narrowed, rfl⟩ := coerceWith_subtype_eq_ok.1 read
    obtain ⟨own, listed, bound⟩ := bound_of_resolve narrowed
    intro inner mem
    rw [List.mem_singleton.1 mem]
    exact ⟨own, listed, value, Nat.le_refl _, bound⟩
  | list element ih =>
    rw [coerce_eq_coerceWith] at read
    obtain ⟨items, xs, array, each, rfl⟩ := coerceWith_list_eq_ok.1 read
    intro inner mem
    obtain ⟨y, listed, mem⟩ := mem_viewsOfItems.1 mem
    obtain ⟨item, among, read⟩ := exists_of_mem_right each listed
    obtain ⟨own, registered, part, below, bound⟩ := ih read inner mem
    have smaller := Json.depth_lt_of_item array among
    exact ⟨own, registered, part, by omega, bound⟩
  | _ =>
    rw [coerce_eq_coerceWith] at read
    intro inner mem
    rw [views_of_scalar rfl read] at mem
    cases mem

theorem bound_of_bindField {field : Field}
    (bound : (binder.bindField schema raw mode field).result = .ok x) :
    ∀ inner ∈ x.views, ∃ own ∈ binder.registry.schemas, ∃ part : Json,
      part.depth < raw.depth ∧ (binder.bind own part (field.mode.getD mode)).result = .ok inner := by
  obtain ⟨members, object, ⟨-, -, rfl⟩ | ⟨-, -, rfl⟩ | ⟨part, found, -, read⟩⟩ :=
    bindFieldWith_eq_ok.1 bound
  · simp [FieldValue.views]
  · simp [FieldValue.views]
  · have smaller := Json.depth_lt_of_lookup object found
    intro inner mem
    obtain ⟨own, registered, part, below, bound⟩ := bound_of_coerce read inner mem
    exact ⟨own, registered, part, by omega, bound⟩

/-! ## What views keep from the start -/

/-- A property that views have when they are made over given schemas, and keep when one of their
fields is decoded. -/
structure Keeps (binder : Binder) (Given : Schema → Prop) (P : View → Prop) : Prop where
  registered : ∀ schema ∈ binder.registry.schemas, Given schema
  blank : ∀ schema raw, Given schema → P (.blank schema raw .lazy)
  bound : ∀ schema raw view, Given schema → (binder.bindEager schema raw).result = .ok view →
    P view
  decoded : ∀ view index field, P view → view.slots[index]? = some none →
    view.schema.fields[index]? = some field →
    P (view.setSlot index (binder.bindField view.schema view.raw view.mode field).result)
  stable : View.Stable P

variable {Given : Schema → Prop} {P : View → Prop}

theorem all_of_bind {view : View} (keeps : binder.Keeps Given P) (given : Given schema)
    (bound : (binder.bind schema raw mode).result = .ok view) : view.All P := by
  induction raw using Json.induction_on_depth generalizing schema mode view with
  | step raw ih =>
    cases mode with
    | lazy =>
      cases bound
      exact .of_blank (keeps.blank schema raw given)
    | eager =>
      refine .intro (keeps.bound schema raw view given bound) ?_
      obtain ⟨members, values, -, fields, -, rfl⟩ := bindEagerWith_eq_ok.1 bound
      rintro inner ⟨value, slot, mem⟩
      obtain ⟨own, listed, same⟩ := List.mem_map.1 slot
      cases same
      obtain ⟨field, -, read⟩ := exists_of_mem_right fields listed
      obtain ⟨other, registered, part, smaller, bound⟩ := bound_of_bindField read inner mem
      exact ih part smaller (keeps.registered other registered) bound

theorem all_of_bindField {field : Field} (keeps : binder.Keeps Given P)
    (bound : (binder.bindField schema raw mode field).result = .ok x) :
    ∀ inner ∈ x.views, inner.All P := by
  intro inner mem
  obtain ⟨own, registered, part, -, bound⟩ := bound_of_bindField bound inner mem
  exact all_of_bind keeps (keeps.registered own registered) bound

theorem all_of_bindType {type : String} {view : View} (keeps : binder.Keeps Given P)
    (bound : (binder.bindType type raw mode).result = .ok view) : view.All P := by
  obtain ⟨schema, described, bound⟩ := Outcome.result_bind_eq_ok.1 bound
  have listed := mem_of_describe? (Outcome.result_ofOption_eq_ok.1 described)
  exact all_of_bind keeps (keeps.registered schema listed) bound

theorem all_of_resolve {base : Schema} {variant : Variant} (keeps : binder.Keeps Given P)
    (narrowed : (binder.resolve base raw mode).result = .ok variant) : variant.view.All P := by
  obtain ⟨own, registered, bound⟩ := bound_of_resolve narrowed
  exact all_of_bind keeps (keeps.registered own registered) bound

theorem all_of_reresolveAs {variant other : Variant} {sibling : String}
    (keeps : binder.Keeps Given P)
    (again : (binder.reresolveAs variant sibling).result = .ok other) : other.view.All P := by
  obtain ⟨schema, found, rest⟩ := Outcome.result_bind_eq_ok.1 again
  obtain ⟨view, bound, last⟩ := Outcome.result_bind_eq_ok.1 rest
  cases last
  have described := (Option.filter_eq_some_iff.1 (Outcome.result_ofOption_eq_ok.1 found)).1
  exact all_of_bind keeps (keeps.registered schema (mem_of_describe? described))
    (Outcome.result_mapError_eq_ok.1 bound)

end Binder

end DebugLink
