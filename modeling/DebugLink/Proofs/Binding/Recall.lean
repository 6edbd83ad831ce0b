import DebugLink.Proofs.Binding.Callers
import DebugLink.Proofs.Binding.Memory

/-!
# What callers hold has been bound

Every view that a caller comes to hold has been bound over its value, and shows what the view that
was made then would show; and a variant in a decoded field has been narrowed from the base that the
field refers to. So what is known of fresh views and variants holds of all that a caller obtains.
-/

set_option autoImplicit false

namespace DebugLink

/-! ## Views -/

namespace Binder

variable {binder : Binder} {Given : Schema → Prop} {view later : View}

theorem Recalled.of_fresh (fresh : binder.Fresh view) : binder.Recalled view :=
  ⟨view, fresh, .refl view⟩

theorem Recalled.of_bind {schema : Schema} {raw : Json} {mode : Mode}
    (bound : (binder.bind schema raw mode).result = .ok view) : binder.Recalled view :=
  .of_fresh (fresh_of_bind bound)

theorem Recalled.grow (recalled : binder.Recalled view) (grows : binder.Grows view later) :
    binder.Recalled later := by
  obtain ⟨fresh, bound, shown⟩ := recalled
  refine ⟨fresh, ?_, shown.trans grows⟩
  rw [grows.alike.schema, grows.alike.raw, grows.alike.mode]
  exact bound

theorem Reading.fills {α : Type} {access : Access α} (reading : binder.Reading α access)
    (view : View) : binder.Fills view (access.run.run view).value.2 := by
  change binder.Fills view (rest access view).value
  cases reading with
  | fieldAt index => exact binder.fills_fill view index
  | fieldNamed name =>
    rw [rest_fieldNamed]
    exact binder.fills_fillAll _ view
  | bindAll =>
    rw [rest_bindAll]
    exact binder.fills_fillAll _ view

end Binder

namespace SharedViews

variable {binder : Binder} {Given : Schema → Prop} {shared : SharedViews} {key : ViewKey}
  {view new : View}

theorem get?_add_old (shared : SharedViews) (new : View) (below : key.root < shared.roots.length) :
    (shared.add new).2.get? key = shared.get? key := by
  change ((shared.roots ++ [new])[key.root]?).bind (View.descend? key.hops) = _
  rw [List.getElem?_append_left below]
  rfl

theorem recalled_add (recalled : ∀ key view, shared.get? key = some view → binder.Recalled view)
    {schema : Schema} {raw : Json} {mode : Mode}
    (bound : (binder.bind schema raw mode).result = .ok new)
    (held : (shared.add new).2.get? key = some view) : binder.Recalled view := by
  rcases Nat.lt_trichotomy key.root shared.roots.length with old | last | beyond
  · exact recalled key view ((get?_add_old shared new old).symm.trans held)
  · exact .of_fresh (Binder.fresh_of_descend bound ((get?_add_new shared new last).symm.trans held))
  · obtain ⟨root, at_root, -⟩ := mem_roots_of_get? held
    have within := (List.getElem?_eq_some_iff.1 at_root).1
    simp only [SharedViews.add, List.length_append, List.length_singleton] at within
    omega

theorem recalled_access {α : Type} {access : Access α}
    {outcome : Warned (Except BindingError α × SharedViews)}
    (recalled : ∀ key view, shared.get? key = some view → binder.Recalled view)
    (reading : binder.Reading α access) {read : ViewKey}
    (found : shared.access read access = some outcome)
    (held : outcome.value.2.get? key = some view) : binder.Recalled view := by
  obtain ⟨own, present, rfl⟩ := Option.map_eq_some_iff.1 found
  have fills := reading.fills own
  change (shared.replace read (access.run.run own).value.2).get? key = some view at held
  cases before : shared.get? key with
  | none => exact .of_fresh (fresh_of_replace present fills before held)
  | some earlier =>
    obtain ⟨later, given, comes⟩ := comes_replace present fills before
    obtain rfl := Option.some.inj (given.symm.trans held)
    exact (recalled key earlier before).grow comes.grows

theorem Obtained.recalled (obtained : shared.Obtained binder Given)
    (held : shared.get? key = some view) : binder.Recalled view := by
  induction obtained generalizing key view with
  | empty => cases held
  | bound before given bound ih => exact recalled_add (fun _ _ => ih) bound held
  | boundType before bound ih =>
    obtain ⟨schema, -, bound⟩ := Outcome.result_bind_eq_ok.1 bound
    exact recalled_add (fun _ _ => ih) bound held
  | resolved before given resolved ih =>
    obtain ⟨own, -, bound⟩ := Binder.bound_of_resolve resolved
    exact recalled_add (fun _ _ => ih) bound held
  | reresolved before present again ih =>
    obtain ⟨schema, -, rest⟩ := Outcome.result_bind_eq_ok.1 again
    obtain ⟨own, bound, last⟩ := Outcome.result_bind_eq_ok.1 rest
    cases last
    exact recalled_add (fun _ _ => ih) (Outcome.result_mapError_eq_ok.1 bound) held
  | narrowed before present further ih =>
    obtain ⟨own, -, bound⟩ := Binder.bound_of_resolve further
    exact recalled_add (fun _ _ => ih) bound held
  | accessed before reading found ih => exact recalled_access (fun _ _ => ih) reading found held

end SharedViews

/-! ## Decoded fields -/

theorem FieldValue.itemAt?_bare (places : List Nat) (value : FieldValue) :
    value.bare.itemAt? places = (value.itemAt? places).map FieldValue.bare := by
  induction places generalizing value with
  | nil => rfl
  | cons place places ih =>
    cases value with
    | list items =>
      simp only [bare, itemAt?, bareItems_eq_map, List.getElem?_map]
      cases items[place]? with
      | none => rfl
      | some item => exact ih item
    | _ => rfl

theorem FieldValue.bare_eq_variant {value : FieldValue} {base type : String} {view : View}
    (same : value.bare = .variant base type view) :
    ∃ inner, value = .variant base type inner ∧ inner.bare = view := by
  cases value <;> cases same
  exact ⟨_, rfl, rfl⟩

namespace Binder

variable {binder : Binder} {schema : Schema} {raw value : Json} {kind : Kind} {mode : Mode}
  {x : FieldValue} {view inner : View} {base type : String} {index : Nat}

theorem read_of_bind {field : Field} (bound : (binder.bind schema raw mode).result = .ok view)
    (declared : schema.fields[index]? = some field) :
    binder.read index view = (binder.bindField schema raw mode field).result := by
  cases mode with
  | lazy =>
    cases bound
    exact read_blank declared
  | eager =>
    obtain ⟨x, slot, decodes⟩ := slot_of_bindEagerWith bound declared
    exact (read_of_slot slot).trans decodes.symm

theorem Recalled.shows {field : Field} (recalled : binder.Recalled view)
    (declared : view.schema.fields[index]? = some field) :
    binder.shows index view
      = (binder.bindField view.schema view.raw view.mode field).result.map FieldValue.bare := by
  obtain ⟨fresh, bound, grows⟩ := recalled
  rw [grows.shows index, Binder.shows, read_of_bind bound declared]

theorem resolved_of_coerce {places : List Nat}
    (read : (binder.coerce value kind mode).result = .ok x)
    (lies : x.itemAt? places = some (.variant base type inner)) :
    ∃ own ∈ binder.registry.schemas, ∃ part,
      (binder.resolve own part mode).result = .ok ⟨base, type, inner⟩ := by
  -- Only the kinds of lists are nested, and each of them takes one place.
  induction kind generalizing value x places with
  | record type =>
    rw [coerce_eq_coerceWith] at read
    cases mode with
    | eager =>
      obtain ⟨own, view, -, -, rfl⟩ := coerceWith_record_eager_eq_ok.1 read
      cases places <;> cases lies
    | lazy =>
      obtain ⟨own, -, -, rfl⟩ := coerceWith_record_lazy_eq_ok.1 read
      cases places <;> cases lies
  | subtype name =>
    rw [coerce_eq_coerceWith] at read
    obtain ⟨own, variant, described, narrowed, rfl⟩ := coerceWith_subtype_eq_ok.1 read
    cases places with
    | nil =>
      cases lies
      exact ⟨own, mem_of_describe? described, value, narrowed⟩
    | cons place places => cases lies
  | list element ih =>
    rw [coerce_eq_coerceWith] at read
    obtain ⟨items, xs, -, each, rfl⟩ := coerceWith_list_eq_ok.1 read
    cases places with
    | nil => cases lies
    | cons place places =>
      obtain ⟨y, at_place, lies⟩ := Option.bind_eq_some_iff.1 lies
      obtain ⟨item, -, read⟩ := exists_of_mem_right each (List.mem_of_getElem? at_place)
      exact ih read lies
  | _ =>
    rw [coerce_eq_coerceWith] at read
    have viewless := views_of_scalar rfl read
    have based := FieldValue.mem_bases_of_itemAt? lies
    rw [FieldValue.bases_of_viewless viewless] at based
    cases based

theorem resolved_of_bindField {field : Field} {places : List Nat}
    (bound : (binder.bindField schema raw mode field).result = .ok x)
    (lies : x.itemAt? places = some (.variant base type inner)) :
    ∃ own ∈ binder.registry.schemas, ∃ part,
      (binder.resolve own part (field.mode.getD mode)).result = .ok ⟨base, type, inner⟩ := by
  obtain ⟨members, -, ⟨-, -, rfl⟩ | ⟨-, -, rfl⟩ | ⟨part, -, -, read⟩⟩ := bindFieldWith_eq_ok.1 bound
  · cases places <;> cases lies
  · cases places <;> cases lies
  · exact resolved_of_coerce read lies

theorem Recalled.resolved {hop : Hop} (recalled : binder.Recalled view)
    (lies : view.itemAt? hop = some (.variant base type inner)) :
    ∃ own ∈ binder.registry.schemas, ∃ part mode made,
      (binder.resolve own part mode).result = .ok ⟨base, type, made⟩ ∧ made.bare = inner.bare := by
  unfold View.itemAt? at lies
  split at lies
  · rename_i x slot
    have inside : hop.field < view.schema.fields.length := by
      rw [← recalled.sized]
      exact (List.getElem?_eq_some_iff.1 slot).1
    have declared := List.getElem?_eq_getElem inside
    have shown := recalled.shows declared
    rw [Binder.shows, read_of_slot slot] at shown
    cases made : (binder.bindField view.schema view.raw view.mode
        view.schema.fields[hop.field]).result with
    | error error =>
      rw [made] at shown
      cases shown
    | ok own =>
      rw [made] at shown
      -- What was bound has a variant at the same places, but for what is decoded inside.
      have same : x.bare = own.bare := Except.ok.inj shown
      have placed := x.itemAt?_bare hop.items
      rw [same, own.itemAt?_bare, lies] at placed
      obtain ⟨item, lies, same⟩ := Option.map_eq_some_iff.1 placed
      obtain ⟨first, rfl, bare⟩ := FieldValue.bare_eq_variant same
      obtain ⟨schema, registered, part, narrowed⟩ := resolved_of_bindField made lies
      exact ⟨schema, registered, part, _, first, narrowed, bare⟩
  · cases lies

end Binder

end DebugLink
