import DebugLink.Proofs.Binding.Inversion

/-!
# Reading the fields of a view

A slot is filled with what reading its field gives, so a field reads the same before and after any
field has been read. Decoding all fields of a view is therefore a matter of each by itself.
-/

set_option autoImplicit false

namespace DebugLink

theorem View.eta (view : View) : .mk view.schema view.raw view.mode view.slots = view := by
  cases view
  rfl

def View.Sized (view : View) : Prop :=
  view.slots.length = view.schema.fields.length

theorem View.sized_blank (schema : Schema) (raw : Json) (mode : Mode) :
    (View.blank schema raw mode).Sized :=
  List.length_map _

theorem Access.value_bind {α β : Type} (x : Access α) (f : α → Access β) (view : View) :
    ((x >>= f).run.run view).value =
      match (x.run.run view).value with
      | (.ok a, next) => ((f a).run.run next).value
      | (.error e, next) => (.error e, next) := by
  rw [ExceptT.run_bind, StateT.run_bind]
  rcases x.run.run view with ⟨log, outcome, next⟩
  cases outcome <;> rfl

theorem Access.value_discard {α : Type} (x : Access α) (view : View) :
    ((discard x : Access Unit).run.run view).value
      = ((x.run.run view).value.1.map fun _ => (), (x.run.run view).value.2) := by
  have mapped : (discard x : Access Unit) = x >>= fun _ => pure () := by
    rw [bind_pure_comp]
    rfl
  rw [mapped, value_bind]
  rcases (x.run.run view).value with ⟨outcome, next⟩
  cases outcome <;> rfl

namespace Binder

def read (binder : Binder) (index : Nat) (view : View) : Except BindingError FieldValue :=
  ((binder.fieldAt index).run.run view).value.1

variable {binder : Binder} {view : View} {index : Nat}

theorem read_of_slot {outcome : Except BindingError FieldValue}
    (slot : view.slots[index]? = some (some outcome)) : binder.read index view = outcome := by
  unfold read
  rw [fieldAt_of_slot binder slot]
  rfl

theorem fieldAt_of_empty {field : Field} (empty : view.slots[index]? = some none)
    (declared : view.schema.fields[index]? = some field) :
    ((binder.fieldAt index).run.run view).value
      = ((binder.bindField view.schema view.raw view.mode field).result,
          view.setSlot index (binder.bindField view.schema view.raw view.mode field).result) := by
  change (binder.fieldAt index view).value = _
  unfold fieldAt
  simp only [empty, declared]
  rfl

theorem read_of_empty {field : Field} (empty : view.slots[index]? = some none)
    (declared : view.schema.fields[index]? = some field) :
    binder.read index view = (binder.bindField view.schema view.raw view.mode field).result := by
  unfold read
  rw [fieldAt_of_empty empty declared]

theorem read_blank {schema : Schema} {raw : Json} {mode : Mode} {field : Field}
    (declared : schema.fields[index]? = some field) :
    binder.read index (.blank schema raw mode)
      = (binder.bindField schema raw mode field).result := by
  refine read_of_empty ?_ declared
  simp only [View.blank, View.slots, List.getElem?_map, declared, Option.map_some]

theorem declared_of_read_blank {schema : Schema} {raw : Json} {mode : Mode} {x : FieldValue}
    (gives : binder.read index (.blank schema raw mode) = .ok x) :
    ∃ field, schema.fields[index]? = some field := by
  cases declared : schema.fields[index]? with
  | some field => exact ⟨field, rfl⟩
  | none =>
    change (binder.fieldAt index (.blank schema raw mode)).value.1 = .ok x at gives
    unfold fieldAt at gives
    simp only [View.blank, View.slots, View.schema, List.getElem?_map, declared,
      Option.map_none] at gives
    cases gives

theorem read_congr {other : View} (schema : other.schema = view.schema)
    (raw : other.raw = view.raw) (mode : other.mode = view.mode)
    (slot : other.slots[index]? = view.slots[index]?) :
    binder.read index other = binder.read index view := by
  change (binder.fieldAt index other).value.1 = (binder.fieldAt index view).value.1
  unfold fieldAt
  rw [schema, raw, mode, slot]
  cases view.slots[index]? with
  | none => simp [View.type, schema]
  | some slot =>
    cases slot with
    | some outcome => rfl
    | none =>
      cases view.schema.fields[index]? with
      | none => simp [View.type, schema]
      | some field => rfl

theorem sized_of_bindEager {schema : Schema} {raw : Json}
    (bound : (binder.bindEager schema raw).result = .ok view) : view.Sized := by
  obtain ⟨members, values, -, fields, -, rfl⟩ := bindEagerWith_eq_ok.1 bound
  exact (List.length_map _).trans fields.length_eq.symm

theorem value_fieldAt (sized : view.Sized) (below : index < view.slots.length) :
    ((binder.fieldAt index).run.run view).value
      = (binder.read index view, view.setSlot index (binder.read index view)) := by
  have inside : index < view.schema.fields.length := sized ▸ below
  have declared : view.schema.fields[index]? = some view.schema.fields[index] :=
    List.getElem?_eq_getElem inside
  have slot := List.getElem?_eq_getElem below
  cases held : view.slots[index] with
  | none =>
    rw [held] at slot
    rw [read_of_empty slot declared, fieldAt_of_empty slot declared]
  | some outcome =>
    rw [held] at slot
    rw [read_of_slot slot, fieldAt_of_slot binder slot]
    have same : view.setSlot index outcome = view := by
      unfold View.setSlot
      rw [← held, List.set_getElem_self]
      exact view.eta
    rw [same]
    rfl

/-! ## Decoding all fields -/

/-- A view shows the same as another, though other slots of it may be filled. -/
structure ShowsLike (binder : Binder) (view other : View) : Prop where
  schema : other.schema = view.schema
  raw : other.raw = view.raw
  mode : other.mode = view.mode
  size : other.slots.length = view.slots.length
  read : ∀ index, binder.read index other = binder.read index view

theorem ShowsLike.sized {other : View} (like : binder.ShowsLike view other) (sized : view.Sized) :
    other.Sized := by
  unfold View.Sized
  rw [like.size, like.schema]
  exact sized

theorem showsLike_setSlot (binder : Binder) (below : index < view.slots.length) :
    binder.ShowsLike view (view.setSlot index (binder.read index view)) where
  schema := rfl
  raw := rfl
  mode := rfl
  size := List.length_set
  read := by
    intro other
    by_cases same : index = other
    · subst same
      exact read_of_slot (List.getElem?_set_self below)
    · exact read_congr rfl rfl rfl (List.getElem?_set_ne same)

theorem forM_fieldAt_eq_ok (binder : Binder) {indices : List Nat} (sized : view.Sized)
    (below : ∀ index ∈ indices, index < view.slots.length) :
    ((indices.forM fun index => discard (binder.fieldAt index) : Access Unit).run.run view).value.1
        = .ok () ↔ ∀ index ∈ indices, ∃ x, binder.read index view = .ok x := by
  induction indices generalizing view with
  | nil => simp
  | cons first rest ih =>
    have bound := below first List.mem_cons_self
    have like := showsLike_setSlot binder bound
    change ((discard (binder.fieldAt first) >>= fun _ =>
      rest.forM fun index => discard (binder.fieldAt index)).run.run view).value.1 = .ok () ↔ _
    rw [Access.value_bind, Access.value_discard, value_fieldAt sized bound, List.forall_mem_cons]
    cases gives : binder.read first view with
    | error error => simp [Except.map]
    | ok x =>
      rw [gives] at like
      have others : ∀ index ∈ rest, index < (view.setSlot first (.ok x)).slots.length := by
        intro index mem
        rw [like.size]
        exact below index (List.mem_cons_of_mem first mem)
      simp only [Except.map, ih (like.sized sized) others, like.read]
      exact ⟨fun reads => ⟨⟨x, rfl⟩, reads⟩, And.right⟩

theorem bindAll_eq_ok (sized : view.Sized) :
    (binder.bindAll.run.run view).value.1 = .ok () ↔
      (∀ index < view.slots.length, ∃ x, binder.read index view = .ok x) ∧
        view.raw.asMembers?.bind view.schema.undeclared? = none := by
  have below : ∀ index ∈ List.range view.slots.length, index < view.slots.length :=
    fun index mem => List.mem_range.1 mem
  have reads := forM_fieldAt_eq_ok binder sized below
  simp only [List.mem_range] at reads
  rw [← reads]
  unfold bindAll
  rw [Access.get_bind, Access.value_bind]
  rcases (((List.range view.slots.length).forM fun index =>
    discard (binder.fieldAt index) : Access Unit).run.run view).value with ⟨outcome, next⟩
  cases outcome with
  | error error => simp
  | ok done =>
    cases view.raw.asMembers?.bind view.schema.undeclared? with
    | some key => simp
    | none => simp

/-! ## Expanding -/

@[simp] theorem value_expandItems (expand : View → Warned View) (items : List FieldValue) :
    (expandItems expand items).value = items.map fun item => (expandValue expand item).value := by
  induction items with
  | nil => rfl
  | cons item rest ih =>
    simp only [expandItems, Logged.value_bind, Logged.value_pure, ih, List.map_cons]

def expanded (binder : Binder) (budget : Nat) (view : View) (index : Nat) :
    Except BindingError FieldValue :=
  (binder.read index view).map fun x => (expandValue (binder.expandWithin budget) x).value

theorem value_expandField (binder : Binder) (budget : Nat) (sized : view.Sized)
    (below : index < view.slots.length) :
    (binder.expandField (binder.expandWithin budget) view index).value
      = view.setSlot index (binder.expanded budget view index) := by
  unfold expandField expanded
  rw [Logged.value_bind, value_fieldAt sized below]
  cases binder.read index view with
  | error error => rfl
  | ok x =>
    simp only [Logged.value_bind, Logged.value_pure, Except.map]
    simp only [View.setSlot, View.schema, View.raw, View.mode, View.slots, List.set_set]

theorem value_foldlM {ρ α β : Type} (f : β → α → Logged ρ β) (init : β) (as : List α) :
    (as.foldlM f init).value = as.foldl (fun b a => (f b a).value) init := by
  induction as generalizing init with
  | nil => rfl
  | cons a as ih =>
    rw [List.foldlM_cons, Logged.value_bind, ih]
    rfl

/-- Once the first `count` fields have been expanded, their slots are filled and the others are as
they were. -/
theorem value_expand_front (binder : Binder) (budget : Nat) (sized : view.Sized) {count : Nat}
    (below : count ≤ view.slots.length) :
    ((List.range count).foldlM (binder.expandField (binder.expandWithin budget)) view).value
      = .mk view.schema view.raw view.mode
          ((List.range count).map (fun index => some (binder.expanded budget view index))
            ++ view.slots.drop count) := by
  rw [value_foldlM]
  induction count with
  | zero => exact view.eta.symm
  | succ count ih =>
    rw [List.range_succ, List.foldl_append, ih (by omega)]
    let slots := (List.range count).map (fun index => some (binder.expanded budget view index))
      ++ view.slots.drop count
    have passed : slots.length = view.slots.length := by
      simp only [slots, List.length_append, List.length_map, List.length_range, List.length_drop]
      omega
    have kept : slots[count]? = view.slots[count]? := by
      simp only [slots]
      rw [List.getElem?_append_right (by simp), List.getElem?_drop, List.length_map,
        List.length_range, Nat.sub_self, Nat.add_zero]
    -- The slots in front do not matter to the next field, whose own slot is as it was.
    have same : binder.read count (.mk view.schema view.raw view.mode slots)
        = binder.read count view := read_congr rfl rfl rfl kept
    have frontSized : (View.mk view.schema view.raw view.mode slots).Sized := passed.trans sized
    have next := value_expandField binder budget frontSized
      (Nat.lt_of_lt_of_eq below passed.symm)
    change (binder.expandField (binder.expandWithin budget)
      (.mk view.schema view.raw view.mode slots) count).value = _
    rw [next, expanded, same]
    have replaced : slots.set count (some (binder.expanded budget view count))
        = (List.range (count + 1)).map (fun index => some (binder.expanded budget view index))
          ++ view.slots.drop (count + 1) := by
      rw [List.set_append_right _ _ (by simp), List.length_map, List.length_range, Nat.sub_self,
        List.drop_eq_getElem_cons below, List.set_cons_zero, List.range_succ, List.map_append,
        List.append_assoc]
      rfl
    rw [← List.range_succ, ← replaced]
    rfl

theorem value_expandWithin (sized : view.Sized) (budget : Nat) :
    (binder.expandWithin (budget + 1) view).value
      = .mk view.schema view.raw view.mode
          ((List.range view.slots.length).map fun index =>
            some (binder.expanded budget view index)) := by
  have all := value_expand_front binder budget sized (Nat.le_refl _)
  rw [List.drop_length, List.append_nil] at all
  exact all

end Binder

end DebugLink
