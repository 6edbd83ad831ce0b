import DebugLink.Proofs.Binding.Hereditary

/-!
# The views that a caller obtains

A caller gets views by binding values and by narrowing them, reads fields of the views it has, and
takes out the views that decoding left in them. What holds of all views when they are made, and is
kept when a field is decoded, therefore holds of every view that a caller ever sees.
-/

set_option autoImplicit false

namespace DebugLink

/-! ## What reading fields leaves -/

/-- Whatever view with a property an access reads from, it leaves one with the property, and its
errors are of a certain sort. -/
def Access.Safe {α : Type} (I : View → Prop) (F : BindingError → Prop) (reading : Access α) :
    Prop :=
  ∀ view, I view → I (reading.run.run view).value.2 ∧
    ∀ error, (reading.run.run view).value.1 = .error error → F error

namespace Access.Safe

variable {α β : Type} {I : View → Prop} {F : BindingError → Prop}

theorem pure (a : α) : (pure a : Access α).Safe I F :=
  fun _ good => ⟨good, fun _ failed => nomatch failed⟩

theorem throw {error : BindingError} (sort : F error) : (throw error : Access α).Safe I F := by
  intro view good
  refine ⟨good, ?_⟩
  intro other failed
  cases failed
  exact sort

theorem bind {x : Access α} {f : α → Access β} (first : x.Safe I F)
    (rest : ∀ a, (f a).Safe I F) : (x >>= f).Safe I F := by
  intro view good
  obtain ⟨kept, sort⟩ := first view good
  rw [Access.value_bind]
  rcases result : (x.run.run view).value with ⟨outcome, next⟩
  rw [result] at kept sort
  cases outcome with
  | error error =>
    refine ⟨kept, ?_⟩
    intro other failed
    cases failed
    exact sort error rfl
  | ok a => exact rest a next kept

theorem get_bind {f : View → Access α} (rest : ∀ view, (f view).Safe I F) :
    ((get : Access View) >>= f).Safe I F := by
  intro view good
  rw [Access.get_bind]
  exact rest view view good

theorem discard {x : Access α} (safe : x.Safe I F) : (discard x : Access Unit).Safe I F := by
  intro view good
  obtain ⟨kept, sort⟩ := safe view good
  rw [Access.value_discard]
  refine ⟨kept, ?_⟩
  intro error failed
  apply sort
  cases outcome : (x.run.run view).value.1 with
  | error other =>
    rw [outcome] at failed
    cases failed
    rfl
  | ok a =>
    rw [outcome] at failed
    cases failed

theorem forM {f : Nat → Access Unit} (each : ∀ index, (f index).Safe I F) (indices : List Nat) :
    (indices.forM f).Safe I F := by
  induction indices with
  | nil => exact pure ()
  | cons index rest ih => exact bind (each index) fun _ => ih

end Access.Safe

namespace Binder

inductive Reading (binder : Binder) : (α : Type) → Access α → Prop where
  | fieldAt (index : Nat) : Reading binder FieldValue (binder.fieldAt index)
  | fieldNamed (name : String) : Reading binder FieldValue (binder.fieldNamed name)
  | bindAll : Reading binder Unit binder.bindAll

variable {binder : Binder} {Given : Schema → Prop} {P : View → Prop}

theorem fieldAt_cases (binder : Binder) (index : Nat) (view : View) :
    (∃ outcome, view.slots[index]? = some (some outcome) ∧
      ((binder.fieldAt index).run.run view).value = (outcome, view)) ∨
    (∃ field, view.slots[index]? = some none ∧ view.schema.fields[index]? = some field ∧
      ((binder.fieldAt index).run.run view).value
        = ((binder.bindField view.schema view.raw view.mode field).result,
          view.setSlot index (binder.bindField view.schema view.raw view.mode field).result)) ∨
    ((view.slots[index]? = none ∨
        view.slots[index]? = some none ∧ view.schema.fields[index]? = none) ∧
      ((binder.fieldAt index).run.run view).value
        = (.error (.mk view.type ("#" ++ toString index) .declaredField .notDeclared), view)) := by
  cases slot : view.slots[index]? with
  | none =>
    right; right
    refine ⟨.inl rfl, ?_⟩
    change (binder.fieldAt index view).value = _
    unfold fieldAt
    simp only [slot]
    rfl
  | some held =>
    cases held with
    | some outcome =>
      left
      refine ⟨outcome, rfl, ?_⟩
      rw [fieldAt_of_slot binder slot]
      rfl
    | none =>
      right
      cases declared : view.schema.fields[index]? with
      | some field => exact .inl ⟨field, rfl, rfl, fieldAt_of_empty slot declared⟩
      | none =>
        right
        refine ⟨.inr ⟨rfl, rfl⟩, ?_⟩
        change (binder.fieldAt index view).value = _
        unfold fieldAt
        simp only [slot, declared]
        rfl

theorem Reading.safe {I : View → Prop} {F : BindingError → Prop} {α : Type} {access : Access α}
    (reading : binder.Reading α access) (each : ∀ index, (binder.fieldAt index).Safe I F)
    (notDeclared : ∀ type name, F (.mk type name .declaredField .notDeclared))
    (undeclared : ∀ type key, F (.mk type key .closedRecord .undeclaredProperty)) :
    access.Safe I F := by
  cases reading with
  | fieldAt index => exact each index
  | fieldNamed name =>
    apply Access.Safe.get_bind
    intro view
    cases view.schema.fieldIndex? name with
    | some index => exact each index
    | none => exact .throw (notDeclared view.type name)
  | bindAll =>
    apply Access.Safe.get_bind
    intro view
    apply Access.Safe.bind (.forM (fun index => .discard (each index)) _)
    intro done
    cases view.raw.asMembers?.bind view.schema.undeclared? with
    | some key => exact .throw (undeclared view.type key)
    | none => exact .pure ()

theorem all_of_fieldAt (keeps : binder.Keeps Given P) (start : View) (index : Nat) :
    (binder.fieldAt index).Safe (fun view => view.All P ∧ start.Alike view) (fun _ => True) := by
  rintro view ⟨all, alike⟩
  refine ⟨?_, fun _ _ => trivial⟩
  obtain ⟨outcome, -, read⟩ | ⟨field, empty, declared, read⟩ | ⟨-, read⟩ :=
    fieldAt_cases binder index view
  · rw [read]
    exact ⟨all, alike⟩
  · rw [read]
    refine ⟨all.setSlot (keeps.decoded view index field all.here empty declared) ?_,
      alike.trans (View.alike_setSlot ..)⟩
    intro value bound
    exact all_of_bindField keeps bound
  · rw [read]
    exact ⟨all, alike⟩

theorem Reading.all {α : Type} {access : Access α} {view : View}
    (reading : binder.Reading α access) (keeps : binder.Keeps Given P) (all : view.All P) :
    (access.run.run view).value.2.All P ∧ view.Alike (access.run.run view).value.2 :=
  (reading.safe (all_of_fieldAt keeps view) (fun _ _ => trivial)
    (fun _ _ => trivial) view ⟨all, .refl view⟩).1

end Binder

/-! ## The views of a caller -/

/-- The views that a caller may come to hold. It binds values over given schemas, narrows them, and
reads fields of the views it holds, also of those that lie inside. A view that is resolved again may
be a variant of any base. -/
inductive SharedViews.Obtained (binder : Binder) (Given : Schema → Prop) : SharedViews → Prop where
  | empty : Obtained binder Given .empty
  | bound {shared : SharedViews} {schema : Schema} {raw : Json} {mode : Mode} {view : View}
      (before : Obtained binder Given shared) (given : Given schema)
      (bound : (binder.bind schema raw mode).result = .ok view) :
      Obtained binder Given (shared.add view).2
  | boundType {shared : SharedViews} {type : String} {raw : Json} {mode : Mode} {view : View}
      (before : Obtained binder Given shared)
      (bound : (binder.bindType type raw mode).result = .ok view) :
      Obtained binder Given (shared.add view).2
  | resolved {shared : SharedViews} {base : Schema} {raw : Json} {mode : Mode} {variant : Variant}
      (before : Obtained binder Given shared) (given : Given base)
      (resolved : (binder.resolve base raw mode).result = .ok variant) :
      Obtained binder Given (shared.add variant.view).2
  | reresolved {shared : SharedViews} {key : ViewKey} {variant other : Variant} {sibling : String}
      (before : Obtained binder Given shared) (held : shared.get? key = some variant.view)
      (again : (binder.reresolveAs variant sibling).result = .ok other) :
      Obtained binder Given (shared.add other.view).2
  | narrowed {shared : SharedViews} {key : ViewKey} {variant other : Variant}
      (before : Obtained binder Given shared) (held : shared.get? key = some variant.view)
      (further : (binder.narrow variant).result = .ok other) :
      Obtained binder Given (shared.add other.view).2
  | accessed {shared : SharedViews} {key : ViewKey} {α : Type} {access : Access α}
      {outcome : Warned (Except BindingError α × SharedViews)}
      (before : Obtained binder Given shared) (reading : binder.Reading α access)
      (found : shared.access key access = some outcome) :
      Obtained binder Given outcome.value.2

namespace SharedViews

variable {binder : Binder} {Given : Schema → Prop} {P : View → Prop} {shared : SharedViews}
  {key : ViewKey} {view : View}

theorem mem_roots_of_get? (held : shared.get? key = some view) :
    ∃ root, shared.roots[key.root]? = some root ∧ root.descend? key.hops = some view :=
  Option.bind_eq_some_iff.1 held

theorem all_add (all : ∀ root ∈ shared.roots, root.All P) (new : view.All P) :
    ∀ root ∈ (shared.add view).2.roots, root.All P := by
  intro root mem
  rcases List.mem_append.1 mem with old | last
  · exact all root old
  · rw [List.mem_singleton.1 last]
    exact new

theorem all_access {α : Type} {access : Access α}
    {outcome : Warned (Except BindingError α × SharedViews)} (keeps : binder.Keeps Given P)
    (reading : binder.Reading α access) (found : shared.access key access = some outcome)
    (all : ∀ root ∈ shared.roots, root.All P) : ∀ root ∈ outcome.value.2.roots, root.All P := by
  obtain ⟨view, held, rfl⟩ := Option.map_eq_some_iff.1 found
  obtain ⟨root, at_root, descends⟩ := mem_roots_of_get? held
  have whole := all root (List.mem_of_getElem? at_root)
  obtain ⟨good, alike⟩ := reading.all keeps (whole.descend descends)
  intro other mem
  rw [Logged.value_bind] at mem
  obtain ⟨below, rfl⟩ := List.getElem?_eq_some_iff.1 at_root
  -- Only the root at which the key starts is replaced.
  change other ∈ shared.roots.modify key.root _ at mem
  rw [List.modify_eq_take_cons_drop below] at mem
  rcases List.mem_append.1 mem with front | back
  · exact all other (List.mem_of_mem_take front)
  · rcases List.mem_cons.1 back with rfl | back
    · exact (whole.modifyAt keeps.stable descends alike good).1
    · exact all other (List.mem_of_mem_drop back)

/-- A property that views have when they are made and keep when a field is decoded holds of all
views that a caller obtains. -/
theorem Obtained.all (keeps : binder.Keeps Given P) (obtained : shared.Obtained binder Given) :
    ∀ root ∈ shared.roots, root.All P := by
  induction obtained with
  | empty => simp [SharedViews.empty]
  | bound before given bound ih => exact all_add ih (Binder.all_of_bind keeps given bound)
  | boundType before bound ih => exact all_add ih (Binder.all_of_bindType keeps bound)
  | resolved before given resolved ih => exact all_add ih (Binder.all_of_resolve keeps resolved)
  | reresolved before held again ih => exact all_add ih (Binder.all_of_reresolveAs keeps again)
  | narrowed before held further ih => exact all_add ih (Binder.all_of_resolve keeps further)
  | accessed before reading found ih => exact all_access keeps reading found ih

theorem Obtained.all_of_get? (keeps : binder.Keeps Given P)
    (obtained : shared.Obtained binder Given) (held : shared.get? key = some view) :
    view.All P := by
  obtain ⟨root, at_root, descends⟩ := mem_roots_of_get? held
  exact (obtained.all keeps root (List.mem_of_getElem? at_root)).descend descends

end SharedViews

end DebugLink
