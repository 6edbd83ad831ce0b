import DebugLink.Proofs.Binding.Obtained

/-!
# Eager views and the modes of views inside

A view that is bound eagerly has all fields decoded without failure, and a lazy view hands its mode
on to the views inside as an eager one does. Neither changes whatever is read later.
-/

set_option autoImplicit false

namespace DebugLink

/-- An eager view has nothing left to decode and no member that is not declared, and the mode of a
view inside comes from the field or else from the view around it. -/
structure View.Settled (view : View) : Prop where
  sized : view.Sized
  filled : view.mode = .eager → ∀ slot ∈ view.slots, ∃ value : FieldValue, slot = some (.ok value)
  closed : view.mode = .eager →
    ∃ members, view.raw.asMembers? = some members ∧ view.schema.undeclared? members = none
  modes : ∀ (index : Nat) (field : Field) (value : FieldValue),
    view.slots[index]? = some (some (.ok value)) → view.schema.fields[index]? = some field →
    ∀ inner ∈ value.views, inner.mode = field.mode.getD view.mode

namespace Binder

variable {binder : Binder} {schema : Schema} {raw : Json} {mode : Mode} {x : FieldValue}

/-! ## The mode of what is read -/

theorem mode_of_bind {view : View} (bound : (binder.bind schema raw mode).result = .ok view) :
    view.mode = mode := by
  cases mode with
  | eager =>
    obtain ⟨members, values, -, -, -, rfl⟩ := bindEagerWith_eq_ok.1 bound
    rfl
  | lazy =>
    cases bound
    rfl

theorem mode_of_bindField {field : Field}
    (bound : (binder.bindField schema raw mode field).result = .ok x) :
    ∀ inner ∈ x.views, inner.mode = field.mode.getD mode := by
  intro inner mem
  obtain ⟨own, -, part, -, bound⟩ := bound_of_bindField bound inner mem
  exact mode_of_bind bound

/-! ## Views that are made, and views that are read from -/

theorem settled_blank (schema : Schema) (raw : Json) : (View.blank schema raw .lazy).Settled where
  sized := View.sized_blank schema raw .lazy
  filled := nofun
  closed := nofun
  modes := by
    intro index field value slot
    have empty := List.mem_of_getElem? slot
    simp [View.blank, View.slots] at empty

theorem settled_of_bindEager {view : View}
    (bound : (binder.bindEager schema raw).result = .ok view) : view.Settled := by
  have sized := sized_of_bindEager bound
  have same := schema_of_bindEagerWith bound
  have eager : view.mode = .eager := mode_of_bind bound
  obtain ⟨members, values, object, -, declared, view_eq⟩ := bindEagerWith_eq_ok.1 bound
  refine ⟨sized, ?_, ?_, ?_⟩
  · intro _ slot mem
    rw [view_eq] at mem
    obtain ⟨value, -, rfl⟩ := List.mem_map.1 mem
    exact ⟨value, rfl⟩
  · intro _
    rw [view_eq]
    exact ⟨members, object, declared⟩
  · intro index field value slot at_index
    rw [same] at at_index
    obtain ⟨own, held, read⟩ := slot_of_bindEagerWith bound at_index
    rw [slot] at held
    cases held
    rw [eager]
    exact mode_of_bindField read

/-- The slot that is filled is one of a lazy view. -/
theorem settled_decoded {view : View} {index : Nat} {field : Field} (settled : view.Settled)
    (empty : view.slots[index]? = some none) (declared : view.schema.fields[index]? = some field) :
    (view.setSlot index
      (binder.bindField view.schema view.raw view.mode field).result).Settled := by
  have pending : view.mode ≠ .eager := by
    intro eager
    obtain ⟨value, filled⟩ := settled.filled eager none (List.mem_of_getElem? empty)
    cases filled
  refine ⟨?_, fun eager => absurd eager pending, settled.closed, ?_⟩
  · exact List.length_set.trans settled.sized
  · intro other own value slot at_index
    rcases View.slot_setSlot slot with ⟨rfl, new⟩ | old
    · rw [View.schema_setSlot, declared] at at_index
      cases at_index
      exact mode_of_bindField (Option.some.inj new).symm
    · exact settled.modes other own value old at_index

theorem settled_stable : View.Stable View.Settled := by
  intro view index value new settled slot alike
  refine ⟨?_, ?_, settled.closed, ?_⟩
  · exact List.length_set.trans settled.sized
  · intro eager other mem
    rcases List.mem_or_eq_of_mem_set mem with old | rfl
    · exact settled.filled eager other old
    · exact ⟨new, rfl⟩
  · intro other field own held at_index inner mem
    rcases View.slot_setSlot held with ⟨rfl, same⟩ | old
    · cases same
      obtain ⟨before, among, like⟩ := exists_of_mem_right alike.views mem
      exact like.mode.trans (settled.modes index field value slot at_index before among)
    · exact settled.modes other field own old at_index inner mem

theorem keeps_settled (binder : Binder) : binder.Keeps (fun _ => True) View.Settled where
  registered := fun _ _ => trivial
  blank := fun schema raw _ => settled_blank schema raw
  bound := fun _ _ _ _ bound => settled_of_bindEager bound
  decoded := fun _ _ _ => settled_decoded
  stable := settled_stable

/-! ## What a caller sees -/

theorem fieldAt_of_settled {view : View} {index : Nat} (settled : view.Settled)
    (eager : view.mode = .eager) (below : index < view.schema.fields.length) :
    view.decodedAt index = true ∧
      ∃ value, ((binder.fieldAt index).run.run view).value = (.ok value, view) := by
  have inside : index < view.slots.length := settled.sized ▸ below
  obtain ⟨value, held⟩ := settled.filled eager _ (List.getElem_mem inside)
  have slot : view.slots[index]? = some (some (.ok value)) :=
    held ▸ List.getElem?_eq_getElem inside
  refine ⟨by simp [View.decodedAt, slot], value, ?_⟩
  rw [fieldAt_of_slot binder slot]
  rfl

theorem mode_of_fieldAt {view : View} {index : Nat} {field : Field} (settled : view.Settled)
    (declared : view.schema.fields[index]? = some field)
    (gives : ((binder.fieldAt index).run.run view).value.1 = .ok x) :
    ∀ inner ∈ x.views, inner.mode = field.mode.getD view.mode := by
  obtain ⟨outcome, slot, read⟩ | ⟨own, -, at_index, read⟩ | ⟨-, read⟩ :=
    fieldAt_cases binder index view
  · rw [read] at gives
    exact settled.modes index field x (gives ▸ slot) declared
  · rw [read] at gives
    rw [declared] at at_index
    cases at_index
    exact mode_of_bindField gives
  · rw [read] at gives
    cases gives

theorem declared_of_undeclared? {members : List (String × Json)}
    (none_left : schema.undeclared? members = none) (isClosed : schema.allowsOthers = false) :
    ∀ member ∈ members, ∃ field ∈ schema.fields, field.wire = member.1 := by
  intro member mem
  simp only [Schema.undeclared?, isClosed, Bool.false_eq_true, if_false, Option.map_eq_none_iff,
    List.find?_eq_none] at none_left
  have declared := none_left member mem
  simp only [Bool.not_eq_true', Bool.not_eq_false, Schema.declares, List.any_eq_true,
    beq_iff_eq] at declared
  exact declared

end Binder

/-- Of an eager view that a caller obtains, all declared fields are decoded and can be read, by
place or by name, and a closed record has no member that is not declared. Of any view the views
inside a field are in the mode of the field, or else in that of the view. -/
theorem SharedViews.eager_views_are_settled {binder : Binder} {shared : SharedViews} {key : ViewKey}
    {view : View} (obtained : shared.Obtained binder fun _ => True)
    (held : shared.get? key = some view) :
    (view.mode = .eager →
      (∀ index < view.schema.fields.length, view.decodedAt index = true ∧
        ∃ value, ((binder.fieldAt index).run.run view).value = (.ok value, view)) ∧
      (∀ field ∈ view.schema.fields, view.decoded field.name = true ∧
        ∃ value, ((binder.fieldNamed field.name).run.run view).value = (.ok value, view)) ∧
      ∃ members, view.raw.asMembers? = some members ∧
        (view.schema.allowsOthers = false →
          ∀ member ∈ members, ∃ field ∈ view.schema.fields, field.wire = member.1)) ∧
    ∀ index field value, view.schema.fields[index]? = some field →
      ((binder.fieldAt index).run.run view).value.1 = .ok value →
      ∀ inner ∈ value.views, inner.mode = field.mode.getD view.mode := by
  have settled :=
    (obtained.all_of_get? binder.keeps_settled held).here
  refine ⟨?_, fun index field value => Binder.mode_of_fieldAt settled⟩
  intro eager
  refine ⟨fun index => Binder.fieldAt_of_settled settled eager, ?_, ?_⟩
  · intro field mem
    cases place : view.schema.fieldIndex? field.name with
    | none =>
      have absent := List.findIdx?_eq_none_iff.1 place field mem
      simp at absent
    | some index =>
      have below : index < view.schema.fields.length :=
        (List.findIdx?_eq_some_iff_getElem.1 place).1
      rw [Binder.fieldNamed_of_index binder place, View.decoded, place]
      exact Binder.fieldAt_of_settled settled eager below
  · obtain ⟨members, object, declared⟩ := settled.closed eager
    exact ⟨members, object, Binder.declared_of_undeclared? declared⟩

def track : Schema where
  id := "Track"
  fields := [⟨"title", "title", false, false, .string, none⟩]
  allowsOthers := false
  base := none
  subtypes := none

/-- The schema of an album, whose tracks are bound eagerly in any view. -/
def album : Schema where
  id := "Album"
  fields := [⟨"tracks", "tracks", false, false, .list (.record "Track"), some .eager⟩]
  allowsOthers := true
  base := none
  subtypes := none

def albums : Binder := ⟨⟨[Registry.openRecord, track, album]⟩, .reject⟩

def twoTracks : Json :=
  .object [("tracks", .array
    [.object [("title", .string "one")], .object [("title", .string "two")]])]

theorem SharedViews.eager_views_are_settled_album :
    ∃ shared view second, SharedViews.Obtained albums (fun _ => True) shared ∧
      shared.get? ⟨0, []⟩ = some view ∧ view.mode = .lazy ∧
      shared.get? ⟨0, [⟨0, [1]⟩]⟩ = some second ∧ second.mode = .eager ∧
      second.decodedAt 0 = true ∧
      ∀ member ∈ [("title", Json.string "two")], ∃ field ∈ track.fields, field.wire = member.1 := by
  have bound : (albums.bind album twoTracks .lazy).result
      = .ok (.blank album twoTracks .lazy) := rfl
  let start := (SharedViews.empty.add (.blank album twoTracks .lazy)).2
  have opened : start.Obtained albums fun _ => True := .bound .empty trivial bound
  have found : start.access ⟨0, []⟩ (albums.fieldAt 0) = some _ := rfl
  have obtained := SharedViews.Obtained.accessed opened (.fieldAt 0) found
  obtain ⟨-, modes⟩ := eager_views_are_settled obtained (show get? _ ⟨0, []⟩ = some _ from rfl)
  obtain ⟨settled, -⟩ :=
    eager_views_are_settled obtained (show get? _ ⟨0, [⟨0, [1]⟩]⟩ = some _ from rfl)
  have eager := modes 0 _ _ rfl rfl _ (List.mem_cons_of_mem _ List.mem_cons_self)
  obtain ⟨decoded, -, members, object, declared⟩ := settled eager
  cases object
  exact ⟨_, _, _, obtained, rfl, rfl, rfl, eager, (decoded 0 (by decide)).1, declared rfl⟩

end DebugLink
