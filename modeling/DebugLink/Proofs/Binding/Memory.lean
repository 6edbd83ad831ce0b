import Mathlib.Data.List.Induction
import DebugLink.Proofs.Binding.Forcing
import DebugLink.Proofs.Binding.Inheritance
import DebugLink.Proofs.Binding.Slots

/-!
# What views remember

A view is asked again and again, through clones of it too, and so are the views inside it. Whatever
has been asked before, it answers as a fresh view of its value would; and a slot of it is filled
just when its field has been read.
-/

set_option autoImplicit false

namespace DebugLink

/-! ## Views that change inside others -/

namespace FieldValue

variable {change : View → View} {places others : List Nat} {inner : View} {value : FieldValue}

theorem viewAt?_modifyViewAt_self (change : View → View) (places : List Nat) (value : FieldValue) :
    (value.modifyViewAt change places).viewAt? places = (value.viewAt? places).map change := by
  induction places generalizing value with
  | nil => cases value <;> rfl
  | cons place places ih =>
    cases value with
    | list items =>
      simp only [modifyViewAt, viewAt?, List.getElem?_modify_eq]
      cases items[place]? with
      | none => rfl
      | some item => exact ih item
    | _ => rfl

theorem viewAt?_modifyViewAt_ne (differs : others ≠ places) :
    (value.modifyViewAt change places).viewAt? others = value.viewAt? others := by
  induction places generalizing value others with
  | nil =>
    cases others with
    | nil => exact absurd rfl differs
    | cons other others => cases value <;> rfl
  | cons place places ih =>
    cases value with
    | list items =>
      cases others with
      | nil => rfl
      | cons other others =>
        simp only [modifyViewAt, viewAt?]
        by_cases same : place = other
        · subst same
          have apart : others ≠ places := fun equal => differs (by rw [equal])
          rw [List.getElem?_modify_eq]
          cases items[place]? with
          | none => rfl
          | some item => exact ih apart
        · rw [List.getElem?_modify_ne _ _ same]
    | _ => rfl

theorem bare_modifyViewAt (found : value.viewAt? places = some inner)
    (same : (change inner).bare = inner.bare) :
    (value.modifyViewAt change places).bare = value.bare := by
  induction places generalizing value with
  | nil =>
    cases value <;> cases found
    · exact congrArg FieldValue.record same
    · exact congrArg (FieldValue.variant _ _) same
  | cons place places ih =>
    cases value with
    | list items =>
      obtain ⟨item, at_place, found⟩ := Option.bind_eq_some_iff.1 found
      obtain ⟨below, rfl⟩ := List.getElem?_eq_some_iff.1 at_place
      have kept : (items[place].modifyViewAt change places).bare = items[place].bare := ih found
      rw [modifyViewAt, List.modify_eq_set_getElem?, List.getElem?_eq_getElem below]
      change FieldValue.list (bareItems (items.set place _)) = .list (bareItems items)
      rw [bareItems_eq_map, bareItems_eq_map, List.map_set, kept, ← List.map_set,
        List.set_getElem_self]
    | _ => cases found

theorem modifyViewAt_self (found : value.viewAt? places = some inner)
    (same : change inner = inner) : value.modifyViewAt change places = value := by
  induction places generalizing value with
  | nil =>
    cases value <;> cases found
    · exact congrArg FieldValue.record same
    · exact congrArg (FieldValue.variant _ _) same
  | cons place places ih =>
    cases value with
    | list items =>
      obtain ⟨item, at_place, found⟩ := Option.bind_eq_some_iff.1 found
      obtain ⟨below, rfl⟩ := List.getElem?_eq_some_iff.1 at_place
      have kept : items[place].modifyViewAt change places = items[place] := ih found
      rw [modifyViewAt, List.modify_eq_set_getElem?, List.getElem?_eq_getElem below]
      change FieldValue.list (items.set place _) = .list items
      rw [kept, List.set_getElem_self]
    | _ => cases found

end FieldValue

namespace View

variable {binder : Binder} {view inner next : View} {hop : Hop} {hops others more : List Hop}

def held? (view : View) (index : Nat) : Option FieldValue :=
  match view.slots[index]? with
  | some (some (.ok value)) => some value
  | _ => none

theorem held?_eq_some {index : Nat} {value : FieldValue} :
    view.held? index = some value ↔ view.slots[index]? = some (some (.ok value)) := by
  unfold held?
  split
  · rename_i own slot
    simp [slot]
  · rename_i other
    exact iff_of_false nofun (other value)

theorem descend?_cons_eq (hop : Hop) (hops : List Hop) (view : View) :
    view.descend? (hop :: hops) = (view.held? hop.field).bind fun value =>
      (value.viewAt? hop.items).bind (descend? hops) := by
  rw [descend?, held?]
  rcases view.slots[hop.field]? with _ | _ | _ | _ <;> rfl

theorem modifyAt_cons (change : View → View) (hop : Hop) (hops : List Hop) (view : View) :
    view.modifyAt change (hop :: hops) = (view.held? hop.field).elim view fun value =>
      view.setSlot hop.field (.ok (value.modifyViewAt (modifyAt change hops) hop.items)) := by
  rw [modifyAt, held?]
  rcases view.slots[hop.field]? with _ | _ | _ | _ <;> rfl

theorem held?_setSlot_self {index : Nat} {value other : FieldValue}
    (held : view.held? index = some value) :
    (view.setSlot index (.ok other)).held? index = some other := by
  have below := (List.getElem?_eq_some_iff.1 (held?_eq_some.1 held)).1
  exact held?_eq_some.2 (List.getElem?_set_self below)

theorem held?_setSlot_ne {index other : Nat} {outcome : Except BindingError FieldValue}
    (differs : index ≠ other) : (view.setSlot index outcome).held? other = view.held? other := by
  unfold held?
  rw [slots_setSlot, List.getElem?_set_ne differs]

theorem descend?_append (view : View) (hops more : List Hop) :
    view.descend? (hops ++ more) = (view.descend? hops).bind (descend? more) := by
  induction hops generalizing view with
  | nil => rfl
  | cons hop hops ih =>
    rw [List.cons_append, descend?_cons_eq, descend?_cons_eq, Option.bind_assoc]
    refine Option.bind_congr fun value _ => ?_
    rw [Option.bind_assoc]
    exact Option.bind_congr fun inner _ => ih inner

/-- On the way down into a view that changes one comes to what has changed. -/
theorem descend?_modifyAt_inside (change : View → View) (view : View) (hops more : List Hop) :
    (view.modifyAt change hops).descend? (hops ++ more)
      = (view.descend? hops).bind fun inner => (change inner).descend? more := by
  induction hops generalizing view with
  | nil => rfl
  | cons hop hops ih =>
    rw [List.cons_append, descend?_cons_eq, descend?_cons_eq, modifyAt_cons]
    cases held : view.held? hop.field with
    | none => simp [held]
    | some value =>
      simp only [Option.elim_some, held?_setSlot_self held, Option.bind_some,
        FieldValue.viewAt?_modifyViewAt_self, Option.bind_map, Option.bind_assoc]
      exact Option.bind_congr fun inner _ => ih inner

theorem descend?_modifyAt_around (change : View → View) (view : View) (hops more : List Hop) :
    (view.modifyAt change (hops ++ more)).descend? hops
      = (view.descend? hops).map (modifyAt change more) := by
  induction hops generalizing view with
  | nil => rfl
  | cons hop hops ih =>
    rw [List.cons_append, descend?_cons_eq, descend?_cons_eq, modifyAt_cons]
    cases held : view.held? hop.field with
    | none => simp [held]
    | some value =>
      simp only [Option.elim_some, held?_setSlot_self held, Option.bind_some,
        FieldValue.viewAt?_modifyViewAt_self, Option.bind_map, Option.map_bind]
      exact Option.bind_congr fun inner _ => ih inner

theorem descend?_modifyAt_apart (change : View → View) (view : View) {hops others : List Hop}
    (inside : ¬ hops <+: others) (around : ¬ others <+: hops) :
    (view.modifyAt change hops).descend? others = view.descend? others := by
  induction hops generalizing view others with
  | nil => exact absurd List.nil_prefix inside
  | cons hop hops ih =>
    cases others with
    | nil => exact absurd List.nil_prefix around
    | cons other others =>
      rw [descend?_cons_eq, descend?_cons_eq, modifyAt_cons]
      cases held : view.held? hop.field with
      | none => rfl
      | some value =>
        rw [Option.elim_some]
        by_cases field : hop.field = other.field
        · rw [← field, held?_setSlot_self held, held, Option.bind_some, Option.bind_some]
          by_cases items : other.items = hop.items
          · have same : hop = other := by
              cases hop
              cases other
              simp_all
            subst same
            rw [FieldValue.viewAt?_modifyViewAt_self, Option.bind_map]
            refine Option.bind_congr fun inner _ => ih inner ?_ ?_
            · exact fun before => inside (List.cons_prefix_cons.2 ⟨rfl, before⟩)
            · exact fun before => around (List.cons_prefix_cons.2 ⟨rfl, before⟩)
          · rw [FieldValue.viewAt?_modifyViewAt_ne items]
        · rw [held?_setSlot_ne field]

theorem decodedAt_setSlot_held {index : Nat} {value other : FieldValue}
    (held : view.held? index = some value) :
    (view.setSlot index (.ok other)).decodedAt = view.decodedAt := by
  funext place
  have slot := held?_eq_some.1 held
  have below := (List.getElem?_eq_some_iff.1 slot).1
  unfold decodedAt
  by_cases same : index = place
  · subst same
    rw [slots_setSlot, List.getElem?_set_self below, slot]
    rfl
  · rw [slots_setSlot, List.getElem?_set_ne same]

theorem setSlot_self {index : Nat} {outcome : Except BindingError FieldValue}
    (filled : view.slots[index]? = some (some outcome)) : view.setSlot index outcome = view := by
  obtain ⟨below, slot⟩ := List.getElem?_eq_some_iff.1 filled
  unfold setSlot
  rw [← slot, List.set_getElem_self]
  exact view.eta

theorem modifyAt_self {change : View → View} (found : view.descend? hops = some inner)
    (same : change inner = inner) : view.modifyAt change hops = view := by
  induction hops generalizing view with
  | nil =>
    cases found
    exact same
  | cons hop hops ih =>
    rw [descend?_cons_eq] at found
    obtain ⟨value, held, found⟩ := Option.bind_eq_some_iff.1 found
    obtain ⟨first, at_items, found⟩ := Option.bind_eq_some_iff.1 found
    rw [modifyAt_cons, held, Option.elim_some, FieldValue.modifyViewAt_self at_items (ih found)]
    exact setSlot_self (held?_eq_some.1 held)

theorem decodedAt_modifyAt (change : View → View) (hop : Hop) (hops : List Hop) (view : View) :
    (view.modifyAt change (hop :: hops)).decodedAt = view.decodedAt := by
  rw [modifyAt_cons]
  cases held : view.held? hop.field with
  | none => rfl
  | some value => exact decodedAt_setSlot_held held

theorem grows_setSlot {index : Nat} {value other : FieldValue}
    (held : view.held? index = some value) (same : other.bare = value.bare) :
    binder.Grows view (view.setSlot index (.ok other)) where
  alike := alike_setSlot ..
  size := List.length_set
  filled := by
    intro place filled
    rwa [decodedAt_setSlot_held held]
  shows := by
    intro place
    have slot := held?_eq_some.1 held
    have below := (List.getElem?_eq_some_iff.1 slot).1
    unfold Binder.shows
    by_cases own : index = place
    · subst own
      have set : (view.setSlot index (.ok other)).slots[index]? = some (some (.ok other)) :=
        List.getElem?_set_self below
      rw [Binder.read_of_slot set, Binder.read_of_slot slot]
      exact congrArg Except.ok same
    · have apart : binder.read place (view.setSlot index (.ok other)) = binder.read place view :=
        Binder.read_congr rfl rfl rfl (List.getElem?_set_ne own)
      rw [apart]

theorem grows_modifyAt (found : view.descend? hops = some inner) (grows : binder.Grows inner next) :
    binder.Grows view (view.modifyAt (fun _ => next) hops) := by
  induction hops generalizing view with
  | nil =>
    cases found
    exact grows
  | cons hop hops ih =>
    rw [descend?_cons_eq] at found
    obtain ⟨value, held, found⟩ := Option.bind_eq_some_iff.1 found
    obtain ⟨first, at_items, found⟩ := Option.bind_eq_some_iff.1 found
    rw [modifyAt_cons, held]
    exact grows_setSlot held (FieldValue.bare_modifyViewAt at_items (ih found).alike.bare)

end View

/-! ## Views that are shared -/

def ViewKey.Within (inner outer : ViewKey) : Prop :=
  inner.root = outer.root ∧ outer.hops <+: inner.hops

def Binder.Fresh (binder : Binder) (view : View) : Prop :=
  (binder.bind view.schema view.raw view.mode).result = .ok view

def Binder.Recalled (binder : Binder) (view : View) : Prop :=
  ∃ fresh, (binder.bind view.schema view.raw view.mode).result = .ok fresh ∧
    binder.Grows fresh view

namespace Binder

variable {binder : Binder} {schema : Schema} {raw : Json} {mode : Mode} {view inner next : View}
  {hops : List Hop}

theorem fresh_of_bind (bound : (binder.bind schema raw mode).result = .ok view) :
    binder.Fresh view := by
  have own := mode_of_bind bound
  unfold Fresh
  cases mode with
  | eager =>
    rw [schema_of_bindEagerWith bound, raw_of_bindEagerWith bound, own]
    exact bound
  | lazy =>
    cases bound
    rfl

theorem sized_of_bind (bound : (binder.bind schema raw mode).result = .ok view) : view.Sized := by
  cases mode with
  | eager => exact sized_of_bindEager bound
  | lazy =>
    cases bound
    exact View.sized_blank ..

theorem Recalled.sized (recalled : binder.Recalled view) : view.Sized := by
  obtain ⟨fresh, bound, grows⟩ := recalled
  have sized := sized_of_bind bound
  unfold View.Sized
  rw [grows.size, grows.alike.schema]
  exact sized

theorem decodedAt_of_bind (bound : (binder.bind schema raw mode).result = .ok view) {index : Nat}
    (below : index < view.schema.fields.length) :
    view.decodedAt index = true ↔ mode = .eager := by
  cases mode with
  | eager =>
    rw [schema_of_bindEagerWith bound] at below
    obtain ⟨x, slot, -⟩ := slot_of_bindEagerWith bound (List.getElem?_eq_getElem below)
    simp [View.decodedAt, slot]
  | lazy =>
    cases bound
    have declared : schema.fields[index]? = some schema.fields[index] :=
      List.getElem?_eq_getElem below
    have empty : (View.blank schema raw .lazy).slots[index]? = some none := by
      simp only [View.blank, View.slots, List.getElem?_map, declared, Option.map_some]
    simp [View.decodedAt, empty]

/-- What lies in a view that has just been made has been made along with it. -/
theorem fresh_of_descend (bound : (binder.bind schema raw mode).result = .ok view)
    (found : view.descend? hops = some inner) : binder.Fresh inner := by
  induction hops generalizing schema raw mode view with
  | nil =>
    cases found
    exact fresh_of_bind bound
  | cons hop hops ih =>
    obtain ⟨value, first, slot, at_items, rest⟩ := View.descend?_cons found
    obtain ⟨front, back, views, -⟩ := FieldValue.views_modifyViewAt id at_items
    cases mode with
    | lazy =>
      cases bound
      have empty := List.mem_of_getElem? slot
      simp [View.blank, View.slots] at empty
    | eager =>
      obtain ⟨members, values, -, fields, -, rfl⟩ := bindEagerWith_eq_ok.1 bound
      obtain ⟨own, listed, same⟩ := List.mem_map.1 (List.mem_of_getElem? slot)
      cases same
      obtain ⟨field, -, read⟩ := exists_of_mem_right fields listed
      obtain ⟨other, -, part, -, made⟩ := bound_of_bindField read first (by simp [views])
      exact ih made rest

theorem fresh_of_fills (fills : binder.Fills view next) {hop : Hop}
    (absent : view.descend? (hop :: hops) = none)
    (found : next.descend? (hop :: hops) = some inner) : binder.Fresh inner := by
  obtain ⟨value, first, slot, at_items, rest⟩ := View.descend?_cons found
  obtain ⟨front, back, views, -⟩ := FieldValue.views_modifyViewAt id at_items
  obtain same | ⟨field, -, -, filled⟩ := fills.slot hop.field
  · have held := View.held?_eq_some.2 (same ▸ slot)
    rw [View.descend?_cons_eq, held, Option.bind_some, at_items] at absent
    cases rest.symm.trans absent
  · have read := Option.some.inj (Option.some.inj (slot.symm.trans filled))
    obtain ⟨other, -, part, -, made⟩ := bound_of_bindField read.symm first (by simp [views])
    exact fresh_of_descend made rest

theorem descend?_of_fills (fills : binder.Fills view next) {hop : Hop}
    (found : view.descend? (hop :: hops) = some inner) :
    next.descend? (hop :: hops) = some inner := by
  obtain ⟨value, first, slot, at_items, rest⟩ := View.descend?_cons found
  rw [View.descend?_cons_eq, View.held?_eq_some.2 (fills.slot_of_filled slot), Option.bind_some,
    at_items]
  exact rest

end Binder

namespace SharedViews

variable {binder : Binder} {shared : SharedViews} {key other : ViewKey}
  {view next before later : View}

theorem get?_replace_of_root (view : View) (apart : other.root ≠ key.root) :
    (shared.replace key view).get? other = shared.get? other := by
  unfold get? replace
  rw [List.getElem?_modify_ne _ _ (Ne.symm apart)]

theorem get?_replace (view : View) (same : other.root = key.root) :
    (shared.replace key view).get? other = (shared.roots[key.root]?).bind fun root =>
      (root.modifyAt (fun _ => view) key.hops).descend? other.hops := by
  unfold get? replace
  rw [same, List.getElem?_modify_eq]
  cases shared.roots[key.root]? <;> rfl

theorem get?_replace_inside (held : shared.get? key = some view) (next : View) {more : List Hop}
    (root : other.root = key.root) (hops : key.hops ++ more = other.hops) :
    (shared.replace key next).get? other = next.descend? more ∧
      shared.get? other = view.descend? more := by
  obtain ⟨top, at_root, descends⟩ := mem_roots_of_get? held
  rw [get?_replace next root, get?, root, at_root, Option.bind_some, Option.bind_some, ← hops,
    View.descend?_modifyAt_inside, View.descend?_append, descends]
  exact ⟨rfl, rfl⟩

theorem get?_replace_self (held : shared.get? key = some view) (next : View) :
    (shared.replace key next).get? key = some next :=
  (get?_replace_inside held next rfl (List.append_nil _)).1

theorem replace_self (held : shared.get? key = some view) : shared.replace key view = shared := by
  obtain ⟨top, at_root, descends⟩ := mem_roots_of_get? held
  obtain ⟨below, rfl⟩ := List.getElem?_eq_some_iff.1 at_root
  unfold replace
  rw [List.modify_eq_set_getElem?, at_root]
  change SharedViews.mk (shared.roots.set key.root _) = _
  rw [View.modifyAt_self descends rfl, List.set_getElem_self]

theorem get?_replace_around (held : shared.get? key = some view) (next : View) {more : List Hop}
    (root : other.root = key.root) (hops : other.hops ++ more = key.hops)
    (found : shared.get? other = some before) :
    (shared.replace key next).get? other = some (before.modifyAt (fun _ => next) more) ∧
      before.descend? more = some view := by
  obtain ⟨top, at_root, descends⟩ := mem_roots_of_get? held
  rw [get?, root, at_root, Option.bind_some] at found
  rw [get?_replace next root, at_root, Option.bind_some, ← hops, View.descend?_modifyAt_around,
    found]
  rw [← hops, View.descend?_append, found] at descends
  exact ⟨rfl, descends⟩

theorem get?_replace_apart (next : View) (inside : ¬ other.Within key)
    (around : ¬ key.Within other) :
    (shared.replace key next).get? other = shared.get? other := by
  by_cases root : other.root = key.root
  · rw [get?_replace next root, get?, root]
    refine Option.bind_congr fun top _ => View.descend?_modifyAt_apart _ top ?_ ?_
    · exact fun before => inside ⟨root, before⟩
    · exact fun before => around ⟨root.symm, before⟩
  · exact get?_replace_of_root next root

/-- How a view that is held comes out once slots of one view have been filled: a view around that
one has decoded no more, and a view that is not around it is as it was. -/
structure Comes (binder : Binder) (key other : ViewKey) (before later : View) : Prop where
  grows : binder.Grows before later
  around : other ≠ key → later.decodedAt = before.decodedAt
  apart : ¬ key.Within other → later = before

theorem Comes.refl (binder : Binder) (key other : ViewKey) (view : View) :
    Comes binder key other view view :=
  ⟨.refl view, fun _ => rfl, fun _ => rfl⟩

theorem comes_replace (held : shared.get? key = some view) (fills : binder.Fills view next)
    (found : shared.get? other = some before) :
    ∃ later, (shared.replace key next).get? other = some later ∧
      Comes binder key other before later := by
  by_cases inside : other.Within key
  · obtain ⟨root, more, hops⟩ := inside
    obtain ⟨after, whole⟩ := get?_replace_inside held next root hops
    rw [found] at whole
    cases more with
    | nil =>
      cases whole
      have same : other = key := by
        cases other
        cases key
        simp_all
      refine ⟨next, after, fills.grows, fun differs => absurd same differs, fun outside => ?_⟩
      exact absurd ⟨root.symm, by simp [same]⟩ outside
    | cons hop rest =>
      rw [Binder.descend?_of_fills fills whole.symm] at after
      exact ⟨before, after, .refl ..⟩
  · by_cases around : key.Within other
    · obtain ⟨root, more, hops⟩ := around
      obtain ⟨after, whole⟩ := get?_replace_around held next root.symm hops found
      refine ⟨_, after, View.grows_modifyAt whole fills.grows, fun _ => ?_, fun outside => ?_⟩
      · cases more with
        | nil => exact absurd ⟨root.symm, by simp [← hops]⟩ inside
        | cons hop rest => exact View.decodedAt_modifyAt ..
      · exact absurd ⟨root, more, hops⟩ outside
    · exact ⟨before, (get?_replace_apart next inside around).trans found, .refl ..⟩

/-- A view that is held only once slots of another have been filled has just been made. -/
theorem fresh_of_replace (held : shared.get? key = some view) (fills : binder.Fills view next)
    (absent : shared.get? other = none)
    (found : (shared.replace key next).get? other = some later) :
    binder.Fresh later := by
  by_cases inside : other.Within key
  · obtain ⟨root, more, hops⟩ := inside
    obtain ⟨after, whole⟩ := get?_replace_inside held next root hops
    rw [absent] at whole
    rw [found] at after
    cases more with
    | nil => cases whole
    | cons hop rest => exact Binder.fresh_of_fills fills whole.symm after.symm
  · by_cases around : key.Within other
    · -- A view around one that is held is held itself.
      obtain ⟨root, more, hops⟩ := around
      obtain ⟨top, at_root, descends⟩ := mem_roots_of_get? held
      rw [get?, ← root, at_root, Option.bind_some] at absent
      rw [← hops, View.descend?_append, absent] at descends
      cases descends
    · rw [get?_replace_apart next inside around, absent] at found
      cases found

end SharedViews

/-! ## Visits -/

structure Visit where
  key : ViewKey
  query : Query

namespace SharedViews

variable {binder : Binder} {shared start : SharedViews} {key other : ViewKey}
  {view next before later : View} {visit : Visit} {visits more : List Visit} {index : Nat}

/-- The answer to a visit and the views after it; none when there is no such view. -/
def answer (binder : Binder) (shared : SharedViews) (visit : Visit) :
    Option (Warned (Except BindingError Answer × SharedViews)) :=
  shared.access visit.key (visit.query.access binder shared)

def visited (binder : Binder) (shared : SharedViews) (visit : Visit) : SharedViews :=
  match shared.answer binder visit with
  | some result => result.value.2
  | none => shared

def after (binder : Binder) (shared : SharedViews) (visits : List Visit) : SharedViews :=
  visits.foldl (SharedViews.visited binder) shared

def Accessed (binder : Binder) (start : SharedViews) (visits : List Visit) (key : ViewKey)
    (index : Nat) : Prop :=
  ∃ before visit rest view, visits = before ++ visit :: rest ∧ visit.key = key ∧
    (start.after binder before).get? key = some view ∧ index ∈ visit.query.reads binder view

theorem after_append (binder : Binder) (shared : SharedViews) (visits more : List Visit) :
    shared.after binder (visits ++ more) = (shared.after binder visits).after binder more :=
  List.foldl_append ..

theorem visited_of_held (held : shared.get? visit.key = some view) :
    shared.visited binder visit = shared.replace visit.key
      (binder.fillAll (visit.query.reads binder view) view).value := by
  rw [← Binder.rest_access binder shared]
  unfold visited answer access
  rw [held]
  rfl

theorem visited_of_absent (absent : shared.get? visit.key = none) :
    shared.visited binder visit = shared := by
  unfold visited answer access
  rw [absent]
  rfl

theorem comes_visited (binder : Binder) (visit : Visit) (found : shared.get? other = some before) :
    ∃ later, (shared.visited binder visit).get? other = some later ∧
      Comes binder visit.key other before later := by
  cases held : shared.get? visit.key with
  | none =>
    rw [visited_of_absent held]
    exact ⟨before, found, .refl ..⟩
  | some view =>
    rw [visited_of_held held]
    exact comes_replace held (Binder.fills_fillAll ..) found

theorem fresh_of_visited (absent : shared.get? other = none)
    (found : (shared.visited binder visit).get? other = some later) : binder.Fresh later := by
  cases held : shared.get? visit.key with
  | none =>
    rw [visited_of_absent held, absent] at found
    cases found
  | some view =>
    rw [visited_of_held held] at found
    exact fresh_of_replace held (Binder.fills_fillAll ..) absent found

theorem grows_after (binder : Binder) (visits : List Visit)
    (found : shared.get? key = some before) :
    ∃ later, (shared.after binder visits).get? key = some later ∧ binder.Grows before later := by
  induction visits generalizing shared before with
  | nil => exact ⟨before, found, .refl before⟩
  | cons visit rest ih =>
    obtain ⟨next, held, comes⟩ := comes_visited binder visit found
    obtain ⟨later, held, grows⟩ := ih held
    exact ⟨later, held, comes.grows.trans grows⟩

theorem accessed_nil : ¬ Accessed binder start [] key index := by
  rintro ⟨before, visit, rest, view, split, -⟩
  simp at split

theorem accessed_append_singleton :
    Accessed binder start (visits ++ [visit]) key index ↔
      Accessed binder start visits key index ∨
        (visit.key = key ∧ ∃ view, (start.after binder visits).get? key = some view ∧
          index ∈ visit.query.reads binder view) := by
  constructor
  · rintro ⟨before, own, rest, view, split, rfl, held, reads⟩
    rcases List.eq_nil_or_concat' rest with rfl | ⟨front, last, rfl⟩
    · obtain ⟨rfl, same⟩ := List.append_inj' split rfl
      cases same
      exact .inr ⟨rfl, view, held, reads⟩
    · rw [← List.cons_append, ← List.append_assoc] at split
      obtain ⟨rfl, -⟩ := List.append_inj' split rfl
      exact .inl ⟨before, own, front, view, rfl, rfl, held, reads⟩
  · rintro (⟨before, own, rest, view, rfl, rfl, held, reads⟩ | ⟨rfl, view, held, reads⟩)
    · exact ⟨before, own, rest ++ [visit], view, by simp, rfl, held, reads⟩
    · exact ⟨visits, visit, [], view, rfl, rfl, held, reads⟩

theorem held_of_accessed (accessed : Accessed binder start visits key index) :
    ∃ view, (start.after binder visits).get? key = some view := by
  obtain ⟨before, visit, rest, view, rfl, rfl, held, -⟩ := accessed
  obtain ⟨later, held, -⟩ := grows_after binder (visit :: rest) held
  exact ⟨later, by rw [after_append]; exact held⟩

/-- A view shows what a fresh view of its value shows, and what is decoded of it is what has been
read, or all of it if the view is eager. -/
structure Recalls (binder : Binder) (start : SharedViews) (visits : List Visit) (key : ViewKey)
    (view : View) : Prop where
  fresh : ∃ fresh, (binder.bind view.schema view.raw view.mode).result = .ok fresh ∧
    binder.Grows fresh view
  decoded : ∀ index < view.schema.fields.length,
    (view.decodedAt index = true ↔ view.mode = .eager ∨ Accessed binder start visits key index)

theorem recalls_of_fresh (fresh : binder.Fresh view)
    (unread : ∀ index, ¬ Accessed binder start visits key index) :
    Recalls binder start visits key view where
  fresh := ⟨view, fresh, .refl view⟩
  decoded := fun index below => by
    rw [Binder.decodedAt_of_bind fresh below]
    exact (or_iff_left (unread index)).symm

theorem recalls_visited (visit : Visit)
    (recalled : ∀ view, (start.after binder visits).get? key = some view →
      Recalls binder start visits key view)
    (found : (start.after binder (visits ++ [visit])).get? key = some later) :
    Recalls binder start (visits ++ [visit]) key later := by
  rw [after_append] at found
  change ((start.after binder visits).visited binder visit).get? key = some later at found
  cases held : (start.after binder visits).get? key with
  | none =>
    refine recalls_of_fresh (fresh_of_visited held found) fun index accessed => ?_
    obtain earlier | ⟨-, view, given, -⟩ := accessed_append_singleton.1 accessed
    · obtain ⟨view, given⟩ := held_of_accessed earlier
      cases held.symm.trans given
    · cases held.symm.trans given
  | some before =>
    have recalls := recalled before held
    obtain ⟨own, given, comes⟩ := comes_visited binder visit held
    obtain rfl : own = later := Option.some.inj (given.symm.trans found)
    obtain ⟨fresh, bound, grows⟩ := recalls.fresh
    have alike := comes.grows.alike
    refine ⟨⟨fresh, ?_, grows.trans comes.grows⟩, fun index below => ?_⟩
    · rw [alike.schema, alike.raw, alike.mode]
      exact bound
    · rw [alike.schema] at below
      rw [accessed_append_singleton, alike.mode, ← or_assoc, ← recalls.decoded index below]
      by_cases same : key = visit.key
      · subst same
        rw [visited_of_held held, get?_replace_self held] at found
        obtain rfl := Option.some.inj found
        rw [Binder.decodedAt_fillAll (Binder.Recalled.sized recalls.fresh) below]
        simp [held]
      · rw [comes.around same]
        simp [Ne.symm same]

theorem get?_add_new (shared : SharedViews) (view : View) (root : key.root = shared.roots.length) :
    (shared.add view).2.get? key = view.descend? key.hops := by
  change ((shared.roots ++ [view])[key.root]?).bind (View.descend? key.hops) = _
  rw [root, List.getElem?_append_right (Nat.le_refl _), Nat.sub_self]
  rfl

theorem recalls_after {schema : Schema} {raw : Json} {mode : Mode} {top : View}
    (bound : (binder.bind schema raw mode).result = .ok top) (shared : SharedViews)
    (root : key.root = shared.roots.length)
    (found : ((shared.add top).2.after binder visits).get? key = some view) :
    Recalls binder (shared.add top).2 visits key view := by
  induction visits using List.reverseRecOn generalizing view with
  | nil =>
    have inside := (get?_add_new shared top root).symm.trans found
    exact recalls_of_fresh (Binder.fresh_of_descend bound inside) fun _ => accessed_nil
  | append_singleton visits visit ih => exact recalls_visited visit (fun _ => ih) found

/-! ## What is remembered -/

structure Remembers (binder : Binder) (start : SharedViews) (visits : List Visit) (key : ViewKey)
    (view : View) : Prop where
  /-- It answers as a fresh view of its value does. -/
  answers : ∃ fresh, (binder.bind view.schema view.raw view.mode).result = .ok fresh ∧
    ∀ (shared : SharedViews) (query : Query), (∀ name, query ≠ .isDecoded name) →
      (query.ask binder shared view).map Answer.bare
        = (query.ask binder shared fresh).map Answer.bare
  /-- A slot is filled when its field has been read, or from the start in an eager view. -/
  filled : ∀ index < view.schema.fields.length,
    (view.decodedAt index = true ↔ view.mode = .eager ∨ Accessed binder start visits key index)
  reported : ∀ shared name, ∃ decoded,
    (Query.isDecoded name).ask binder shared view = .ok (.truth decoded) ∧
    (decoded = true ↔ ∃ index, view.schema.fieldIndex? name = some index ∧
      (view.mode = .eager ∨ Accessed binder start visits key index))
  /-- All fields are read in order up to the first that fails. -/
  all : Query.bindAll.reads binder view <+: List.range view.schema.fields.length ∧
    ∀ index < view.schema.fields.length, index ∈ Query.bindAll.reads binder view ↔
      ∀ earlier < index, ∃ x, binder.read earlier view = .ok x

/-- How a visit to a view is served. -/
structure Serves (binder : Binder) (shared : SharedViews) (visit : Visit) (view : View)
    (result : Warned (Except BindingError Answer × SharedViews)) : Prop where
  answer : result.value.1 = visit.query.ask binder shared view
  /-- But for the answer, fields of the view are read one after another. -/
  effect : Prod.snd <$> result = shared.replace visit.key <$>
    binder.fillAll (visit.query.reads binder view) view
  /-- Slots that are filled are looked up, and nothing changes or is reported. -/
  still : (∀ index ∈ visit.query.reads binder view, view.decodedAt index = true) →
    Prod.snd <$> result = pure shared
  /-- Views that do not hold the one that is visited are as they were. -/
  apart : ∀ key other, shared.get? key = some other → ¬ visit.key.Within key →
    result.value.2.get? key = some other
  /-- A view in the answer is the one that is found inside the slot from then on. -/
  inside : ∀ answer places inner, result.value.1 = .ok answer → answer.viewAt? places = some inner →
    ∃ index, visit.query.reads binder view = [index] ∧
      result.value.2.get? (visit.key.inside ⟨index, places⟩) = some inner

theorem remembers_of_recalls (recalls : Recalls binder start visits key view) :
    Remembers binder start visits key view where
  answers := by
    obtain ⟨fresh, bound, grows⟩ := recalls.fresh
    exact ⟨fresh, bound, fun shared query reading => grows.ask shared reading⟩
  filled := recalls.decoded
  reported := by
    intro shared name
    refine ⟨view.decoded name, rfl, ?_⟩
    unfold View.decoded
    cases place : view.schema.fieldIndex? name with
    | none => simp
    | some index =>
      have below : index < view.schema.fields.length :=
        (List.findIdx?_eq_some_iff_getElem.1 place).1
      simpa using recalls.decoded index below
  all := by
    have sized := Binder.Recalled.sized recalls.fresh
    unfold Query.reads
    rw [sized]
    refine ⟨Binder.prefix_reached .., fun index below => ?_⟩
    rw [Binder.mem_reached_range]
    exact and_iff_right below

theorem serves_of_held (binder : Binder) (held : shared.get? visit.key = some view) :
    ∃ result, shared.answer binder visit = some result ∧
      Serves binder shared visit view result := by
  let access := visit.query.access binder shared
  let next := (binder.fillAll (visit.query.reads binder view) view).value
  have rest : Binder.rest access view = binder.fillAll (visit.query.reads binder view) view :=
    binder.rest_access shared visit.query view
  have fills : binder.Fills view next := Binder.fills_fillAll ..
  have answered : shared.answer binder visit = some (access.run.run view >>= fun (outcome, next) =>
      pure (outcome, shared.replace visit.key next)) := by
    rw [answer, SharedViews.access, held]
    rfl
  refine ⟨_, answered, ?_⟩
  have after : (access.run.run view).value.2 = next := congrArg Logged.value rest
  have later : (access.run.run view >>= fun (outcome, next) =>
      (pure (outcome, shared.replace visit.key next) : Warned _)).value.2
        = shared.replace visit.key next := by
    rw [← after]
    rfl
  have effect : Prod.snd <$> (access.run.run view >>= fun (outcome, next) =>
      (pure (outcome, shared.replace visit.key next) : Warned _))
        = shared.replace visit.key <$> binder.fillAll (visit.query.reads binder view) view := by
    rw [← rest, Binder.rest, Functor.map_map, map_bind, ← bind_pure_comp]
    rfl
  refine ⟨rfl, effect, ?_, ?_, ?_⟩
  · intro filled
    rw [effect, Binder.fillAll_of_decoded filled, map_pure, replace_self held]
  · intro key other found outside
    obtain ⟨last, found, comes⟩ := comes_replace held fills found
    rw [later, found, comes.apart outside]
  · intro answer places inner answered lies
    obtain ⟨index, value, reads, slot, at_places⟩ := Binder.slot_of_answer answered lies
    refine ⟨index, reads, ?_⟩
    have one : next = (binder.fill view index).value := by
      change (binder.fillAll (visit.query.reads binder view) view).value = _
      rw [reads]
      rfl
    have root : (visit.key.inside ⟨index, places⟩).root = visit.key.root := rfl
    have hops : visit.key.hops ++ [⟨index, places⟩] = (visit.key.inside ⟨index, places⟩).hops := rfl
    rw [later, (get?_replace_inside held next root hops).1, View.descend?_cons_eq, one,
      View.held?_eq_some.2 slot, Option.bind_some, at_places]
    rfl

/-- A view that is bound, and every view inside it, answers after any visits as a fresh view of its
value does; a slot of it is filled just when its field has been read. It keeps its type, its mode,
its value and what has been decoded of it, and it is left alone by visits to the views around it.
An eager view is built as one that is asked for all its fields. -/
theorem slots_memoise {schema : Schema} {raw : Json} {mode : Mode} {top : View}
    (bound : (binder.bind schema raw mode).result = .ok top) (shared : SharedViews)
    (visits : List Visit) :
    let start := (shared.add top).2
    (∀ key view, key.root = shared.roots.length →
      (start.after binder visits).get? key = some view → Remembers binder start visits key view) ∧
    (∀ key view more, (start.after binder visits).get? key = some view →
      ∃ later, (start.after binder (visits ++ more)).get? key = some later ∧
        binder.Grows view later) ∧
    (∀ visit view, (start.after binder visits).get? visit.key = some view →
      ∃ result, (start.after binder visits).answer binder visit = some result ∧
        Serves binder (start.after binder visits) visit view result) ∧
    ∀ members, raw.asMembers? = some members →
      (binder.bind schema raw .eager).run = (do
        let (outcome, whole) ← binder.bindAll.run.run (.blank schema raw .eager)
        pure (outcome.map fun _ => whole)) := by
  refine ⟨fun key view root found => ?_, fun key view more found => ?_, fun visit view held => ?_,
    fun members object => binder.run_bindEager schema object⟩
  · exact remembers_of_recalls (recalls_after bound shared root found)
  · rw [after_append]
    exact grows_after binder more found
  · exact serves_of_held binder held

/-- The second link of a chain is taken out and its number is read twice. -/
def linkVisits : List Visit :=
  [⟨⟨0, []⟩, .typed .record "next"⟩, ⟨⟨0, [⟨1, []⟩]⟩, .field "number"⟩,
    ⟨⟨0, [⟨1, []⟩]⟩, .typed .long "number"⟩]

theorem slots_memoise_chain :
    let start := (empty.add (.blank Binder.chain Binder.twoLinks .lazy)).2
    (Binder.chains.bind Binder.chain Binder.twoLinks .lazy).result
      = .ok (.blank Binder.chain Binder.twoLinks .lazy) ∧
    ∃ link, (start.after Binder.chains linkVisits).get? ⟨0, [⟨1, []⟩]⟩ = some link ∧
      link.decodedAt 0 = true ∧ Accessed Binder.chains start linkVisits ⟨0, [⟨1, []⟩]⟩ 0 ∧
      link.decodedAt 1 = false ∧ ¬ Accessed Binder.chains start linkVisits ⟨0, [⟨1, []⟩]⟩ 1 := by
  have bound : (Binder.chains.bind Binder.chain Binder.twoLinks .lazy).result
      = .ok (.blank Binder.chain Binder.twoLinks .lazy) := rfl
  obtain ⟨link, found, delayed, first, second, fields⟩ : ∃ link,
      ((empty.add (.blank Binder.chain Binder.twoLinks .lazy)).2.after
        Binder.chains linkVisits).get? ⟨0, [⟨1, []⟩]⟩ = some link ∧ link.mode = .lazy ∧
      link.decodedAt 0 = true ∧ link.decodedAt 1 = false ∧ link.schema.fields.length = 2 :=
    ⟨_, rfl, rfl, rfl, rfl, rfl⟩
  have remembers := (slots_memoise bound empty linkVisits).1 _ link rfl found
  refine ⟨bound, link, found, first, ?_, second, fun accessed => ?_⟩
  · obtain eager | accessed := (remembers.filled 0 (by omega)).1 first
    · cases delayed.symm.trans eager
    · exact accessed
  · have filled := (remembers.filled 1 (by omega)).2 (.inr accessed)
    cases second.symm.trans filled

end SharedViews

end DebugLink
