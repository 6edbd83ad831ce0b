import DebugLink.Proofs.Binding.Extension

/-!
# Asking views

A view is asked for fields, by place, by name or by type, for all its fields, for what has been
decoded of it, and whether it equals another view. Whatever is asked, some fields are read one after
another; a slot is filled when its field is read for the first time, and with the outcome that a
fresh view would give.
-/

set_option autoImplicit false

namespace DebugLink

/-! ## Queries -/

inductive Accessor where
  | boolean
  | long
  | double
  | string
  | any
  | record
  | variant
  | list

/-- What an accessor shows of a decoded field: nothing, if it is for another type. -/
def Accessor.read : Accessor → FieldValue → Option FieldValue
  | .boolean, x => x.asBool?.map .bool
  | .long, x => x.asLong?.map .long
  | .double, x => x.asDouble?.map .double
  | .string, x => x.asString?.map .string
  | .any, x => x.asAny?.map .any
  | .record, x => x.asRecord?.map .record
  | .variant, x => x.asVariant?.map fun variant => .variant variant.base variant.type variant.view
  | .list, x => x.asList?.map .list

inductive Query where
  | fieldAt (index : Nat)
  | field (name : String)
  | typed (accessor : Accessor) (name : String)
  | bindAll
  | isDecoded (name : String)
  /-- Whether the view equals the one that another key names. -/
  | equals (other : ViewKey)

inductive Answer where
  | value (x : FieldValue)
  | shown (x : Option FieldValue)
  | done
  | truth (holds : Bool)

namespace Query

def access (binder : Binder) (shared : SharedViews) : Query → Access Answer
  | .fieldAt index => .value <$> binder.fieldAt index
  | .field name => .value <$> binder.fieldNamed name
  | .typed accessor name => (fun x => .shown (accessor.read x)) <$> binder.fieldNamed name
  | .bindAll => (fun _ => .done) <$> binder.bindAll
  | .isDecoded name => do return .truth ((← get).decoded name)
  | .equals other => do
    let view ← get
    return .truth ((shared.get? other).any view.equal)

def ask (binder : Binder) (shared : SharedViews) (query : Query) (view : View) :
    Except BindingError Answer :=
  ((query.access binder shared).run.run view).value.1

end Query

namespace Binder

/-- The indices up to and including the first at which a view cannot be read. -/
def reached (binder : Binder) (view : View) : List Nat → List Nat
  | [] => []
  | index :: rest =>
    index :: if (binder.read index view).isOk then binder.reached view rest else []

def fill (binder : Binder) (view : View) (index : Nat) : Warned View :=
  Prod.snd <$> (binder.fieldAt index).run.run view

def fillAll (binder : Binder) (indices : List Nat) (view : View) : Warned View :=
  indices.foldlM binder.fill view

end Binder

def Query.reads (binder : Binder) (view : View) : Query → List Nat
  | .fieldAt index => [index]
  | .field name | .typed _ name => (view.schema.fieldIndex? name).toList
  | .bindAll => binder.reached view (List.range view.slots.length)
  | .isDecoded _ | .equals _ => []

/-! ## Fields without what is decoded inside -/

def View.bare (view : View) : View :=
  .blank view.schema view.raw view.mode

mutual

def FieldValue.bare : FieldValue → FieldValue
  | .record view => .record view.bare
  | .variant base type view => .variant base type view.bare
  | .list items => .list (bareItems items)
  | value => value

def bareItems : List FieldValue → List FieldValue
  | [] => []
  | item :: rest => item.bare :: bareItems rest

end

theorem bareItems_eq_map (items : List FieldValue) :
    bareItems items = items.map FieldValue.bare := by
  induction items with
  | nil => rfl
  | cons item rest ih => rw [bareItems, ih, List.map_cons]

def Answer.bare : Answer → Answer
  | .value x => .value x.bare
  | .shown x => .shown (x.map FieldValue.bare)
  | answer => answer

theorem View.Alike.bare {view other : View} (alike : view.Alike other) :
    other.bare = view.bare := by
  unfold View.bare
  rw [alike.schema, alike.raw, alike.mode]

theorem Accessor.read_bare (accessor : Accessor) (x : FieldValue) :
    accessor.read x.bare = (accessor.read x).map FieldValue.bare := by
  cases accessor <;> cases x <;> rfl

/-! ## Reading fields for their slots -/

/-- A slot of a view has been filled with what reading its field gives, or it is as it was. -/
structure Binder.Fills (binder : Binder) (view next : View) : Prop where
  alike : view.Alike next
  size : next.slots.length = view.slots.length
  slot : ∀ index : Nat, next.slots[index]? = view.slots[index]? ∨
    ∃ field, view.slots[index]? = some none ∧ view.schema.fields[index]? = some field ∧
      next.slots[index]? =
        some (some (binder.bindField view.schema view.raw view.mode field).result)

namespace Binder

variable {binder : Binder} {view next last : View} {index other : Nat} {indices : List Nat}

theorem Fills.refl (view : View) : binder.Fills view view :=
  ⟨.refl view, rfl, fun _ => .inl rfl⟩

theorem Fills.trans (first : binder.Fills view next) (second : binder.Fills next last) :
    binder.Fills view last := by
  refine ⟨first.alike.trans second.alike, second.size.trans first.size, fun index => ?_⟩
  obtain ⟨schema, raw, mode⟩ := first.alike
  obtain same | ⟨field, empty, declared, filled⟩ := second.slot index
  · rw [same]
    exact first.slot index
  · rw [schema] at declared filled
    rw [raw, mode] at filled
    obtain before | ⟨own, _, _, earlier⟩ := first.slot index
    · exact .inr ⟨field, before ▸ empty, declared, filled⟩
    · cases empty.symm.trans earlier

theorem Fills.slot_of_filled (fills : binder.Fills view next)
    {outcome : Except BindingError FieldValue} (filled : view.slots[index]? = some (some outcome)) :
    next.slots[index]? = some (some outcome) := by
  obtain same | ⟨-, empty, -⟩ := fills.slot index
  · exact same.trans filled
  · cases filled.symm.trans empty

theorem Fills.read (fills : binder.Fills view next) (index : Nat) :
    binder.read index next = binder.read index view := by
  obtain same | ⟨field, empty, declared, filled⟩ := fills.slot index
  · exact read_congr fills.alike.schema fills.alike.raw fills.alike.mode same
  · rw [read_of_slot filled, read_of_empty empty declared]

theorem Fills.sized (fills : binder.Fills view next) (sized : view.Sized) : next.Sized := by
  unfold View.Sized
  rw [fills.size, fills.alike.schema]
  exact sized

theorem fills_fill (binder : Binder) (view : View) (index : Nat) :
    binder.Fills view (binder.fill view index).value := by
  change binder.Fills view ((binder.fieldAt index).run.run view).value.2
  obtain ⟨outcome, -, read⟩ | ⟨field, empty, declared, read⟩ | ⟨-, read⟩ :=
    fieldAt_cases binder index view
  · rw [read]
    exact .refl view
  · rw [read]
    refine ⟨View.alike_setSlot .., List.length_set, fun other => ?_⟩
    by_cases same : index = other
    · subst same
      refine .inr ⟨field, empty, declared, List.getElem?_set_self ?_⟩
      exact (List.getElem?_eq_some_iff.1 empty).1
    · exact .inl (List.getElem?_set_ne same)
  · rw [read]
    exact .refl view

theorem value_fillAll (binder : Binder) (indices : List Nat) (view : View) :
    (binder.fillAll indices view).value
      = indices.foldl (fun view index => (binder.fill view index).value) view :=
  value_foldlM ..

theorem fills_fillAll (binder : Binder) (indices : List Nat) (view : View) :
    binder.Fills view (binder.fillAll indices view).value := by
  rw [value_fillAll]
  induction indices generalizing view with
  | nil => exact .refl view
  | cons index rest ih => exact (binder.fills_fill view index).trans (ih _)

theorem slot_of_decodedAt (filled : view.decodedAt index = true) :
    ∃ outcome, view.slots[index]? = some (some outcome) := by
  unfold View.decodedAt at filled
  match slot : view.slots[index]? with
  | none | some none => simp [slot] at filled
  | some (some outcome) => exact ⟨outcome, rfl⟩

theorem fillAll_of_decoded (filled : ∀ index ∈ indices, view.decodedAt index = true) :
    binder.fillAll indices view = pure view := by
  induction indices with
  | nil => rfl
  | cons index rest ih =>
    obtain ⟨first, others⟩ := List.forall_mem_cons.1 filled
    obtain ⟨outcome, slot⟩ := slot_of_decodedAt first
    have looked : binder.fill view index = pure view := by
      rw [fill, fieldAt_of_slot binder slot, map_pure]
    rw [fillAll, List.foldlM_cons, looked, pure_bind]
    exact ih others

theorem decodedAt_fill (sized : view.Sized) (below : other < view.schema.fields.length) :
    (binder.fill view index).value.decodedAt other = true ↔
      view.decodedAt other = true ∨ other = index := by
  have inside : other < view.slots.length := sized ▸ below
  change ((binder.fieldAt index).run.run view).value.2.decodedAt other = true ↔ _
  by_cases same : other = index
  · subst same
    rw [value_fieldAt sized inside]
    simp [View.decodedAt, View.slots_setSlot, inside]
  · have apart : ((binder.fieldAt index).run.run view).value.2.slots[other]?
        = view.slots[other]? := by
      obtain ⟨outcome, -, read⟩ | ⟨field, -, -, read⟩ | ⟨-, read⟩ :=
        fieldAt_cases binder index view <;> rw [read]
      exact List.getElem?_set_ne (Ne.symm same)
    simp [View.decodedAt, apart, same]

theorem decodedAt_fillAll (sized : view.Sized) (below : other < view.schema.fields.length) :
    (binder.fillAll indices view).value.decodedAt other = true ↔
      view.decodedAt other = true ∨ other ∈ indices := by
  rw [value_fillAll]
  induction indices generalizing view with
  | nil => simp
  | cons index rest ih =>
    have fills := binder.fills_fill view index
    rw [List.foldl_cons, ih (fills.sized sized) (by rwa [fills.alike.schema]),
      decodedAt_fill sized below, List.mem_cons, or_assoc]

theorem reached_congr (same : ∀ index, binder.read index next = binder.read index view)
    (indices : List Nat) : binder.reached next indices = binder.reached view indices := by
  induction indices with
  | nil => rfl
  | cons index rest ih => rw [reached, reached, same, ih]

/-- The indices that are reached are those before which every field can be read. -/
theorem mem_reached_range' {start count : Nat} :
    index ∈ binder.reached view (List.range' start count) ↔
      start ≤ index ∧ index < start + count ∧
        ∀ earlier, start ≤ earlier → earlier < index → ∃ x, binder.read earlier view = .ok x := by
  induction count generalizing start with
  | zero =>
    refine iff_of_false (by simp [reached]) ?_
    rintro ⟨above, below, -⟩
    omega
  | succ count ih =>
    change index ∈ start :: (if (binder.read start view).isOk then
      binder.reached view (List.range' (start + 1) count) else []) ↔ _
    cases read : binder.read start view with
    | error error =>
      constructor
      · intro mem
        obtain rfl : index = start := by simpa [Except.isOk, Except.toBool] using mem
        exact ⟨Nat.le_refl _, by omega, fun earlier above below => by omega⟩
      · rintro ⟨above, below, reads⟩
        rcases Nat.eq_or_lt_of_le above with rfl | after
        · exact List.mem_cons_self
        · obtain ⟨x, given⟩ := reads start (Nat.le_refl _) after
          cases read.symm.trans given
    | ok x =>
      simp only [Except.isOk, Except.toBool, if_true, List.mem_cons, ih]
      constructor
      · rintro (rfl | ⟨above, below, reads⟩)
        · exact ⟨Nat.le_refl _, by omega, fun earlier above below => by omega⟩
        · refine ⟨by omega, by omega, fun earlier least before => ?_⟩
          rcases Nat.eq_or_lt_of_le least with rfl | after
          · exact ⟨x, read⟩
          · exact reads earlier after before
      · rintro ⟨above, below, reads⟩
        rcases Nat.eq_or_lt_of_le above with rfl | after
        · exact .inl rfl
        · exact .inr ⟨after, by omega, fun earlier least before => reads earlier (by omega) before⟩

theorem mem_reached_range {count : Nat} :
    index ∈ binder.reached view (List.range count) ↔
      index < count ∧ ∀ earlier < index, ∃ x, binder.read earlier view = .ok x := by
  rw [List.range_eq_range', mem_reached_range']
  simp

theorem prefix_reached (binder : Binder) (view : View) (indices : List Nat) :
    binder.reached view indices <+: indices := by
  induction indices with
  | nil => exact List.prefix_rfl
  | cons index rest ih =>
    refine List.cons_prefix_cons.2 ⟨rfl, ?_⟩
    split
    · exact ih
    · exact List.nil_prefix

end Binder

/-! ## Every query reads fields one after another -/

theorem Access.run_map {α β : Type} (f : α → β) (x : Access α) (view : View) :
    (f <$> x).run.run view = (fun (outcome, next) => (outcome.map f, next)) <$> x.run.run view := by
  rw [ExceptT.run_map, StateT.run_map]

theorem Access.outcome_map {α β : Type} (f : α → β) (x : Access α) (view : View) :
    ((f <$> x).run.run view).value.1 = (x.run.run view).value.1.map f := by
  rw [Access.run_map]
  rfl

theorem Access.outcome_map_eq_ok {α β : Type} {f : α → β} {x : Access α} {view : View} {b : β}
    (gives : ((f <$> x).run.run view).value.1 = .ok b) :
    ∃ a, (x.run.run view).value.1 = .ok a ∧ f a = b := by
  rw [Access.outcome_map] at gives
  cases outcome : (x.run.run view).value.1 with
  | error error =>
    rw [outcome] at gives
    cases gives
  | ok a =>
    rw [outcome] at gives
    exact ⟨a, rfl, Except.ok.inj gives⟩

namespace Binder

variable {binder : Binder} {view next : View} {index : Nat} {indices : List Nat}

/-- What is left of an access but for its outcome. -/
def rest {α : Type} (x : Access α) (view : View) : Warned View :=
  Prod.snd <$> x.run.run view

theorem rest_map {α β : Type} (f : α → β) (x : Access α) (view : View) :
    rest (f <$> x) view = rest x view := by
  unfold rest
  rw [Access.run_map, Functor.map_map]

theorem rest_bind {α β : Type} (x : Access α) (f : α → Access β) (view : View) :
    rest (x >>= f) view = x.run.run view >>= fun result =>
      match result with
      | (.ok a, next) => rest (f a) next
      | (.error _, next) => pure next := by
  unfold rest
  rw [ExceptT.run_bind, StateT.run_bind, map_bind]
  refine bind_congr fun (outcome, next) => ?_
  cases outcome <;> rfl

theorem discard_eq_map {α : Type} (x : Access α) :
    (discard x : Access Unit) = (fun _ => ()) <$> x := rfl

theorem rest_forM (binder : Binder) (indices : List Nat) (view : View) :
    rest (indices.forM fun index => discard (binder.fieldAt index)) view
      = binder.fillAll (binder.reached view indices) view := by
  induction indices generalizing view with
  | nil => rfl
  | cons index others ih =>
    change rest (discard (binder.fieldAt index) >>= fun _ =>
      others.forM fun index => discard (binder.fieldAt index)) view
        = binder.fill view index >>= binder.fillAll _
    rw [rest_bind, discard_eq_map, Access.run_map, fill, bind_map_left, bind_map_left]
    have fills := binder.fills_fill view index
    have same : ((binder.fieldAt index).run.run view).value.1 = binder.read index view := rfl
    refine Logged.bind_congr ?_
    change binder.Fills view ((binder.fieldAt index).run.run view).value.2 at fills
    generalize ((binder.fieldAt index).run.run view).value = result at fills same
    obtain ⟨outcome, next⟩ := result
    dsimp only at fills same ⊢
    rw [← same]
    cases outcome with
    | error error => rfl
    | ok x =>
      rw [← reached_congr fills.read]
      exact ih next

theorem rest_bindAll (binder : Binder) (view : View) :
    rest binder.bindAll view
      = binder.fillAll (binder.reached view (List.range view.slots.length)) view := by
  rw [← rest_forM]
  change rest ((List.range view.slots.length).forM (fun index => discard (binder.fieldAt index)) >>=
    fun _ => _) view = _
  rw [rest_bind, rest, ← bind_pure_comp]
  refine bind_congr fun (outcome, next) => ?_
  cases outcome with
  | error error => rfl
  | ok done =>
    dsimp only
    cases view.raw.asMembers?.bind view.schema.undeclared? <;> rfl

theorem rest_fieldNamed (binder : Binder) (name : String) (view : View) :
    rest (binder.fieldNamed name) view
      = binder.fillAll (view.schema.fieldIndex? name).toList view := by
  cases place : view.schema.fieldIndex? name with
  | some index =>
    unfold rest
    rw [fieldNamed_of_index binder place]
    exact (bind_pure _).symm
  | none =>
    unfold rest fieldNamed
    rw [Access.get_bind, place]
    rfl

/-- But for the answer, a query does what reading its fields one after another does. -/
theorem rest_access (binder : Binder) (shared : SharedViews) (query : Query) (view : View) :
    rest (query.access binder shared) view = binder.fillAll (query.reads binder view) view := by
  cases query with
  | fieldAt index =>
    refine (rest_map ..).trans ?_
    exact (bind_pure _).symm
  | field name | typed accessor name => exact (rest_map ..).trans (binder.rest_fieldNamed name view)
  | bindAll => exact (rest_map ..).trans (binder.rest_bindAll view)
  | isDecoded name | equals other => rfl

/-! ## Answers -/

def shows (binder : Binder) (index : Nat) (view : View) : Except BindingError FieldValue :=
  (binder.read index view).map FieldValue.bare

structure Grows (binder : Binder) (view later : View) : Prop where
  alike : view.Alike later
  size : later.slots.length = view.slots.length
  filled : ∀ index, view.decodedAt index = true → later.decodedAt index = true
  shows : ∀ index, binder.shows index later = binder.shows index view

theorem Grows.refl (view : View) : binder.Grows view view :=
  ⟨.refl view, rfl, fun _ => id, fun _ => rfl⟩

theorem Grows.trans {last : View} (first : binder.Grows view next)
    (second : binder.Grows next last) : binder.Grows view last where
  alike := first.alike.trans second.alike
  size := second.size.trans first.size
  filled := fun index filled => second.filled index (first.filled index filled)
  shows := fun index => (second.shows index).trans (first.shows index)

theorem Fills.grows (fills : binder.Fills view next) : binder.Grows view next where
  alike := fills.alike
  size := fills.size
  filled := by
    intro index filled
    obtain ⟨outcome, slot⟩ := slot_of_decodedAt filled
    simp [View.decodedAt, fills.slot_of_filled slot]
  shows := by
    intro index
    rw [Binder.shows, fills.read]
    rfl

theorem map_unit_shows (binder : Binder) (index : Nat) (view : View) :
    (binder.shows index view).map (fun _ => ()) = (binder.read index view).map fun _ => () := by
  unfold shows
  cases binder.read index view <;> rfl

theorem outcome_forM (binder : Binder) (indices : List Nat) (view : View) :
    ((indices.forM fun index => discard (binder.fieldAt index) : Access Unit).run.run view).value.1
      = indices.forM fun index => (binder.shows index view).map fun _ => () := by
  induction indices generalizing view with
  | nil => rfl
  | cons index others ih =>
    change ((discard (binder.fieldAt index) >>= fun _ =>
      others.forM fun index => discard (binder.fieldAt index)).run.run view).value.1
        = (binder.shows index view).map (fun _ => ()) >>= fun _ =>
          others.forM fun index => (binder.shows index view).map fun _ => ()
    have fills := binder.fills_fill view index
    have same : ((binder.fieldAt index).run.run view).value.1 = binder.read index view := rfl
    rw [Access.value_bind, Access.value_discard, map_unit_shows, same]
    change binder.Fills view ((binder.fieldAt index).run.run view).value.2 at fills
    cases binder.read index view with
    | error error => rfl
    | ok x =>
      refine (ih _).trans ?_
      simp only [fills.grows.shows]
      rfl

theorem outcome_bindAll (binder : Binder) (view : View) :
    (binder.bindAll.run.run view).value.1 = (do
      (List.range view.slots.length).forM fun index => (binder.shows index view).map fun _ => ()
      match view.raw.asMembers?.bind view.schema.undeclared? with
      | some key => throw (.mk view.type key .closedRecord .undeclaredProperty)
      | none => pure ()) := by
  unfold bindAll
  rw [Access.get_bind, Access.value_bind, ← outcome_forM]
  rcases (((List.range view.slots.length).forM fun index =>
    discard (binder.fieldAt index) : Access Unit).run.run view).value with ⟨outcome, next⟩
  cases outcome with
  | error error => rfl
  | ok done =>
    cases view.raw.asMembers?.bind view.schema.undeclared? <;> rfl

theorem Grows.outcome_fieldNamed {later : View} (grows : binder.Grows view later) (name : String) :
    ((binder.fieldNamed name).run.run later).value.1.map FieldValue.bare
      = ((binder.fieldNamed name).run.run view).value.1.map FieldValue.bare := by
  cases place : view.schema.fieldIndex? name with
  | some index =>
    rw [fieldNamed_of_index binder place, fieldNamed_of_index binder (by rwa [grows.alike.schema])]
    exact grows.shows index
  | none =>
    unfold fieldNamed
    rw [Access.get_bind, Access.get_bind, grows.alike.schema, place]
    simp only [View.type, grows.alike.schema]
    rfl

theorem bare_map {f : FieldValue → Answer} (same : ∀ x, (f x).bare = f x.bare)
    (outcome : Except BindingError FieldValue) :
    (outcome.map f).map Answer.bare = (outcome.map FieldValue.bare).map f := by
  cases outcome with
  | error error => rfl
  | ok x => exact congrArg Except.ok (same x)

theorem Grows.ask {later : View} (grows : binder.Grows view later) (shared : SharedViews)
    {query : Query} (reading : ∀ name, query ≠ .isDecoded name) :
    (query.ask binder shared later).map Answer.bare
      = (query.ask binder shared view).map Answer.bare := by
  unfold Query.ask
  cases query with
  | fieldAt index =>
    rw [Query.access, Access.outcome_map, Access.outcome_map, bare_map fun _ => rfl,
      bare_map fun _ => rfl]
    exact congrArg (Except.map Answer.value) (grows.shows index)
  | field name =>
    rw [Query.access, Access.outcome_map, Access.outcome_map, bare_map fun _ => rfl,
      bare_map fun _ => rfl, grows.outcome_fieldNamed]
  | typed accessor name =>
    have read : ∀ x, (Answer.shown (accessor.read x)).bare = .shown (accessor.read x.bare) :=
      fun x => congrArg Answer.shown (accessor.read_bare x).symm
    rw [Query.access, Access.outcome_map, Access.outcome_map, bare_map read, bare_map read,
      grows.outcome_fieldNamed]
  | bindAll =>
    rw [Query.access, Access.outcome_map, Access.outcome_map, outcome_bindAll, outcome_bindAll]
    simp only [grows.shows, grows.size, grows.alike.raw, grows.alike.schema, View.type]
  | isDecoded name => exact absurd rfl (reading name)
  | equals other =>
    have same : later.equal = view.equal := by
      funext other
      simp only [View.equal, View.type, grows.alike.schema, grows.alike.raw]
    change Except.ok (Answer.truth ((shared.get? other).any later.equal)) = _
    rw [same]
    rfl

/-! ## Views in answers -/

theorem slot_of_fieldAt {x : FieldValue}
    (gives : ((binder.fieldAt index).run.run view).value.1 = .ok x) :
    (binder.fill view index).value.slots[index]? = some (some (.ok x)) := by
  change ((binder.fieldAt index).run.run view).value.2.slots[index]? = _
  obtain ⟨outcome, slot, read⟩ | ⟨field, empty, -, read⟩ | ⟨-, read⟩ :=
    fieldAt_cases binder index view <;> rw [read] at gives ⊢
  · exact gives ▸ slot
  · have below := (List.getElem?_eq_some_iff.1 empty).1
    rw [View.slots_setSlot, List.getElem?_set_self below]
    exact congrArg (some ∘ some) gives
  · cases gives

theorem slot_of_fieldNamed {name : String} {x : FieldValue}
    (gives : ((binder.fieldNamed name).run.run view).value.1 = .ok x) :
    ∃ index, (view.schema.fieldIndex? name).toList = [index] ∧
      (binder.fill view index).value.slots[index]? = some (some (.ok x)) := by
  cases place : view.schema.fieldIndex? name with
  | some index =>
    rw [fieldNamed_of_index binder place] at gives
    exact ⟨index, rfl, slot_of_fieldAt gives⟩
  | none =>
    unfold fieldNamed at gives
    rw [Access.get_bind, place] at gives
    cases gives

end Binder

def Answer.viewAt? (places : List Nat) : Answer → Option View
  | .value x => x.viewAt? places
  | .shown x => x.bind (FieldValue.viewAt? places)
  | .done | .truth _ => none

theorem Accessor.viewAt?_of_read {accessor : Accessor} {x y : FieldValue} (places : List Nat)
    (read : accessor.read x = some y) : y.viewAt? places = x.viewAt? places := by
  cases accessor <;> cases x <;> cases read <;> cases places <;> rfl

namespace Binder

variable {binder : Binder} {view : View}

/-- A view in an answer lies in a slot, which is filled afterwards if it has not been before. -/
theorem slot_of_answer {shared : SharedViews} {query : Query} {answer : Answer} {places : List Nat}
    {inner : View} (answered : query.ask binder shared view = .ok answer)
    (found : answer.viewAt? places = some inner) :
    ∃ index value, query.reads binder view = [index] ∧
      (binder.fill view index).value.slots[index]? = some (some (.ok value)) ∧
      value.viewAt? places = some inner := by
  unfold Query.ask at answered
  cases query with
  | fieldAt index =>
    obtain ⟨x, gives, rfl⟩ := Access.outcome_map_eq_ok answered
    exact ⟨index, x, rfl, slot_of_fieldAt gives, found⟩
  | field name =>
    obtain ⟨x, gives, rfl⟩ := Access.outcome_map_eq_ok answered
    obtain ⟨index, place, slot⟩ := slot_of_fieldNamed gives
    exact ⟨index, x, place, slot, found⟩
  | typed accessor name =>
    obtain ⟨x, gives, rfl⟩ := Access.outcome_map_eq_ok answered
    obtain ⟨index, place, slot⟩ := slot_of_fieldNamed gives
    obtain ⟨y, read, lies⟩ := Option.bind_eq_some_iff.1 found
    exact ⟨index, x, place, slot, (Accessor.viewAt?_of_read places read).symm.trans lies⟩
  | bindAll =>
    obtain ⟨done, -, rfl⟩ := Access.outcome_map_eq_ok answered
    cases found
  | isDecoded name | equals other =>
    cases answered
    cases found

/-! ## Building an eager view -/

/-- An eager view in which the first fields have been decoded. -/
def partly (schema : Schema) (raw : Json) (values : List FieldValue) (rest : List Field) : View :=
  .mk schema raw .eager
    ((values.map fun value => some (.ok value)) ++ rest.map fun _ => none)

theorem setSlot_partly (schema : Schema) (raw : Json) (values : List FieldValue) (field : Field)
    (rest : List Field) (x : FieldValue) :
    (partly schema raw values (field :: rest)).setSlot values.length (.ok x)
      = partly schema raw (values ++ [x]) rest := by
  unfold partly View.setSlot
  simp only [View.schema, View.raw, View.mode, View.slots, List.map_cons, List.map_append,
    List.map_nil, List.append_assoc, List.cons_append, List.nil_append]
  rw [List.set_append_right _ _ (by simp), List.length_map, Nat.sub_self, List.set_cons_zero]

theorem run_fieldAt_of_empty {index : Nat} {field : Field} (empty : view.slots[index]? = some none)
    (declared : view.schema.fields[index]? = some field) :
    (binder.fieldAt index).run.run view = (do
      let outcome ← (binder.bindField view.schema view.raw view.mode field).run
      pure (outcome, view.setSlot index outcome)) := by
  change binder.fieldAt index view = _
  unfold fieldAt
  simp only [empty, declared]

theorem run_forM_partly (binder : Binder) {schema : Schema} (raw : Json) {front rest : List Field}
    {values : List FieldValue} (fields : schema.fields = front ++ rest)
    (decoded : front.length = values.length) :
    ((List.range' values.length rest.length).forM fun index =>
        discard (binder.fieldAt index) : Access Unit).run.run (partly schema raw values rest)
          >>= (fun (outcome, view) => pure (outcome.map fun _ => view))
      = (rest.mapM (bindFieldWith binder.coerce schema raw .eager)).run >>= fun outcome =>
        pure (outcome.map fun new => partly schema raw (values ++ new) []) := by
  induction rest generalizing front values with
  | nil =>
    have none_new : values ++ [] = values := List.append_nil _
    change _ = (pure (.ok (partly schema raw (values ++ []) [])) : Warned (Except _ View))
    rw [none_new]
    rfl
  | cons field rest ih =>
    have empty : (partly schema raw values (field :: rest)).slots[values.length]? = some none := by
      simp [partly, View.slots]
    have declared : (partly schema raw values (field :: rest)).schema.fields[values.length]?
        = some field := by
      change schema.fields[values.length]? = _
      rw [fields, ← decoded, List.getElem?_append_right (Nat.le_refl _), Nat.sub_self]
      rfl
    have fields' : schema.fields = (front ++ [field]) ++ rest := by simp [fields]
    have decoded' : ∀ x, (front ++ [field]).length = (values ++ [x]).length := by simp [decoded]
    change (discard (binder.fieldAt values.length) >>= fun _ =>
      (List.range' (values.length + 1) rest.length).forM fun index =>
        discard (binder.fieldAt index) : Access Unit).run.run _ >>= _ = _
    rw [ExceptT.run_bind, StateT.run_bind, discard_eq_map, Access.run_map,
      run_fieldAt_of_empty empty declared, List.mapM_cons, ExceptT.run_bind]
    simp only [bind_assoc, map_bind, map_pure, pure_bind]
    refine bind_congr fun outcome => ?_
    cases outcome with
    | error error => rfl
    | ok x =>
      have placed := ih fields' (decoded' x)
      rw [← setSlot_partly, List.length_append, List.length_singleton] at placed
      refine placed.trans ?_
      change _ = ExceptT.run (do
        let values ← rest.mapM (bindFieldWith binder.coerce schema raw .eager)
        pure (x :: values)) >>= _
      rw [ExceptT.run_bind, bind_assoc]
      refine bind_congr fun outcome => ?_
      cases outcome with
      | error error => rfl
      | ok new =>
        have whole : values ++ [x] ++ new = values ++ x :: new := by simp
        simp only [Except.map, whole]
        rfl

/-- What is left to do once all fields of an object have been decoded. -/
def close (schema : Schema) (members : List (String × Json)) (outcome : Except BindingError View) :
    Except BindingError View :=
  outcome.bind fun view =>
    match schema.undeclared? members with
    | some key => .error (.mk schema.id key .closedRecord .undeclaredProperty)
    | none => .ok view

theorem run_bindEager_close (binder : Binder) (schema : Schema) {raw : Json}
    {members : List (String × Json)} (object : raw.asMembers? = some members) :
    (binder.bindEager schema raw).run
      = (schema.fields.mapM (bindFieldWith binder.coerce schema raw .eager)).run >>= fun outcome =>
        pure (close schema members (outcome.map fun values => partly schema raw values [])) := by
  unfold bindEager bindEagerWith
  simp only [object, ExceptT.run_bind]
  refine bind_congr fun outcome => ?_
  cases outcome with
  | error error => rfl
  | ok values =>
    simp only [close, Except.bind, Except.map, partly]
    cases schema.undeclared? members <;> simp

theorem run_bindAll_close (binder : Binder) (schema : Schema) {raw : Json}
    {members : List (String × Json)} (object : raw.asMembers? = some members) :
    binder.bindAll.run.run (.blank schema raw .eager)
        >>= (fun (outcome, view) => pure (outcome.map fun _ => view))
      = ((List.range schema.fields.length).forM fun index =>
          discard (binder.fieldAt index) : Access Unit).run.run (.blank schema raw .eager)
        >>= fun (outcome, view) => pure (close schema members (outcome.map fun _ => view)) := by
  have size : (View.blank schema raw .eager).slots.length = schema.fields.length :=
    List.length_map _
  unfold bindAll
  rw [Access.get_bind, ExceptT.run_bind, StateT.run_bind, size, bind_assoc]
  refine bind_congr fun (outcome, view) => ?_
  cases outcome with
  | error error => rfl
  | ok done =>
    simp only [close, Except.bind, Except.map, View.blank, View.raw, View.schema, View.type, object,
      Option.bind_some]
    cases schema.undeclared? members <;> rfl

/-- An eager view of an object is one with nothing decoded that is asked for all its fields. -/
theorem run_bindEager (binder : Binder) (schema : Schema) {raw : Json}
    {members : List (String × Json)} (object : raw.asMembers? = some members) :
    (binder.bindEager schema raw).run = (do
      let (outcome, view) ← binder.bindAll.run.run (.blank schema raw .eager)
      pure (outcome.map fun _ => view)) := by
  have none_yet : ([] : List Field).length = ([] : List FieldValue).length := rfl
  have decoded := binder.run_forM_partly raw
    (show schema.fields = [] ++ schema.fields from rfl) none_yet
  rw [run_bindAll_close binder schema object, run_bindEager_close binder schema object]
  have closed := congrArg (· >>= fun outcome => pure (close schema members outcome)) decoded
  simp only [bind_assoc, pure_bind] at closed
  rw [List.range_eq_range']
  exact closed.symm

end Binder

end DebugLink
