import DebugLink.Proofs.Binding.Extension

/-!
# Callers of a binder

A caller binds values, narrows them, reads fields and takes views out of them, in any order. A
caller that begins with types of a registry only ever comes to hold views of its records and
variants of its bases, so it sees the same whatever else is registered.
-/

set_option autoImplicit false

namespace DebugLink

/-! ## Programs of a caller -/

/-- A view that a caller holds. If it is that of a variant, the base and the type come with it. -/
structure Holding where
  key : ViewKey
  narrowed : Option (String × String)

structure Caller where
  shared : SharedViews
  holdings : List Holding

/-- What a caller may do. What it holds is named by its place. -/
inductive Action where
  | bind (schema : Schema) (raw : Json) (mode : Mode)
  | bindType (type : String) (raw : Json) (mode : Mode)
  | resolve (base : Schema) (raw : Json) (mode : Mode)
  | fieldAt (place index : Nat)
  | fieldNamed (place : Nat) (name : String)
  | bindAll (place : Nat)
  /-- Takes a view or a variant out of a decoded field. -/
  | takeOut (place : Nat) (hop : Hop)
  | reresolveAs (place : Nat) (sibling : String)
  | narrow (place : Nat)

inductive Sight where
  | view (outcome : Except BindingError View)
  | variant (outcome : Except ResolutionError Variant)
  | field (outcome : Except BindingError FieldValue)
  | fields (outcome : Except BindingError Unit)
  | taken
  /-- There is nothing that the action could be applied to. -/
  | nothing

/-- The value at some places of the lists around it. -/
def FieldValue.itemAt? : List Nat → FieldValue → Option FieldValue
  | [], value => some value
  | place :: places, .list items => items[place]?.bind (itemAt? places)
  | _ :: _, _ => none

def View.itemAt? (view : View) (hop : Hop) : Option FieldValue :=
  match view.slots[hop.field]? with
  | some (some (.ok value)) => value.itemAt? hop.items
  | _ => none

namespace Caller

def empty : Caller := ⟨.empty, []⟩

def hold (caller : Caller) (view : View) (narrowed : Option (String × String)) : Caller :=
  let (key, shared) := caller.shared.add view
  ⟨shared, caller.holdings ++ [⟨key, narrowed⟩]⟩

def receiveView (caller : Caller) : Except BindingError View → Sight × Caller
  | .ok view => (.view (.ok view), caller.hold view none)
  | .error error => (.view (.error error), caller)

def receiveVariant (caller : Caller) : Except ResolutionError Variant → Sight × Caller
  | .ok variant =>
    (.variant (.ok variant), caller.hold variant.view (some (variant.base, variant.type)))
  | .error error => (.variant (.error error), caller)

def variant? (caller : Caller) (place : Nat) : Option Variant := do
  let holding ← caller.holdings[place]?
  let (base, type) ← holding.narrowed
  let view ← caller.shared.get? holding.key
  pure ⟨base, type, view⟩

def read {α : Type} (caller : Caller) (place : Nat) (access : Access α)
    (sight : Except BindingError α → Sight) : Warned (Sight × Caller) :=
  match caller.holdings[place]?.bind fun holding => caller.shared.access holding.key access with
  | none => pure (.nothing, caller)
  | some reading => do
    let (outcome, shared) ← reading
    pure (sight outcome, { caller with shared := shared })

def inside? (caller : Caller) (place : Nat) (hop : Hop) : Option Holding := do
  let holding ← caller.holdings[place]?
  let view ← caller.shared.get? holding.key
  match ← view.itemAt? hop with
  | .record _ => some ⟨holding.key.inside hop, none⟩
  | .variant base type _ => some ⟨holding.key.inside hop, some (base, type)⟩
  | _ => none

def step (binder : Binder) (caller : Caller) : Action → Warned (Sight × Caller)
  | .bind schema raw mode => caller.receiveView <$> (binder.bind schema raw mode).run
  | .bindType type raw mode => caller.receiveView <$> (binder.bindType type raw mode).run
  | .resolve base raw mode => caller.receiveVariant <$> (binder.resolve base raw mode).run
  | .fieldAt place index => caller.read place (binder.fieldAt index) .field
  | .fieldNamed place name => caller.read place (binder.fieldNamed name) .field
  | .bindAll place => caller.read place binder.bindAll .fields
  | .takeOut place hop =>
    match caller.inside? place hop with
    | some holding => pure (.taken, { caller with holdings := caller.holdings ++ [holding] })
    | none => pure (.nothing, caller)
  | .reresolveAs place sibling =>
    match caller.variant? place with
    | some variant => caller.receiveVariant <$> (binder.reresolveAs variant sibling).run
    | none => pure (.nothing, caller)
  | .narrow place =>
    match caller.variant? place with
    | some variant => caller.receiveVariant <$> (binder.narrow variant).run
    | none => pure (.nothing, caller)

def run (binder : Binder) (caller : Caller) : List Action → Warned (List Sight × Caller)
  | [] => pure ([], caller)
  | action :: actions => do
    let (sight, caller) ← caller.step binder action
    let (sights, caller) ← caller.run binder actions
    pure (sight :: sights, caller)

end Caller

/-! ## Accesses that agree -/

def Access.Agree {α : Type} (I : View → Prop) (first second : Access α) : Prop :=
  ∀ view, I view → second.run.run view = first.run.run view

namespace Access.Agree

variable {α β : Type} {I : View → Prop} {F : BindingError → Prop}

theorem refl (x : Access α) : x.Agree I x :=
  fun _ _ => rfl

/-- What follows the first part begins with a view that has the property still. -/
theorem bind {x y : Access α} {f g : α → Access β} (first : x.Agree I y) (safe : x.Safe I F)
    (rest : ∀ a, (f a).Agree I (g a)) : (x >>= f).Agree I (y >>= g) := by
  intro view good
  obtain ⟨kept, -⟩ := safe view good
  rw [ExceptT.run_bind, ExceptT.run_bind, StateT.run_bind, StateT.run_bind, first view good]
  refine Logged.bind_congr ?_
  generalize (x.run.run view).value = result at kept ⊢
  obtain ⟨outcome, next⟩ := result
  cases outcome with
  | error error => rfl
  | ok a => exact rest a next kept

theorem get_bind {f g : View → Access α} (rest : ∀ view, (f view).Agree I (g view)) :
    ((get : Access View) >>= f).Agree I ((get : Access View) >>= g) := by
  intro view good
  rw [Access.get_bind, Access.get_bind]
  exact rest view view good

theorem discard {x y : Access α} (agree : x.Agree I y) (safe : x.Safe I F) :
    (discard x : Access Unit).Agree I (discard y) :=
  bind agree safe fun _ => .refl _

theorem forM {f g : Nat → Access Unit} (agree : ∀ index, (f index).Agree I (g index))
    (safe : ∀ index, (f index).Safe I F) (indices : List Nat) :
    (indices.forM f).Agree I (indices.forM g) := by
  induction indices with
  | nil => exact .refl _
  | cons index rest ih => exact bind (agree index) (safe index) fun _ => ih

end Access.Agree

namespace Binder

variable {binder larger : Binder}

theorem fieldAt_within (within : binder.Within larger) (sound : binder.registry.Sound)
    (index : Nat) :
    (binder.fieldAt index).Agree (·.schema ∈ binder.registry.schemas) (larger.fieldAt index) := by
  intro view registered
  change larger.fieldAt index view = binder.fieldAt index view
  unfold fieldAt
  cases slot : view.slots[index]? with
  | none => rfl
  | some held =>
    cases held with
    | some outcome => rfl
    | none =>
      cases declared : view.schema.fields[index]? with
      | none => rfl
      | some field =>
        have same : larger.bindField view.schema view.raw view.mode field
            = binder.bindField view.schema view.raw view.mode field :=
          bindField_within within sound registered (List.mem_of_getElem? declared)
        simp only [same]

theorem schema_of_fieldAt (binder : Binder) (index : Nat) :
    (binder.fieldAt index).Safe (·.schema ∈ binder.registry.schemas) (fun _ => True) := by
  intro view registered
  refine ⟨?_, fun _ _ => trivial⟩
  obtain ⟨outcome, -, read⟩ | ⟨field, -, -, read⟩ | ⟨-, read⟩ := fieldAt_cases binder index view <;>
    rw [read] <;> exact registered

theorem fieldNamed_within (within : binder.Within larger) (sound : binder.registry.Sound)
    (name : String) :
    (binder.fieldNamed name).Agree (·.schema ∈ binder.registry.schemas)
      (larger.fieldNamed name) := by
  refine .get_bind fun view => ?_
  cases view.schema.fieldIndex? name with
  | some index => exact fieldAt_within within sound index
  | none => exact .refl _

theorem bindAll_within (within : binder.Within larger) (sound : binder.registry.Sound) :
    binder.bindAll.Agree (·.schema ∈ binder.registry.schemas) larger.bindAll := by
  refine .get_bind fun view => ?_
  have each : ∀ index, (discard (binder.fieldAt index) : Access Unit).Agree
      (·.schema ∈ binder.registry.schemas) (discard (larger.fieldAt index)) :=
    fun index => .discard (fieldAt_within within sound index) (binder.schema_of_fieldAt index)
  have safe : ∀ index, (discard (binder.fieldAt index) : Access Unit).Safe
      (·.schema ∈ binder.registry.schemas) (fun _ => True) :=
    fun index => .discard (binder.schema_of_fieldAt index)
  exact .bind (.forM each safe _) (.forM safe _) fun _ => .refl _

end Binder

/-! ## Views and variants that are registered -/

/-- A view is one of a registered record, and the variants in its fields are of registered bases. -/
structure View.Registered (registry : Registry) (view : View) : Prop where
  schema : view.schema ∈ registry.schemas
  bases : ∀ value, some (.ok value) ∈ view.slots → ∀ base ∈ value.bases, registry.Describes base

mutual

theorem FieldValue.bases_of_viewless : ∀ {value : FieldValue}, value.views = [] → value.bases = []
  | .list _, viewless => basesOfItems_of_viewless viewless
  | .unset, _ | .null, _ | .bool _, _ | .long _, _ | .double _, _ | .string _, _
  | .enumeration _, _ | .any _, _ | .record _, _ => rfl

theorem basesOfItems_of_viewless : ∀ {items : List FieldValue}, viewsOfItems items = [] →
    basesOfItems items = []
  | [], _ => rfl
  | _ :: _, viewless => by
    obtain ⟨first, rest⟩ := List.append_eq_nil_iff.1 viewless
    rw [basesOfItems, FieldValue.bases_of_viewless first, basesOfItems_of_viewless rest]
    rfl

end

theorem FieldValue.mem_bases_of_itemAt? {places : List Nat} {value : FieldValue}
    {base type : String} {view : View}
    (found : value.itemAt? places = some (.variant base type view)) : base ∈ value.bases := by
  induction places generalizing value with
  | nil =>
    cases found
    exact List.mem_singleton.2 rfl
  | cons place places ih =>
    cases value with
    | list items =>
      obtain ⟨item, at_place, found⟩ := Option.bind_eq_some_iff.1 found
      exact mem_basesOfItems.2 ⟨item, List.mem_of_getElem? at_place, ih found⟩
    | _ => cases found

namespace Binder

variable {binder larger : Binder} {schema : Schema} {raw value : Json} {kind : Kind} {mode : Mode}
  {x : FieldValue}

theorem base_of_resolveWith {coerce : Coercion} {base : Schema} {variant : Variant}
    (narrowed : (binder.resolveWith coerce base raw mode).result = .ok variant) :
    variant.base = base.id := by
  cases polymorphic : base.subtypes with
  | none => simp [resolveWith, polymorphic] at narrowed
  | some subtypes =>
    obtain ⟨rule, candidates⟩ := subtypes
    cases rule with
    | discriminated =>
      obtain ⟨members, chosen, view, -, -, -, rfl⟩ :=
        (resolveWith_discriminated_eq_ok polymorphic).1 narrowed
      rfl
    | structural =>
      obtain ⟨members, view, -, -, rfl⟩ := (resolveWith_structural_eq_ok polymorphic).1 narrowed
      rfl

theorem base_of_reresolveAs {variant other : Variant} {sibling : String}
    (again : (binder.reresolveAs variant sibling).result = .ok other) :
    other.base = variant.base := by
  obtain ⟨schema, -, rest⟩ := Outcome.result_bind_eq_ok.1 again
  obtain ⟨view, -, last⟩ := Outcome.result_bind_eq_ok.1 rest
  cases last
  rfl

theorem describes_of_coerce (read : (binder.coerce value kind mode).result = .ok x) :
    ∀ base ∈ x.bases, binder.registry.Describes base := by
  induction kind generalizing value x with
  | record type =>
    rw [coerce_eq_coerceWith] at read
    cases mode with
    | eager =>
      obtain ⟨own, view, -, -, rfl⟩ := coerceWith_record_eager_eq_ok.1 read
      exact nofun
    | lazy =>
      obtain ⟨own, -, -, rfl⟩ := coerceWith_record_lazy_eq_ok.1 read
      exact nofun
  | subtype base =>
    rw [coerce_eq_coerceWith] at read
    obtain ⟨schema, variant, described, narrowed, rfl⟩ := coerceWith_subtype_eq_ok.1 read
    intro other mem
    rw [List.mem_singleton.1 mem, base_of_resolveWith narrowed]
    exact Registry.describes_of_mem (mem_of_describe? described)
  | list element ih =>
    rw [coerce_eq_coerceWith] at read
    obtain ⟨items, xs, -, each, rfl⟩ := coerceWith_list_eq_ok.1 read
    intro base mem
    obtain ⟨y, listed, mem⟩ := mem_basesOfItems.1 mem
    obtain ⟨item, -, read⟩ := exists_of_mem_right each listed
    exact ih read base mem
  | _ =>
    rw [coerce_eq_coerceWith] at read
    rw [FieldValue.bases_of_viewless (views_of_scalar rfl read)]
    exact nofun

theorem describes_of_bindField {field : Field}
    (bound : (binder.bindField schema raw mode field).result = .ok x) :
    ∀ base ∈ x.bases, binder.registry.Describes base := by
  obtain ⟨members, -, ⟨-, -, rfl⟩ | ⟨-, -, rfl⟩ | ⟨part, -, -, read⟩⟩ := bindFieldWith_eq_ok.1 bound
  · exact nofun
  · exact nofun
  · exact describes_of_coerce read

theorem keeps_registered (binder : Binder) :
    binder.Keeps (· ∈ binder.registry.schemas) (View.Registered binder.registry) where
  registered := fun _ => id
  blank := by
    intro schema raw registered
    refine ⟨registered, ?_⟩
    intro value slot
    simp [View.blank, View.slots] at slot
  bound := by
    intro schema raw view registered bound
    obtain ⟨members, values, -, fields, -, rfl⟩ := bindEagerWith_eq_ok.1 bound
    refine ⟨registered, ?_⟩
    intro value slot
    obtain ⟨own, listed, same⟩ := List.mem_map.1 slot
    cases same
    obtain ⟨field, -, read⟩ := exists_of_mem_right fields listed
    exact describes_of_bindField read
  decoded := by
    intro view index field good empty declared
    refine ⟨good.schema, ?_⟩
    intro value slot
    rcases List.mem_or_eq_of_mem_set slot with old | new
    · exact good.bases value old
    · exact describes_of_bindField (Option.some.inj new).symm
  stable := by
    intro view index value other good slot alike
    refine ⟨good.schema, ?_⟩
    intro own held
    rcases List.mem_or_eq_of_mem_set held with old | new
    · exact good.bases own old
    · cases new
      rw [alike.bases]
      exact good.bases value (List.mem_of_getElem? slot)

end Binder

/-! ## Programs under an extension -/

def Action.Within (registry : Registry) : Action → Prop
  | .bind schema .. => schema ∈ registry.schemas
  | .bindType type .. => registry.Describes type
  | .resolve base .. => base ∈ registry.schemas
  | _ => True

structure Caller.Within (registry : Registry) (caller : Caller) : Prop where
  views : ∀ root ∈ caller.shared.roots, root.All (View.Registered registry)
  bases : ∀ holding ∈ caller.holdings, ∀ base type, holding.narrowed = some (base, type) →
    registry.Describes base

namespace Caller.Within

variable {binder larger : Binder} {registry : Registry} {caller : Caller}

theorem empty (registry : Registry) : Caller.empty.Within registry :=
  ⟨nofun, nofun⟩

theorem get {key : ViewKey} {view : View} (held : caller.Within registry)
    (found : caller.shared.get? key = some view) : view.All (View.Registered registry) := by
  obtain ⟨root, at_root, descends⟩ := SharedViews.mem_roots_of_get? found
  exact (held.views root (List.mem_of_getElem? at_root)).descend descends

theorem holds {holding : Holding} (held : caller.Within registry)
    (based : ∀ base type, holding.narrowed = some (base, type) → registry.Describes base) :
    Caller.Within registry { caller with holdings := caller.holdings ++ [holding] } := by
  refine ⟨held.views, ?_⟩
  intro other mem
  rcases List.mem_append.1 mem with old | new
  · exact held.bases other old
  · rw [List.mem_singleton.1 new]
    exact based

theorem hold {view : View} {narrowed : Option (String × String)} (held : caller.Within registry)
    (all : view.All (View.Registered registry))
    (based : ∀ base type, narrowed = some (base, type) → registry.Describes base) :
    (caller.hold view narrowed).Within registry := by
  have added : Caller.Within registry
      { caller with holdings := caller.holdings ++ [⟨(caller.shared.add view).1, narrowed⟩] } :=
    held.holds based
  exact ⟨SharedViews.all_add held.views all, added.bases⟩

theorem receiveView {outcome : Except BindingError View} (held : caller.Within registry)
    (all : ∀ view, outcome = .ok view → view.All (View.Registered registry)) :
    (caller.receiveView outcome).2.Within registry := by
  cases outcome with
  | ok view => exact held.hold (all view rfl) nofun
  | error error => exact held

theorem receiveVariant {outcome : Except ResolutionError Variant} (held : caller.Within registry)
    (all : ∀ variant, outcome = .ok variant →
      variant.view.All (View.Registered registry) ∧ registry.Describes variant.base) :
    (caller.receiveVariant outcome).2.Within registry := by
  cases outcome with
  | ok variant =>
    obtain ⟨views, based⟩ := all variant rfl
    refine held.hold views ?_
    rintro base type ⟨⟩
    exact based
  | error error => exact held

theorem variant {place : Nat} {variant : Variant} (held : caller.Within registry)
    (found : caller.variant? place = some variant) :
    variant.view.All (View.Registered registry) ∧ registry.Describes variant.base := by
  obtain ⟨holding, at_place, rest⟩ := Option.bind_eq_some_iff.1 found
  obtain ⟨⟨base, type⟩, narrowed, rest⟩ := Option.bind_eq_some_iff.1 rest
  obtain ⟨view, view_at, last⟩ := Option.bind_eq_some_iff.1 rest
  cases last
  exact ⟨held.get view_at,
    held.bases holding (List.mem_of_getElem? at_place) base type narrowed⟩

theorem inside {place : Nat} {hop : Hop} {holding : Holding} (held : caller.Within registry)
    (found : caller.inside? place hop = some holding) {base type : String}
    (narrowed : holding.narrowed = some (base, type)) : registry.Describes base := by
  obtain ⟨around, -, rest⟩ := Option.bind_eq_some_iff.1 found
  obtain ⟨view, view_at, rest⟩ := Option.bind_eq_some_iff.1 rest
  obtain ⟨item, item_at, last⟩ := Option.bind_eq_some_iff.1 rest
  cases item with
  | variant own _ inner =>
    cases last
    cases narrowed
    unfold View.itemAt? at item_at
    split at item_at
    · rename_i value slot
      exact (held.get view_at).here.bases value (List.mem_of_getElem? slot) base
        (FieldValue.mem_bases_of_itemAt? item_at)
    · cases item_at
  | record inner =>
    cases last
    cases narrowed
  | _ => cases last

theorem read {α : Type} {place : Nat} {access : Access α} {sight : Except BindingError α → Sight}
    (held : caller.Within binder.registry) (reading : binder.Reading α access) :
    (caller.read place access sight).value.2.Within binder.registry := by
  unfold Caller.read
  split
  · exact held
  · rename_i outcome found
    obtain ⟨holding, -, accessed⟩ := Option.bind_eq_some_iff.1 found
    exact ⟨SharedViews.all_access binder.keeps_registered reading accessed held.views, held.bases⟩

theorem step {action : Action} (held : caller.Within binder.registry)
    (given : action.Within binder.registry) :
    (caller.step binder action).value.2.Within binder.registry := by
  have keeps := binder.keeps_registered
  cases action with
  | bind schema raw mode =>
    exact held.receiveView fun view bound => Binder.all_of_bind keeps given bound
  | bindType type raw mode =>
    exact held.receiveView fun view bound => Binder.all_of_bindType keeps bound
  | resolve base raw mode =>
    refine held.receiveVariant fun variant narrowed => ⟨Binder.all_of_resolve keeps narrowed, ?_⟩
    rw [Binder.base_of_resolveWith narrowed]
    exact Registry.describes_of_mem given
  | fieldAt place index => exact held.read (.fieldAt index)
  | fieldNamed place name => exact held.read (.fieldNamed name)
  | bindAll place => exact held.read .bindAll
  | takeOut place hop =>
    simp only [Caller.step]
    split
    · rename_i holding found
      exact held.holds fun base type => held.inside found
    · exact held
  | reresolveAs place sibling =>
    simp only [Caller.step]
    split
    · rename_i variant found
      obtain ⟨-, based⟩ := held.variant found
      exact held.receiveVariant fun other again =>
        ⟨Binder.all_of_reresolveAs keeps again, Binder.base_of_reresolveAs again ▸ based⟩
    · exact held
  | narrow place =>
    simp only [Caller.step]
    split
    · rename_i variant found
      obtain ⟨all, -⟩ := held.variant found
      refine held.receiveVariant fun other further => ⟨Binder.all_of_resolve keeps further, ?_⟩
      rw [Binder.base_of_resolveWith further]
      exact Registry.describes_of_mem all.here.schema
    · exact held

end Caller.Within

namespace Caller

variable {binder larger : Binder} {caller : Caller}

theorem read_within {α : Type} {place : Nat} {first second : Access α}
    {sight : Except BindingError α → Sight} (held : caller.Within binder.registry)
    (agree : first.Agree (·.schema ∈ binder.registry.schemas) second) :
    caller.read place second sight = caller.read place first sight := by
  unfold read
  cases caller.holdings[place]? with
  | none => rfl
  | some holding =>
    simp only [Option.bind_some, SharedViews.access]
    cases found : caller.shared.get? holding.key with
    | none => rfl
    | some view => simp only [Option.map_some, agree view (held.get found).here.schema]

theorem step_within {action : Action} (within : binder.Within larger)
    (sound : binder.registry.Sound) (held : caller.Within binder.registry)
    (given : action.Within binder.registry) :
    caller.step larger action = caller.step binder action := by
  cases action with
  | bind schema raw mode => simp only [step, Binder.bind_within within sound given]
  | bindType type raw mode =>
    obtain ⟨schema, described⟩ := given
    simp only [step, Binder.bindType_within within sound described]
  | resolve base raw mode => simp only [step, Binder.resolve_within within sound given]
  | fieldAt place index => exact read_within held (Binder.fieldAt_within within sound index)
  | fieldNamed place name => exact read_within held (Binder.fieldNamed_within within sound name)
  | bindAll place => exact read_within held (Binder.bindAll_within within sound)
  | takeOut place hop => rfl
  | reresolveAs place sibling =>
    simp only [step]
    cases found : caller.variant? place with
    | none => rfl
    | some variant =>
      obtain ⟨-, base, described⟩ := held.variant found
      simp only [Binder.reresolveAs_within within sound described]
  | narrow place =>
    simp only [step]
    cases found : caller.variant? place with
    | none => rfl
    | some variant =>
      obtain ⟨all, -⟩ := held.variant found
      simp only [Binder.narrow_within within sound all.here.schema]

/-- A program that begins with types of a registry runs alike whatever else is registered. -/
theorem run_within {actions : List Action} (within : binder.Within larger)
    (sound : binder.registry.Sound) (held : caller.Within binder.registry)
    (given : ∀ action ∈ actions, action.Within binder.registry) :
    caller.run larger actions = caller.run binder actions := by
  induction actions generalizing caller with
  | nil => rfl
  | cons action actions ih =>
    have first := given action List.mem_cons_self
    unfold run
    rw [step_within within sound held first]
    refine Logged.bind_congr ?_
    have rest := ih (held.step first) fun other mem => given other (List.mem_cons_of_mem _ mem)
    generalize (caller.step binder action).value = result at rest ⊢
    obtain ⟨sight, next⟩ := result
    dsimp only at rest ⊢
    rw [rest]

end Caller

end DebugLink
