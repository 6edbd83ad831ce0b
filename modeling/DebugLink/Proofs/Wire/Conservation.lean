import DebugLink.Proofs.Binding.Callers
import DebugLink.Proofs.Wire.Envelope

/-!
# Adding schemas changes nothing that was there

What can be done with the types of a registry has the same outcome when further schemas are
registered: binding, narrowing and all that a caller does with the results. So no frame is
classified differently either, because a frame is narrowed from the envelope of its dialect.
-/

set_option autoImplicit false

namespace DebugLink

theorem FieldValue.mem_views_of_asRecord? {x : FieldValue} {inner : View}
    (held : x.asRecord? = some inner) : inner ∈ x.views := by
  cases x with
  | record | variant =>
    cases held
    exact List.mem_singleton.2 rfl
  | _ => cases held

theorem FieldValue.mem_views_of_asList? {x element : FieldValue} {inner : View}
    (listed : element ∈ x.asList?.getD []) (held : element.asRecord? = some inner) :
    inner ∈ x.views := by
  cases x with
  | list items => exact mem_viewsOfItems.2 ⟨element, listed, mem_views_of_asRecord? held⟩
  | _ => cases listed

namespace Dialect

variable {binder larger : Binder} {view : View} {raw : Json}

/-! ## Reading the fields of an envelope -/

theorem readField_within (within : binder.Within larger) (sound : binder.registry.Sound)
    (registered : view.schema ∈ binder.registry.schemas) (name : String) :
    readField larger view name = readField binder view name := by
  unfold readField
  rw [Binder.fieldNamed_within within sound name view registered]

/-- The views in a field that is read lie inside the view, or have been bound just now. -/
theorem all_of_fieldNamed {Given : Schema → Prop} {P : View → Prop} {name : String} {x : FieldValue}
    (keeps : binder.Keeps Given P) (all : view.All P)
    (gives : ((binder.fieldNamed name).run.run view).value.1 = .ok x) :
    ∀ inner ∈ x.views, inner.All P := by
  cases place : view.schema.fieldIndex? name with
  | none =>
    unfold Binder.fieldNamed at gives
    rw [Access.get_bind, place] at gives
    cases gives
  | some index =>
    rw [Binder.fieldNamed_of_index binder place] at gives
    obtain ⟨outcome, slot, read⟩ | ⟨field, -, -, read⟩ | ⟨-, read⟩ :=
      Binder.fieldAt_cases binder index view
    · rw [read] at gives
      cases gives
      exact fun inner mem => all.inside ⟨x, List.mem_of_getElem? slot, mem⟩
    · rw [read] at gives
      exact Binder.all_of_bindField keeps gives
    · rw [read] at gives
      cases gives

theorem all_of_readField {Given : Schema → Prop} {P : View → Prop} {name : String} {x : FieldValue}
    (keeps : binder.Keeps Given P) (all : view.All P)
    (read : (readField binder view name).result = .ok x) : ∀ inner ∈ x.views, inner.All P := by
  have gives : ((binder.fieldNamed name).run.run view).value.1.mapError FrameError.malformed
      = .ok x := read
  cases given : ((binder.fieldNamed name).run.run view).value.1 with
  | error error =>
    rw [given] at gives
    cases gives
  | ok y =>
    rw [given] at gives
    cases gives
    exact all_of_fieldNamed keeps all given

theorem registered_of_readField {name : String} {x : FieldValue}
    (all : view.All (View.Registered binder.registry))
    (read : (readField binder view name).result = .ok x) :
    ∀ inner ∈ x.views, inner.schema ∈ binder.registry.schemas :=
  fun inner mem => (all_of_readField binder.keeps_registered all read inner mem).here.schema

theorem readRefs_within {elements : List FieldValue} (within : binder.Within larger)
    (sound : binder.registry.Sound)
    (registered : ∀ element ∈ elements, ∀ inner, element.asRecord? = some inner →
      inner.schema ∈ binder.registry.schemas) :
    readRefs larger elements = readRefs binder elements := by
  refine mapM_congr_left fun entry mem => ?_
  obtain ⟨element, listed, held⟩ := List.mem_filterMap.1 mem
  rw [readField_within within sound (registered element listed entry held)]

theorem v8Response_within (within : binder.Within larger) (sound : binder.registry.Sound)
    (all : view.All (View.Registered binder.registry)) :
    v8Response larger view = v8Response binder view := by
  have field := readField_within within sound all.here.schema
  -- The references are read in both branches, from what has been read just before.
  have refs : ∀ rest : List (Int × Json) → Outcome FrameError ResponseFrame,
      (readField binder view "refs" >>= fun list =>
          readRefs larger (list.asList?.getD []) >>= rest)
        = readField binder view "refs" >>= fun list =>
          readRefs binder (list.asList?.getD []) >>= rest := by
    intro rest
    refine Outcome.bind_congr fun list read => ?_
    rw [readRefs_within within sound]
    intro element listed inner held
    exact registered_of_readField all read inner (FieldValue.mem_views_of_asList? listed held)
  simp only [v8Response, readPayload, field, refs]

theorem wipResponse_within (within : binder.Within larger) (sound : binder.registry.Sound)
    (all : view.All (View.Registered binder.registry)) :
    wipResponse larger view = wipResponse binder view := by
  have field := readField_within within sound all.here.schema
  simp only [wipResponse, readPayload, field]
  refine Outcome.bind_congr fun number _ => ?_
  refine Outcome.bind_congr fun id _ => ?_
  refine Outcome.bind_congr fun error read => ?_
  cases held : error.asRecord? with
  | none => rfl
  | some inner =>
    have registered :=
      registered_of_readField all read inner (FieldValue.mem_views_of_asRecord? held)
    simp only [readField_within within sound registered]

/-! ## Classifying frames -/

theorem classify_within (within : binder.Within larger) (sound : binder.registry.Sound)
    (dialect : Dialect) (known : binder.registry.Describes dialect.envelope) (raw : Json) :
    dialect.classify larger raw = dialect.classify binder raw := by
  obtain ⟨base, described⟩ := known
  unfold classify
  rw [Binder.describe?_within within described]
  refine Outcome.bind_congr fun schema found => ?_
  have registered := Binder.mem_of_describe? (Outcome.result_ofOption_eq_ok.1 found)
  rw [Binder.resolve_within within sound registered]
  refine Outcome.bind_congr fun variant narrowed => ?_
  have all := Binder.all_of_resolve binder.keeps_registered
    (Outcome.result_mapError_eq_ok.1 narrowed)
  have field := readField_within within sound all.here.schema
  dsimp only
  split
  · cases dialect with
    | v8 => rw [v8Response_within within sound all]
    | wip => rw [wipResponse_within within sound all]
  · cases dialect <;> simp only [readText, readPayload, field]

end Dialect

namespace Registry

/-- With the schemas of a registry and any others, all that can be done with the types of the
registry has the same outcome: binding, narrowing, and whatever a caller does with the results.
Schemas that are added to those of the dialects do not change how any frame is classified. -/
theorem extension_is_conservative {schemas more : List Schema} {registry extended : Registry}
    (built : (Draft.empty.registerAll schemas).1.build = .ok registry)
    (builtMore : (Draft.empty.registerAll more).1.build = .ok extended)
    (among : ∀ schema ∈ registry.schemas, schema ∈ extended.schemas) (ambiguity : AmbiguityPolicy) :
    (∀ schema ∈ registry.schemas, ∀ raw mode,
      Binder.bind ⟨extended, ambiguity⟩ schema raw mode
        = Binder.bind ⟨registry, ambiguity⟩ schema raw mode) ∧
    (∀ type, registry.Describes type → ∀ raw mode,
      Binder.bindType ⟨extended, ambiguity⟩ type raw mode
        = Binder.bindType ⟨registry, ambiguity⟩ type raw mode) ∧
    (∀ base ∈ registry.schemas, ∀ raw mode,
      Binder.resolve ⟨extended, ambiguity⟩ base raw mode
        = Binder.resolve ⟨registry, ambiguity⟩ base raw mode) ∧
    (∀ actions : List Action, (∀ action ∈ actions, action.Within registry) →
      Caller.empty.run ⟨extended, ambiguity⟩ actions
        = Caller.empty.run ⟨registry, ambiguity⟩ actions) ∧
    ∀ extra registered, (Catalog.draft.registerAll extra).1.build = .ok registered →
      ∀ (dialect : Dialect) raw, dialect.classify ⟨registered, ambiguity⟩ raw
        = dialect.classify ⟨Catalog.registry, ambiguity⟩ raw := by
  have sound : registry.Sound := Draft.sound_of_build built
  let binder : Binder := ⟨registry, ambiguity⟩
  have within : binder.Within ⟨extended, ambiguity⟩ := ⟨within_of_build builtMore among, rfl⟩
  refine ⟨?_, ?_, ?_, ?_, ?_⟩
  · intro schema registered raw mode
    exact Binder.bind_within within sound registered raw mode
  · rintro type ⟨schema, described⟩ raw mode
    exact Binder.bindType_within within sound described raw mode
  · intro base registered raw mode
    exact Binder.resolve_within within sound registered raw mode
  · intro actions given
    exact Caller.run_within within sound (.empty registry) given
  · intro extra registered grown dialect raw
    have catalogBuilt : Catalog.draft.build = .ok Catalog.registry := rfl
    have catalog : Catalog.registry.Sound := Draft.sound_of_build catalogBuilt
    let known : Binder := ⟨Catalog.registry, ambiguity⟩
    have larger : known.Within ⟨registered, ambiguity⟩ := ⟨extends_of_build grown, rfl⟩
    have enveloped : known.registry.Describes dialect.envelope := by
      cases dialect <;> exact ⟨_, rfl⟩
    exact Dialect.classify_within larger catalog dialect enveloped raw

def figures : List Schema := [
  ⟨"Page", [⟨"figure", "figure", false, false, .subtype "Figure", none⟩], true, none, none⟩,
  ⟨"Figure", [], true, none, some ⟨.structural, [⟨"Circle", []⟩, ⟨"Square", []⟩]⟩⟩,
  ⟨"Circle", [⟨"size", "size", false, false, .long, none⟩], true, some "Figure", none⟩,
  ⟨"Square", [⟨"size", "size", false, false, .long, none⟩], true, some "Figure", none⟩]

/-- A list of pages, which is registered before the types that it refers to. -/
def book : Schema :=
  ⟨"Book", [⟨"pages", "pages", false, false, .list (.record "Page"), none⟩], true, none, none⟩

def circlePage : Json :=
  .object [("figure", .object [("size", .ofUInt64 2)])]

def reshaping : List Action :=
  [.bindType "Page" circlePage .lazy, .fieldAt 0 0, .takeOut 0 ⟨0, []⟩, .reresolveAs 1 "Square"]

theorem extension_is_conservative_figures :
    (Draft.empty.registerAll figures).1.build = .ok ⟨openRecord :: figures⟩ ∧
    (Draft.empty.registerAll (book :: figures)).1.build = .ok ⟨openRecord :: book :: figures⟩ ∧
    (Caller.empty.run ⟨⟨openRecord :: book :: figures⟩, .firstMatch⟩ reshaping).value.2.holdings
      = [⟨⟨0, []⟩, none⟩, ⟨⟨0, [⟨0, []⟩]⟩, some ("Figure", "Circle")⟩,
          ⟨⟨1, []⟩, some ("Figure", "Square")⟩] := by
  have built : (Draft.empty.registerAll figures).1.build = .ok ⟨openRecord :: figures⟩ := rfl
  have builtMore : (Draft.empty.registerAll (book :: figures)).1.build
      = .ok ⟨openRecord :: book :: figures⟩ := rfl
  have among : ∀ schema ∈ openRecord :: figures, schema ∈ openRecord :: book :: figures := by
    intro schema mem
    rcases List.mem_cons.1 mem with rfl | own
    · exact List.mem_cons_self
    · exact List.mem_cons_of_mem _ (List.mem_cons_of_mem _ own)
  have given : ∀ action ∈ reshaping, action.Within ⟨openRecord :: figures⟩ := by
    have page : Registry.Describes ⟨openRecord :: figures⟩ "Page" := ⟨_, rfl⟩
    simpa [reshaping, Action.Within] using page
  obtain ⟨-, -, -, same, -⟩ := extension_is_conservative built builtMore among .firstMatch
  refine ⟨built, builtMore, ?_⟩
  rw [same reshaping given]
  rfl

end Registry

end DebugLink
