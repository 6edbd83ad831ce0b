import DebugLink.Json.Members
import DebugLink.Proofs.Wire.Identification

/-!
# What a response tells besides its outcome

A native response may describe remote objects and report whether the program runs. Both are taken
as they stand in the raw frame: the objects one by one, each whole and under its handle. A response
of the inspector protocol tells neither.
-/

set_option autoImplicit false

namespace DebugLink.Dialect

variable {binder : Binder} {schema : Schema} {raw : Json} {view : View} {frame : ResponseFrame}

structure Describes (entry : Int × Json) (item : Json) : Prop where
  whole : entry.2 = item
  handle : (item.get? "handle").bind Binder.long? = some entry.1

theorem told_of_v8Response (read : (v8Response binder view).result = .ok frame) :
    ∃ list running, (readField binder view "refs").result = .ok list ∧
      (readRefs binder (list.asList?.getD [])).result = .ok frame.refs ∧
      (readField binder view "running").result = .ok running ∧ running.asBool? = frame.running := by
  unfold v8Response at read
  obtain ⟨x, -, rest⟩ := Outcome.result_bind_eq_ok.1 read
  obtain ⟨id, -, rest⟩ := Outcome.result_bind_eq_ok.1 rest
  obtain ⟨success, -, rest⟩ := Outcome.result_bind_eq_ok.1 rest
  dsimp only at rest
  split at rest
  · obtain ⟨outcome, -, rest⟩ := Outcome.result_bind_eq_ok.1 rest
    obtain ⟨list, readList, rest⟩ := Outcome.result_bind_eq_ok.1 rest
    obtain ⟨refs, readAll, rest⟩ := Outcome.result_bind_eq_ok.1 rest
    obtain ⟨running, readRunning, last⟩ := Outcome.result_bind_eq_ok.1 rest
    cases last
    exact ⟨list, running, readList, readAll, readRunning, rfl⟩
  · obtain ⟨text, -, rest⟩ := Outcome.result_bind_eq_ok.1 rest
    rw [pure_bind] at rest
    obtain ⟨list, readList, rest⟩ := Outcome.result_bind_eq_ok.1 rest
    obtain ⟨refs, readAll, rest⟩ := Outcome.result_bind_eq_ok.1 rest
    obtain ⟨running, readRunning, last⟩ := Outcome.result_bind_eq_ok.1 rest
    cases last
    exact ⟨list, running, readList, readAll, readRunning, rfl⟩

theorem told_of_wipResponse (read : (wipResponse binder view).result = .ok frame) :
    frame.refs = [] ∧ frame.running = none := by
  unfold wipResponse at read
  obtain ⟨x, -, rest⟩ := Outcome.result_bind_eq_ok.1 read
  obtain ⟨id, -, rest⟩ := Outcome.result_bind_eq_ok.1 rest
  obtain ⟨error, -, rest⟩ := Outcome.result_bind_eq_ok.1 rest
  dsimp only at rest
  split at rest
  · obtain ⟨code, -, rest⟩ := Outcome.result_bind_eq_ok.1 rest
    obtain ⟨text, -, rest⟩ := Outcome.result_bind_eq_ok.1 rest
    cases rest
    exact ⟨rfl, rfl⟩
  · obtain ⟨outcome, -, last⟩ := Outcome.result_bind_eq_ok.1 rest
    cases last
    exact ⟨rfl, rfl⟩

/-! ## Fields as they are written -/

theorem handle_of_bound {item : Json} {x : FieldValue}
    (bound : (Binder.bindFieldWith binder.coerce schema item .eager
      (Catalog.required "handle" .long)).result = .ok x) :
    (item.get? "handle").bind Binder.long? = some (x.asLong?.getD 0) := by
  obtain ⟨members, object, cases⟩ := Binder.bindFieldWith_eq_ok.1 bound
  rcases cases with ⟨-, optional, -⟩ | ⟨-, nullable, -⟩ | ⟨value, found, -, coerced⟩
  · cases optional
  · cases nullable
  · change (binder.coerce value .long _).result = _ at coerced
    rw [Binder.coerce_eq_coerceWith] at coerced
    obtain ⟨n, long, rfl⟩ := Binder.coerceWith_long_eq_ok.1 coerced
    have member : item.get? "handle" = some value := by
      rw [Json.get?, object]
      exact found
    rw [member]
    exact long

theorem running_of_bound {x : FieldValue}
    (bound : (Binder.bindFieldWith binder.coerce schema raw .eager
      (Catalog.optional "running" .boolean)).result = .ok x) :
    x.asBool? = raw.flag? "running" := by
  obtain ⟨members, object, cases⟩ := Binder.bindFieldWith_eq_ok.1 bound
  have member : raw.get? "running" = members.lookup "running" := by
    rw [Json.get?, object]
    rfl
  rw [Json.flag?, member]
  rcases cases with ⟨absent, -, rfl⟩ | ⟨-, nullable, -⟩ | ⟨value, found, -, coerced⟩
  · change members.lookup "running" = none at absent
    rw [absent]
    rfl
  · cases nullable
  · change (binder.coerce value .boolean _).result = _ at coerced
    rw [Binder.coerce_eq_coerceWith] at coerced
    obtain ⟨b, flag, rfl⟩ := Binder.coerceWith_boolean_eq_ok.1 coerced
    change members.lookup "running" = some value at found
    rw [found]
    exact flag.symm

theorem describes_of_readRefs (extending : binder.registry.Extends) {items : List Json}
    {elements : List FieldValue} {refs : List (Int × Json)}
    (bound : List.Forall₂ (fun item x =>
      (binder.coerce item (.record "V8Ref") .eager).result = .ok x) items elements)
    (read : (readRefs binder elements).result = .ok refs) :
    List.Forall₂ Describes refs items := by
  induction bound generalizing refs with
  | nil =>
    cases read
    exact .nil
  | @cons item x items elements head tail ih =>
    rw [Binder.coerce_eq_coerceWith] at head
    obtain ⟨target, view, described, whole, rfl⟩ := Binder.coerceWith_record_eager_eq_ok.1 head
    cases (extending "V8Ref" _ rfl).symm.trans described
    unfold readRefs at read
    rw [List.filterMap_cons_some (show FieldValue.asRecord? (.record view) = some view from rfl),
      Outcome.result_mapM_eq_ok] at read
    cases read with
    | cons first others =>
      obtain ⟨x, field, last⟩ := Outcome.result_bind_eq_ok.1 first
      obtain ⟨y, same, handle⟩ := readField_of_bindEagerWith binder "handle" whole rfl rfl
      cases field.symm.trans same
      cases last
      refine .cons ⟨?_, handle_of_bound handle⟩ (ih (Outcome.result_mapM_eq_ok.2 others))
      obtain ⟨members, values, -, -, -, rfl⟩ := Binder.bindEagerWith_eq_ok.1 whole
      rfl

theorem refs_of_bound (extending : binder.registry.Extends) {x : FieldValue}
    {refs : List (Int × Json)}
    (bound : (Binder.bindFieldWith binder.coerce schema raw .eager
      (Catalog.optional "refs" (.list (.record "V8Ref")))).result = .ok x)
    (read : (readRefs binder (x.asList?.getD [])).result = .ok refs) :
    List.Forall₂ Describes refs (raw.items "refs") := by
  obtain ⟨members, object, cases⟩ := Binder.bindFieldWith_eq_ok.1 bound
  have member : raw.get? "refs" = members.lookup "refs" := by
    rw [Json.get?, object]
    rfl
  rw [Json.items, member]
  rcases cases with ⟨absent, -, rfl⟩ | ⟨-, nullable, -⟩ | ⟨value, found, -, coerced⟩
  · change members.lookup "refs" = none at absent
    rw [absent]
    cases read
    exact .nil
  · cases nullable
  · change (binder.coerce value (.list (.record "V8Ref")) .eager).result = _ at coerced
    rw [Binder.coerce_eq_coerceWith] at coerced
    obtain ⟨items, elements, array, each, rfl⟩ := Binder.coerceWith_list_eq_ok.1 coerced
    change members.lookup "refs" = some value at found
    rw [found, Option.bind_some, array]
    exact describes_of_readRefs extending each read

/-! ## Frames -/

theorem wip_tells_nothing
    (decoded : (classify .wip binder raw).result = .ok (.response frame)) :
    frame.refs = [] ∧ frame.running = none := by
  obtain ⟨base, variant, -, -, -, read⟩ := narrowed_of_classify decoded
  exact told_of_wipResponse read

/-- A native response is taken to describe the objects, and to report the running, that stand in
the raw frame. -/
theorem v8_tells_as_written (extending : binder.registry.Extends)
    (decoded : (classify .v8 binder raw).result = .ok (.response frame)) :
    List.Forall₂ Describes frame.refs (raw.items "refs") ∧
      frame.running = raw.flag? "running" := by
  obtain ⟨base, variant, described, narrowed, chosen, read⟩ := narrowed_of_classify decoded
  cases (extending "V8Incoming" _ rfl).symm.trans described
  obtain ⟨members, -, candidate, -, -, -, own, found, bound⟩ := candidate_of_resolve rfl narrowed
  rw [chosen] at found
  cases (extending "V8Response" _ rfl).symm.trans found
  obtain ⟨list, running, readList, readAll, readRunning, told⟩ := told_of_v8Response read
  obtain ⟨x, same, elements⟩ := readField_of_bindEagerWith binder "refs" bound rfl rfl
  cases readList.symm.trans same
  obtain ⟨y, same, flag⟩ := readField_of_bindEagerWith binder "running" bound rfl rfl
  cases readRunning.symm.trans same
  exact ⟨refs_of_bound extending elements readAll, told.symm.trans (running_of_bound flag)⟩

end DebugLink.Dialect
