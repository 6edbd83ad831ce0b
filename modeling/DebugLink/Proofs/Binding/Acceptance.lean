import DebugLink.Json.Members
import DebugLink.Proofs.Binding.Budget
import DebugLink.Proofs.Binding.Discrimination
import DebugLink.Proofs.Binding.Inversion

/-!
# Which objects bind to a record

An object binds eagerly to a record just when each field suits it: the member is of the kind of the
field, or it is absent and may be, or it is null and may be. What a bound field shows is then what
the member says when it is read from the raw object.
-/

set_option autoImplicit false

namespace DebugLink

/-! ## Forms of members -/

namespace Json

def IsIntegral (value : Json) : Prop := ∃ n, Binder.long? value = some n

def IsText (value : Json) : Prop := ∃ text, value = .string text

def IsFlag (value : Json) : Prop := ∃ flag, value = .bool flag

def Necessarily (raw : Json) (key : String) (form : Json → Prop) : Prop :=
  ∃ value, raw.get? key = some value ∧ form value

def Optionally (raw : Json) (key : String) (form : Json → Prop) : Prop :=
  ∀ value, raw.get? key = some value → form value

def integral? (raw : Json) (key : String) : Option Int := (raw.get? key).bind Binder.long?

variable {raw value : Json} {members : List (String × Json)}

theorem get?_of_object (object : raw.asMembers? = some members) (key : String) :
    raw.get? key = members.lookup key := by
  rw [get?, object]
  rfl

theorem object_of_get? {key : String} (member : raw.get? key = some value) :
    ∃ members, raw.asMembers? = some members := by
  obtain ⟨members, object, -⟩ := Option.bind_eq_some_iff.1 member
  exact ⟨members, object⟩

theorem Necessarily.object {key : String} {form : Json → Prop} (needed : raw.Necessarily key form) :
    ∃ members, raw.asMembers? = some members := by
  obtain ⟨value, member, -⟩ := needed
  exact object_of_get? member

@[simp] theorem ne_null_and_isIntegral : value ≠ .null ∧ value.IsIntegral ↔ value.IsIntegral := by
  refine and_iff_right_of_imp ?_
  rintro ⟨n, long⟩ rfl
  cases long

@[simp] theorem ne_null_and_isText : value ≠ .null ∧ value.IsText ↔ value.IsText := by
  refine and_iff_right_of_imp ?_
  rintro ⟨_, rfl⟩
  simp

@[simp] theorem ne_null_and_isFlag : value ≠ .null ∧ value.IsFlag ↔ value.IsFlag := by
  refine and_iff_right_of_imp ?_
  rintro ⟨_, rfl⟩
  simp

end Json

namespace Binder

variable {binder : Binder} {schema : Schema} {raw value : Json} {mode : Mode} {field : Field}
  {members : List (String × Json)}

/-! ## Kinds -/

def Coerces (binder : Binder) (kind : Kind) (mode : Mode) (value : Json) : Prop :=
  ∃ x, (binder.coerce value kind mode).result = .ok x

@[simp] theorem coerces_long : binder.Coerces .long mode value ↔ value.IsIntegral := by
  unfold Coerces
  rw [coerce_eq_coerceWith]
  simp only [coerceWith_long_eq_ok, Json.IsIntegral]
  constructor
  · rintro ⟨x, n, long, -⟩
    exact ⟨n, long⟩
  · rintro ⟨n, long⟩
    exact ⟨_, n, long, rfl⟩

@[simp] theorem coerces_boolean : binder.Coerces .boolean mode value ↔ value.IsFlag := by
  unfold Coerces
  rw [coerce_eq_coerceWith]
  simp only [coerceWith_boolean_eq_ok, Json.IsFlag]
  cases value <;> simp [Json.asBool?]

@[simp] theorem coerces_string : binder.Coerces .string mode value ↔ value.IsText := by
  unfold Coerces
  rw [coerce_eq_coerceWith]
  simp only [coerceWith_string_eq_ok, Json.IsText]
  cases value <;> simp [Json.asString?]

@[simp] theorem coerces_any : binder.Coerces .any mode value := by
  unfold Coerces
  rw [coerce_eq_coerceWith]
  exact ⟨_, rfl⟩

theorem coerces_record {type : String} (described : binder.describe? type = some schema) :
    binder.Coerces (.record type) .eager value ↔
      ∃ view, (binder.bindEager schema value).result = .ok view := by
  unfold Coerces
  rw [coerce_eq_coerceWith]
  simp only [coerceWith_record_eager_eq_ok, described, Option.some.injEq, exists_and_left,
    exists_eq_left']
  constructor
  · rintro ⟨x, view, bound, -⟩
    exact ⟨view, bound⟩
  · rintro ⟨view, bound⟩
    exact ⟨_, view, bound, rfl⟩

theorem coerces_list {element : Kind} :
    binder.Coerces (.list element) mode value ↔
      ∃ items, value = .array items ∧ ∀ item ∈ items, binder.Coerces element mode item := by
  unfold Coerces
  rw [coerce_eq_coerceWith]
  simp only [coerceWith_list_eq_ok]
  constructor
  · rintro ⟨x, items, xs, listed, each, -⟩
    refine ⟨items, ?_, fun item mem => ?_⟩
    · cases value <;> cases listed
      rfl
    · rw [← coerce_eq_coerceWith]
      obtain ⟨x, -, coerced⟩ := exists_of_mem_right each.flip mem
      exact ⟨x, coerced⟩
  · rintro ⟨items, rfl, each⟩
    rw [← coerce_eq_coerceWith] at each
    obtain ⟨xs, all⟩ := Outcome.exists_result_mapM each
    exact ⟨_, items, xs, rfl, Outcome.result_mapM_eq_ok.1 all, rfl⟩

/-! ## Fields and records -/

/-- A field suits an object: it takes the member, or does without it. -/
def Suits (binder : Binder) (raw : Json) (field : Field) : Prop :=
  match raw.get? field.wire with
  | none => field.optional = true
  | some .null => field.nullable = true
  | some value => binder.Coerces field.kind (field.mode.getD .eager) value

theorem exists_bindField_iff (object : raw.asMembers? = some members) :
    (∃ x, (binder.bindField schema raw .eager field).result = .ok x) ↔ binder.Suits raw field := by
  unfold bindField Suits
  simp only [bindFieldWith_eq_ok, object, Json.get?_of_object object, Option.some.injEq,
    exists_eq_left']
  cases members.lookup field.wire with
  | none => simp
  | some value => cases value <;> simp [Coerces]

theorem exists_bindEager_iff (object : raw.asMembers? = some members) :
    (∃ view, (binder.bindEager schema raw).result = .ok view) ↔
      (∀ field ∈ schema.fields, binder.Suits raw field) ∧ schema.undeclared? members = none := by
  have suits : ∀ field, binder.Suits raw field ↔
      ∃ x, (binder.bindField schema raw .eager field).result = .ok x :=
    fun _ => (exists_bindField_iff object).symm
  simp only [suits]
  constructor
  · rintro ⟨view, bound⟩
    obtain ⟨others, values, same, each, declared, -⟩ := bindEagerWith_eq_ok.1 bound
    cases object.symm.trans same
    refine ⟨fun field mem => ?_, declared⟩
    obtain ⟨x, -, value⟩ := exists_of_mem_right each.flip mem
    exact ⟨x, value⟩
  · rintro ⟨each, declared⟩
    obtain ⟨values, all⟩ := Outcome.exists_result_mapM each
    exact ⟨_, bindEagerWith_eq_ok.2
      ⟨members, values, object, Outcome.result_mapM_eq_ok.1 all, declared, rfl⟩⟩

theorem object_of_bindEager {view : View} (bound : (binder.bindEager schema raw).result = .ok view) :
    ∃ members, raw.asMembers? = some members := by
  obtain ⟨members, values, object, -⟩ := bindEagerWith_eq_ok.1 bound
  exact ⟨members, object⟩

theorem exists_bindEager_open_iff (opened : schema.allowsOthers = true) :
    (∃ view, (binder.bindEager schema raw).result = .ok view) ↔
      (∃ members, raw.asMembers? = some members) ∧
        ∀ field ∈ schema.fields, binder.Suits raw field := by
  have declared : ∀ members, schema.undeclared? members = none := by
    simp [Schema.undeclared?, opened]
  constructor
  · rintro ⟨view, bound⟩
    obtain ⟨members, object⟩ := object_of_bindEager bound
    exact ⟨⟨members, object⟩, ((exists_bindEager_iff object).1 ⟨view, bound⟩).1⟩
  · rintro ⟨⟨members, object⟩, each⟩
    exact (exists_bindEager_iff object).2 ⟨each, declared members⟩

theorem complete_of_bindEager (object : raw.asMembers? = some members) {view : View}
    (bound : (binder.bindEager schema raw).result = .ok view) : schema.Complete members := by
  intro field mem
  rintro ⟨required, absent⟩
  have suits := ((exists_bindEager_iff object).1 ⟨view, bound⟩).1 field mem
  rw [Suits, Json.get?_of_object object, absent] at suits
  simp [required] at suits

/-! ## Fields of the catalog -/

@[simp] theorem suits_required {name wire : String} {kind : Kind} :
    binder.Suits raw ⟨name, wire, false, false, kind, none⟩ ↔
      raw.Necessarily wire fun value => value ≠ .null ∧ binder.Coerces kind .eager value := by
  unfold Suits Json.Necessarily
  cases raw.get? wire with
  | none => simp
  | some value => cases value <;> simp

@[simp] theorem suits_optional {name wire : String} {kind : Kind} :
    binder.Suits raw ⟨name, wire, true, false, kind, none⟩ ↔
      raw.Optionally wire fun value => value ≠ .null ∧ binder.Coerces kind .eager value := by
  unfold Suits Json.Optionally
  cases raw.get? wire with
  | none => simp
  | some value => cases value <;> simp

@[simp] theorem suits_any {name wire : String} :
    binder.Suits raw ⟨name, wire, true, true, .any, none⟩ := by
  unfold Suits
  cases raw.get? wire with
  | none => simp
  | some value => cases value <;> simp

/-! ## What a bound field shows -/

section Shown

variable {x : FieldValue} (bound : (binder.bindField schema raw .eager field).result = .ok x)
include bound

theorem made_of_bound (solid : field.nullable = false) :
    (raw.get? field.wire = none ∧ x = .unset) ∨
      ∃ value, raw.get? field.wire = some value ∧
        (binder.coerceWith binder.coerce value field.kind (field.mode.getD .eager)).result
          = .ok x := by
  obtain ⟨members, object, cases⟩ := bindFieldWith_eq_ok.1 bound
  rw [Json.get?_of_object object, ← coerce_eq_coerceWith]
  rcases cases with ⟨absent, -, unset⟩ | ⟨-, nullable, -⟩ | ⟨value, found, -, coerced⟩
  · exact .inl ⟨absent, unset⟩
  · cases solid.symm.trans nullable
  · exact .inr ⟨value, found, coerced⟩

theorem shown_of_bound {α : Type} {shows : FieldValue → Option α} {reads : Json → Option α}
    (none : shows .unset = .none ∧ shows .null = .none ∧ reads .null = .none)
    (agrees : ∀ value mode,
      (binder.coerceWith binder.coerce value field.kind mode).result = .ok x →
        shows x = reads value) :
    shows x = (raw.get? field.wire).bind reads := by
  obtain ⟨members, object, cases⟩ := bindFieldWith_eq_ok.1 bound
  rw [Json.get?_of_object object]
  rcases cases with ⟨absent, -, rfl⟩ | ⟨null, -, rfl⟩ | ⟨value, found, -, coerced⟩
  · rw [absent]
    exact none.1
  · rw [null]
    exact none.2.1.trans none.2.2.symm
  · rw [coerce_eq_coerceWith] at coerced
    rw [found]
    exact agrees value _ coerced

theorem asLong?_of_bound (kind : field.kind = .long) : x.asLong? = raw.integral? field.wire := by
  refine shown_of_bound bound ⟨rfl, rfl, rfl⟩ fun value mode coerced => ?_
  rw [kind] at coerced
  obtain ⟨n, long, rfl⟩ := coerceWith_long_eq_ok.1 coerced
  exact long.symm

theorem asBool?_of_bound (kind : field.kind = .boolean) : x.asBool? = raw.flag? field.wire := by
  refine shown_of_bound bound ⟨rfl, rfl, rfl⟩ fun value mode coerced => ?_
  rw [kind] at coerced
  obtain ⟨flag, read, rfl⟩ := coerceWith_boolean_eq_ok.1 coerced
  exact read.symm

theorem asString?_of_bound (kind : field.kind = .string) : x.asString? = raw.text? field.wire := by
  refine shown_of_bound bound ⟨rfl, rfl, rfl⟩ fun value mode coerced => ?_
  rw [kind] at coerced
  obtain ⟨text, read, rfl⟩ := coerceWith_string_eq_ok.1 coerced
  exact read.symm

end Shown

end Binder

end DebugLink
