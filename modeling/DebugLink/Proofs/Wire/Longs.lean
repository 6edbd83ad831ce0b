import DebugLink.Proofs.Json.Exactness
import DebugLink.Proofs.Wire.Grammar

/-!
# Longs are exact

A field of 64-bit integers takes a number just when the number is worth an integer in range, and
decodes to this integer (`Number.longs_are_exact`). The id of a frame is such a field, so a frame
that is told to be a response answers the call whose id it carries, and never a neighbour.
-/

set_option autoImplicit false

namespace DebugLink

/-- The number is worth an integer of 64 bits, one of which is the sign. -/
def Number.IsLong (number : Number) (n : ℤ) : Prop :=
  number.exact = n ∧ -0x8000000000000000 ≤ n ∧ n < 0x8000000000000000

namespace Binder

variable {binder : Binder} {schema : Schema} {raw : Json} {mode : Mode} {number : Number} {n : ℤ}
  {x : FieldValue}

theorem long?_number_eq_some : long? (.number number) = some n ↔ number.IsLong n := by
  simp [Dialect.long?_eq_some, Number.whole?_eq_some, Number.IsLong]

/-- Rounding to a double on the way gives no other integer. -/
theorem toInt64?_eq_long? (number : Number) :
    number.toInt64?.map Int64.toInt = long? (.number number) := by
  ext n
  exact Number.toInt64?_eq_some.trans long?_number_eq_some.symm

theorem coerce_number_long_eq_ok :
    (binder.coerce (.number number) .long mode).result = .ok x ↔
      ∃ n, number.IsLong n ∧ x = .long n := by
  rw [coerce_eq_coerceWith, coerceWith_long_eq_ok]
  simp only [long?_number_eq_some, eq_comm (a := FieldValue.long _)]

theorem bindField_long_eq_ok {field : Field} (kind : field.kind = .long)
    (member : raw.get? field.wire = some (.number number)) :
    (binder.bindField schema raw mode field).result = .ok x ↔
      ∃ n, number.IsLong n ∧ x = .long n := by
  obtain ⟨members, object, found⟩ := Option.bind_eq_some_iff.1 member
  have read : (binder.coerce (.number number) .long (field.mode.getD mode)).result = .ok x ↔
      ∃ n, number.IsLong n ∧ x = .long n := coerce_number_long_eq_ok
  rw [bindField, bindFieldWith_eq_ok, object, kind, ← read]
  constructor
  · rintro ⟨others, same, ⟨absent, -⟩ | ⟨null, -⟩ | ⟨value, held, -, coerced⟩⟩
    · cases same
      cases found.symm.trans absent
    · cases same
      cases found.symm.trans null
    · cases same
      cases found.symm.trans held
      exact coerced
  · intro coerced
    exact ⟨members, rfl, .inr (.inr ⟨_, found, by simp, coerced⟩)⟩

end Binder

theorem Dialect.worth_of_classify {dialect : Dialect} {binder : Binder} {raw : Json}
    {frame : ResponseFrame} (extending : binder.registry.Extends)
    (decoded : (dialect.classify binder raw).result = .ok (.response frame)) :
    ∃ number, raw.get? dialect.idKey = some (.number number) ∧ number.exact = frame.id.toNat := by
  obtain ⟨response, -⟩ := (classify_response_iff extending).1 decoded
  have numbered : raw.HasId dialect.idKey frame.id := by
    cases dialect
    · exact response.numbered
    · exact response.numbered
  obtain ⟨number, member, whole, -⟩ := numbered
  refine ⟨number, member, ?_⟩
  rw [Number.whole?_eq_some.1 whole, Int.cast_natCast]

/-- A number is taken for a long just when it is worth an integer in range, whether it is written
as an integer with or without a sign or as a double, and then it is taken for this integer. The way
through a double leads to the same. A frame that is told to be a response has the id that its member
is worth. -/
theorem Number.longs_are_exact (binder : Binder) :
    (∀ number : Number,
      number.toInt64?.map Int64.toInt = Binder.long? (.number number) ∧
      (∀ mode x, (binder.coerce (.number number) .long mode).result = .ok x ↔
        ∃ n, number.IsLong n ∧ x = .long n) ∧
      ∀ schema raw mode (field : Field) x, field.kind = .long →
        raw.get? field.wire = some (.number number) →
        ((binder.bindField schema raw mode field).result = .ok x ↔
          ∃ n, number.IsLong n ∧ x = .long n)) ∧
    ∀ extra, (Catalog.draft.registerAll extra).1.build = .ok binder.registry →
      ∀ (dialect : Dialect) raw frame,
        (dialect.classify binder raw).result = .ok (.response frame) →
        ∃ number, raw.get? dialect.idKey = some (.number number) ∧
          number.exact = frame.id.toNat := by
  constructor
  · intro number
    refine ⟨Binder.toInt64?_eq_long? number, ?_, ?_⟩
    · intro mode x
      exact Binder.coerce_number_long_eq_ok
    · intro schema raw mode field x kind member
      exact Binder.bindField_long_eq_ok kind member
  · intro extra built dialect raw frame decoded
    exact Dialect.worth_of_classify (Registry.extends_of_build built) decoded

def distantResponse : Json :=
  .object [("id", .number (.double ⟨false, 1076, 1, by decide, by decide⟩))]

/-- At the bounds: the first integer out of range is refused in either form and the least in range
is taken, negative zero is zero, and a double beyond `2 ^ 53` is the integer that it is worth. -/
theorem Number.longs_are_exact_at_bounds :
    (∀ x, ((Binder.mk Catalog.registry .reject).coerce
      (.number (.integer 0x8000000000000000 (by decide) (by decide))) .long .eager).result ≠ .ok x) ∧
    (∀ x, ((Binder.mk Catalog.registry .reject).coerce
      (.number (.double ⟨false, 1086, 0, by decide, by decide⟩)) .long .eager).result ≠ .ok x) ∧
    ((Binder.mk Catalog.registry .reject).coerce
      (.number (.double ⟨true, 1086, 0, by decide, by decide⟩)) .long .eager).result
        = .ok (.long (-0x8000000000000000)) ∧
    ((Binder.mk Catalog.registry .reject).coerce
      (.number (.double (.zero true))) .long .eager).result = .ok (.long 0) ∧
    ∃ frame, (Dialect.classify .wip (Binder.mk Catalog.registry .reject) distantResponse).result
        = .ok (.response frame) ∧ frame.id = 9007199254740994 ∧
      ∃ number, distantResponse.get? "id" = some (.number number) ∧
        number.exact = frame.id.toNat := by
  obtain ⟨longs, ids⟩ := longs_are_exact (Binder.mk Catalog.registry .reject)
  have built : (Catalog.draft.registerAll []).1.build = .ok Catalog.registry := by rfl
  obtain ⟨frame, decoded, named⟩ : ∃ frame,
      (Dialect.classify .wip (Binder.mk Catalog.registry .reject) distantResponse).result
        = .ok (.response frame) ∧ frame.id = 9007199254740994 := ⟨_, rfl, rfl⟩
  refine ⟨?_, ?_, ?_, ?_, frame, decoded, named, ids [] built .wip _ frame decoded⟩
  · intro x taken
    obtain ⟨n, ⟨worth, -, inside⟩, -⟩ := ((longs _).2.1 _ _).1 taken
    rw [exact, Int.cast_inj] at worth
    omega
  · intro x taken
    obtain ⟨n, ⟨worth, -, inside⟩, -⟩ := ((longs _).2.1 _ _).1 taken
    norm_num [exact, Double.exact, Double.significand] at worth
    have : (0x8000000000000000 : ℤ) = n := by exact_mod_cast worth
    omega
  · refine ((longs _).2.1 _ _).2 ⟨_, ⟨?_, by decide, by decide⟩, rfl⟩
    norm_num [exact, Double.exact, Double.significand]
  · refine ((longs _).2.1 _ _).2 ⟨_, ⟨?_, by decide, by decide⟩, rfl⟩
    norm_num [exact, Double.exact, Double.significand, Double.zero]

end DebugLink
