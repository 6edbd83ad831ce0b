import DebugLink.Json.Basic
import Mathlib.Data.Rat.Cast.Order
import Mathlib.Tactic.FieldSimp
import Mathlib.Tactic.NormNum
import Mathlib.Tactic.Ring

/-!
# The exact value of a number

A number is worth a dyadic fraction, whatever its representation. `Number.toInt64?` takes a number
for a signed integer of 64 bits by rounding it to a double where it is not written as one, and by
comparing that double with the doubles next to the bounds. Neither the rounding nor the bounds do
harm: the numbers that it takes are those worth an integer in range, and it takes each for this
integer (`Number.toInt64?_eq_some`).
-/

set_option autoImplicit false

namespace DebugLink

/-! ## Doubles -/

namespace Double

def exact (d : Double) : ℚ :=
  (if d.negative then -1 else 1) * d.significand * 2 ^ ((max d.exponent 1 : ℕ) - 1075 : ℤ)

variable {d : Double} {n : ℤ}

theorem applySign_cast (negative : Bool) (magnitude : ℕ) :
    (applySign negative magnitude : ℚ) = (if negative then -1 else 1) * magnitude := by
  cases negative <;> simp [applySign]

theorem natAbs_applySign (negative : Bool) (magnitude : ℕ) :
    (applySign negative magnitude).natAbs = magnitude := by
  cases negative with
  | false => exact Int.natAbs_natCast magnitude
  | true => exact (Int.natAbs_neg _).trans (Int.natAbs_natCast magnitude)

theorem applySign_mul (negative : Bool) (m k : ℕ) :
    applySign negative (m * k) = applySign negative m * k := by
  cases negative <;> simp [applySign]

theorem exact_eq_div (d : Double) :
    d.exact = applySign d.negative d.numerator / d.denominator := by
  have power : (2 : ℚ) ^ ((max d.exponent 1 : ℕ) - 1075 : ℤ)
      = 2 ^ (max d.exponent 1 - 1075) / 2 ^ (1075 - max d.exponent 1) := by
    rw [eq_div_iff (by positivity), ← zpow_natCast, ← zpow_natCast, ← zpow_add₀ (by norm_num)]
    congr 1
    omega
  rw [exact, power, applySign_cast, numerator, denominator, Nat.pow_eq, Nat.pow_eq]
  push_cast
  ring

theorem whole?_eq_some : d.whole? = some n ↔ d.exact = n := by
  have positive := d.denominator_pos
  have nonzero : (d.denominator : ℚ) ≠ 0 := by positivity
  have worth : d.exact = n ↔ applySign d.negative d.numerator = n * d.denominator := by
    rw [exact_eq_div, div_eq_iff nonzero]
    exact_mod_cast Iff.rfl
  rw [worth, whole?]
  constructor
  · intro whole
    split at whole
    · rename_i divides
      cases whole
      rw [← applySign_mul, Nat.div_mul_cancel (Nat.dvd_of_mod_eq_zero divides)]
    · cases whole
  · intro same
    have divides : d.denominator ∣ d.numerator := by
      have among : (d.denominator : ℤ) ∣ applySign d.negative d.numerator := ⟨n, by rw [same]; ring⟩
      rw [← natAbs_applySign d.negative d.numerator]
      exact Int.natCast_dvd.1 among
    rw [if_pos (Nat.mod_eq_zero_of_dvd divides), Option.some.injEq]
    rw [← Nat.div_mul_cancel divides, applySign_mul] at same
    exact mul_right_cancel₀ (by exact_mod_cast positive.ne') same

def truncate (d : Double) : ℤ :=
  applySign d.negative (d.numerator / d.denominator)

theorem truncate_of_exact (worth : d.exact = n) : d.truncate = n := by
  have whole := whole?_eq_some.2 worth
  unfold whole? at whole
  split at whole
  · exact Option.some.inj whole
  · cases whole

/-! ## Rounding an integer to a double -/

theorem le_roundHalfEven {k num den : ℕ} (positive : 0 < den) (le : k * den ≤ num) :
    k ≤ roundHalfEven num den := by
  have low : k ≤ num / den := (Nat.le_div_iff_mul_le positive).2 le
  unfold roundHalfEven
  dsimp only
  split_ifs <;> omega

theorem roundHalfEven_le {k num den : ℕ} (positive : 0 < den) (lt : num < k * den) :
    roundHalfEven num den ≤ k := by
  have low : num / den < k := (Nat.div_lt_iff_lt_mul positive).2 lt
  unfold roundHalfEven
  dsimp only
  split_ifs <;> omega

theorem floorLog2_one {m k : ℕ} (lower : 2 ^ k ≤ m) (upper : m < 2 ^ (k + 1)) :
    floorLog2 m 1 = k := by
  have nonzero : m ≠ 0 := by
    have := Nat.two_pow_pos k
    omega
  have log : m.log2 = k := (Nat.log2_eq_iff nonzero).2 ⟨lower, upper⟩
  have one : Nat.log2 1 = 0 := by decide
  unfold floorLog2
  simp only [log, one, Nat.pow_eq]
  rw [if_neg] <;> simp [lower]

theorem exists_ofParts? (factor : ℕ) (scale : ℤ) (negative : Bool)
    (least : 0x10000000000000 ≤ factor) (most : factor < 0x20000000000000)
    (lower : -1075 < scale) (upper : scale < 972) :
    ∃ d, ofParts? negative factor scale = some d ∧
      d.exact = (if negative then -1 else 1) * factor * 2 ^ scale := by
  have bounds : (scale + 1075).toNat < 2047 ∧ factor - 0x10000000000000 < 0x10000000000000 := by
    omega
  refine ⟨_, by rw [ofParts?, dif_neg (by omega), dif_pos bounds], ?_⟩
  have normal : (scale + 1075).toNat ≠ 0 := by omega
  have least_exponent : max (scale + 1075).toNat 1 = (scale + 1075).toNat := by omega
  have worth : 0x10000000000000 + (factor - 0x10000000000000) = factor := by omega
  have same : ((scale + 1075).toNat - 1075 : ℤ) = scale := by omega
  rw [exact, significand]
  simp only [if_neg normal, least_exponent, worth, same]

/-- An integer that needs all of 64 bits is rounded to a multiple of `2 ^ 11`. -/
theorem exact_ofInt {m : ℕ} (lower : 0x8000000000000000 ≤ m) (upper : m < 0x10000000000000000) :
    (ofInt m).exact = roundHalfEven m 2048 * 2 ^ 11 := by
  have log : floorLog2 m 1 = 63 := floorLog2_one (k := 63) (by norm_num; omega) (by norm_num; omega)
  have least : 0x10000000000000 ≤ roundHalfEven m 2048 := le_roundHalfEven (by decide) (by omega)
  have most : roundHalfEven m 2048 ≤ 0x20000000000000 := roundHalfEven_le (by decide) (by omega)
  have scaled : nearest false m 1 =
      if roundHalfEven m 2048 = 0x20000000000000 then ofParts? false 0x10000000000000 12
      else ofParts? false (roundHalfEven m 2048) 11 := by
    have unscaled : (-(11 : ℤ)).toNat = 0 := rfl
    rw [nearest, if_neg (by omega)]
    norm_num [log, unscaled, show (11 : ℤ).toNat = 11 from rfl]
  have natural : ¬ (m : ℤ) < 0 := by omega
  rw [ofInt]
  simp only [natural, decide_false, Int.natAbs_natCast, scaled]
  by_cases carries : roundHalfEven m 2048 = 0x20000000000000
  · obtain ⟨d, made, worth⟩ := exists_ofParts? 0x10000000000000 12 false
      (by decide) (by decide) (by decide) (by decide)
    rw [if_pos carries, made, carries, Option.getD_some, worth]
    norm_num
  · obtain ⟨d, made, worth⟩ := exists_ofParts? _ 11 false least (by omega) (by decide)
      (by decide)
    rw [if_neg carries, made, Option.getD_some, worth]
    norm_num

theorem le_exact_ofInt {m : ℕ} (lower : 0x8000000000000000 ≤ m) (upper : m < 0x10000000000000000) :
    0x8000000000000000 ≤ (ofInt m).exact := by
  have least : 0x10000000000000 ≤ roundHalfEven m 2048 := le_roundHalfEven (by decide) (by omega)
  rw [exact_ofInt lower upper]
  exact_mod_cast Nat.mul_le_mul_right 2048 least

end Double

/-! ## Numbers -/

namespace Number

def exact : Number → ℚ
  | .integer value _ _ => value
  | .double value => value.exact

variable {number : Number} {n : ℤ}

theorem whole?_eq_some : number.whole? = some n ↔ number.exact = n := by
  cases number with
  | integer value => simp [whole?, exact]
  | double value => exact Double.whole?_eq_some

def asInt64? : Number → Option Int64
  | .integer value _ _ => if value < 0x8000000000000000 then some (.ofInt value) else none
  | .double _ => none

/-- Takes a number for a signed integer of 64 bits. One that is not written as such is rounded to a
double, which must be whole and lie between the doubles next to the bounds. Next to the upper bound
is the first integer out of range. -/
def toInt64? (number : Number) : Option Int64 :=
  number.asInt64?.or <|
    let d := number.toDouble
    if d.exact = d.truncate ∧ (Double.ofInt Int64.minValue.toInt).exact ≤ d.exact ∧
        d.exact < (Double.ofInt Int64.maxValue.toInt).exact then
      some (.ofIntClamp d.truncate)
    else
      none

theorem exact_ofInt_minValue :
    (Double.ofInt Int64.minValue.toInt).exact = -0x8000000000000000 := by
  have made : Double.ofInt Int64.minValue.toInt = ⟨true, 1086, 0, by decide, by decide⟩ := rfl
  rw [made]
  norm_num [Double.exact, Double.significand]

theorem exact_ofInt_maxValue :
    (Double.ofInt Int64.maxValue.toInt).exact = 0x8000000000000000 := by
  have made : Double.ofInt Int64.maxValue.toInt = ⟨false, 1086, 0, by decide, by decide⟩ := rfl
  rw [made]
  norm_num [Double.exact, Double.significand]

section

variable {value : ℤ} {lower : -0x8000000000000000 ≤ value} {upper : value < 0x10000000000000000}

theorem toInt64?_of_fitting (below : value < 0x8000000000000000) :
    (integer value lower upper).toInt64? = some (.ofInt value) := by
  simp [toInt64?, asInt64?, below]

/-- The double that is compared may lie above the integer, but not below the bound. -/
theorem toInt64?_of_large (above : 0x8000000000000000 ≤ value) :
    (integer value lower upper).toInt64? = none := by
  obtain ⟨m, rfl⟩ := Int.eq_ofNat_of_zero_le (show 0 ≤ value by omega)
  have rounded : 0x8000000000000000 ≤ (Double.ofInt m).exact :=
    Double.le_exact_ofInt (by omega) (by omega)
  simp only [toInt64?, asInt64?, if_neg (not_lt.2 above), Option.none_or, toDouble,
    exact_ofInt_maxValue]
  exact if_neg fun fits => absurd fits.2.2 (not_lt.2 rounded)

theorem toInt64?_of_double (d : Double) :
    (double d).toInt64? = if d.exact = d.truncate ∧ -0x8000000000000000 ≤ d.exact ∧
      d.exact < 0x8000000000000000 then some (.ofIntClamp d.truncate) else none := by
  simp only [toInt64?, asInt64?, Option.none_or, toDouble, exact_ofInt_minValue,
    exact_ofInt_maxValue]

end

theorem toInt_ofIntClamp (lower : -0x8000000000000000 ≤ n) (upper : n < 0x8000000000000000) :
    (Int64.ofIntClamp n).toInt = n :=
  Int64.toInt_ofIntClamp lower (Int.le_of_lt_add_one upper)

/-- The numbers that are taken are those worth an integer in range, and each is taken for it. -/
theorem toInt64?_eq_some :
    number.toInt64?.map Int64.toInt = some n ↔
      number.exact = n ∧ -0x8000000000000000 ≤ n ∧ n < 0x8000000000000000 := by
  cases number with
  | integer value lower upper =>
    rw [exact, Int.cast_inj]
    by_cases below : value < 0x8000000000000000
    · have kept : (Int64.ofInt value).toInt = value := Int64.toInt_ofInt_of_le lower below
      rw [toInt64?_of_fitting below, Option.map_some, kept, Option.some.injEq]
      constructor
      · rintro rfl
        exact ⟨rfl, lower, below⟩
      · exact And.left
    · rw [toInt64?_of_large (not_lt.1 below), Option.map_none]
      constructor
      · nofun
      · rintro ⟨rfl, -, inside⟩
        exact absurd inside below
  | double d =>
    rw [toInt64?_of_double, exact]
    constructor
    · intro taken
      split at taken
      · rename_i fits
        obtain ⟨whole, lower, upper⟩ := fits
        rw [whole] at lower upper
        have lower : -0x8000000000000000 ≤ d.truncate := by exact_mod_cast lower
        have upper : d.truncate < 0x8000000000000000 := by exact_mod_cast upper
        rw [Option.map_some, toInt_ofIntClamp lower upper, Option.some.injEq] at taken
        exact taken ▸ ⟨whole, lower, upper⟩
      · cases taken
    · rintro ⟨worth, lower, upper⟩
      have inside : (n : ℚ) = n ∧ -0x8000000000000000 ≤ (n : ℚ) ∧ (n : ℚ) < 0x8000000000000000 :=
        ⟨rfl, by exact_mod_cast lower, by exact_mod_cast upper⟩
      rw [worth, Double.truncate_of_exact worth, if_pos inside, Option.map_some,
        toInt_ofIntClamp lower upper]

end Number

end DebugLink
