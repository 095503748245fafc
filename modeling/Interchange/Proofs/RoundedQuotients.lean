import Mathlib.Algebra.Order.Field.Power
import Mathlib.Algebra.Order.Field.Rat
import Mathlib.Tactic.FieldSimp
import Mathlib.Tactic.Linarith
import Mathlib.Tactic.LinearCombination
import Mathlib.Tactic.NormNum
import Mathlib.Tactic.Positivity
import Mathlib.Tactic.Ring
import Interchange.Number.Binary64
/-!
How far rounding takes a quotient. The pattern nearest to a quotient is half a unit in the last place
off the quotient at most, and it is finite below the middle between the largest double and the
next power of two.
-/
namespace Interchange

/-- The number of a finite datum, its sign aside. -/
def Datum.amount : Datum → ℚ
  | .finite _ significand exponent => significand * (2 : ℚ) ^ exponent
  | _ => 0

/-- A power of either sign as the quotient of powers that the formats compute with. -/
theorem power_parts (base : ℚ) (power : ℤ) :
    base ^ power.toNat / base ^ (-power).toNat = base ^ power := by
  rcases Int.le_total 0 power with above | below
  · obtain ⟨amount, rfl⟩ := Int.eq_ofNat_of_zero_le above
    simp
  · obtain ⟨amount, below⟩ := Int.eq_ofNat_of_zero_le (Int.neg_nonneg_of_nonpos below)
    obtain rfl : power = -(amount : ℤ) := by omega
    simp

/-- Half a unit is a half in units. -/
theorem units_near {units number unit : ℚ} (positive : 0 < unit) :
    |units * unit - number| ≤ unit / 2 ↔ |units - number / unit| ≤ 1 / 2 := by
  have split : units * unit - number = (units - number / unit) * unit := by
    rw [sub_mul, div_mul_cancel₀ _ positive.ne']
  have half : unit / 2 = 1 / 2 * unit := (one_div_mul_eq_div 2 unit).symm
  rw [split, abs_mul, abs_of_pos positive, half, mul_le_mul_iff_of_pos_right positive]

namespace BinaryFormat

theorem unscale_quotient (numerator denominator : Nat) (exponent : Int) :
    ((unscale numerator denominator exponent).1 : ℚ) /
        (unscale numerator denominator exponent).2 =
      numerator / denominator / (2 : ℚ) ^ exponent := by
  rw [← power_parts 2 exponent, unscale]
  push_cast
  field_simp

section Even
variable (numerator denominator : Nat)

theorem even_within :
    2 * (quotientToEven numerator denominator * denominator) ≤ 2 * numerator + denominator ∧
      (0 < denominator →
        2 * numerator ≤ 2 * (quotientToEven numerator denominator * denominator) + denominator) := by
  have split := Nat.div_add_mod numerator denominator
  have rest := Nat.mod_lt (y := denominator) numerator
  have parity := Nat.mod_lt (numerator / denominator) two_pos
  have carried : (numerator / denominator + 1) * denominator =
      numerator / denominator * denominator + denominator := Nat.succ_mul _ _
  rw [Nat.mul_comm] at split
  unfold quotientToEven
  simp only
  split
  · omega
  · split
    · omega
    · have least : numerator / denominator * denominator ≤
          (numerator / denominator + numerator / denominator % 2) * denominator :=
        Nat.mul_le_mul_right _ (Nat.le_add_right _ _)
      have most : (numerator / denominator + numerator / denominator % 2) * denominator ≤
          (numerator / denominator + 1) * denominator := Nat.mul_le_mul_right _ (by omega)
      omega

theorem even_near {denominator : Nat} (positive : 0 < denominator) :
    |(quotientToEven numerator denominator : ℚ) - numerator / denominator| ≤ 1 / 2 := by
  obtain ⟨most, least⟩ := even_within numerator denominator
  have high : (2 * (quotientToEven numerator denominator * denominator) : ℚ) ≤
      2 * numerator + denominator := by
    exact_mod_cast most
  have low : (2 * numerator : ℚ) ≤
      2 * (quotientToEven numerator denominator * denominator) + denominator := by
    exact_mod_cast least positive
  have filled : (0 : ℚ) < denominator := by exact_mod_cast positive
  have whole : (numerator / denominator : ℚ) * denominator = numerator :=
    div_mul_cancel₀ _ filled.ne'
  rw [abs_le]
  constructor <;> nlinarith

/-- A quotient that is a half off what it is rounded to is rounded to an even integer. -/
theorem even_tie {denominator : Nat} (positive : 0 < denominator)
    (tie : |(quotientToEven numerator denominator : ℚ) - numerator / denominator| = 1 / 2) :
    quotientToEven numerator denominator % 2 = 0 := by
  have filled : (0 : ℚ) < denominator := by exact_mod_cast positive
  have whole : (numerator / denominator : ℚ) * denominator = numerator :=
    div_mul_cancel₀ _ filled.ne'
  have half : 2 * (quotientToEven numerator denominator * denominator) =
        2 * numerator + denominator ∨
      2 * numerator = 2 * (quotientToEven numerator denominator * denominator) + denominator := by
    rcases (abs_eq one_half_pos.le).mp tie with above | below
    · left
      have scaled : (2 * (quotientToEven numerator denominator * denominator) : ℚ) =
          2 * numerator + denominator := by
        linear_combination (2 * denominator : ℚ) * above + 2 * whole
      exact_mod_cast scaled
    · right
      have scaled : (2 * numerator : ℚ) =
          2 * (quotientToEven numerator denominator * denominator) + denominator := by
        linear_combination (-2 * denominator : ℚ) * below - 2 * whole
      exact_mod_cast scaled
  have split := Nat.div_add_mod numerator denominator
  have rest := Nat.mod_lt numerator positive
  have carried : (numerator / denominator + 1) * denominator =
      numerator / denominator * denominator + denominator := Nat.succ_mul _ _
  rw [Nat.mul_comm] at split
  unfold quotientToEven at half ⊢
  simp only at half ⊢
  split at half
  case isTrue lower => omega
  case isFalse upper =>
      split at half
      case isTrue above => omega
      case isFalse =>
          rw [if_neg upper, if_neg (by assumption)]
          omega

theorem even_most {numerator denominator bound : Nat} (below : numerator < bound * denominator) :
    quotientToEven numerator denominator ≤ bound := by
  have within := (even_within numerator denominator).1
  by_contra beyond
  have carried : (bound + 1) * denominator ≤ quotientToEven numerator denominator * denominator :=
    Nat.mul_le_mul_right _ (Nat.lt_of_not_le beyond)
  rw [Nat.succ_mul] at carried
  omega

theorem even_least : numerator / denominator ≤ quotientToEven numerator denominator := by
  unfold quotientToEven
  simp only
  split
  · exact Nat.le_refl _
  · split
    · exact Nat.le_succ _
    · exact Nat.le_add_right _ _

end Even

variable (format : BinaryFormat)

/-- An exponent at which a number has the digits of the format: as many as it has, or fewer at the
least exponent only. -/
structure Placed (number : ℚ) (exponent : Int) : Prop where
  least : format.leastExponent ≤ exponent
  below : number < (2 : ℚ) ^ (exponent + format.precision)
  above : format.leastExponent < exponent → (2 : ℚ) ^ (exponent + format.precision - 1) ≤ number

theorem log_below {number : Nat} (some : number ≠ 0) :
    (2 : ℚ) ^ (number.log2 : ℤ) ≤ number ∧ (number : ℚ) < (2 : ℚ) ^ (number.log2 + 1 : ℤ) := by
  constructor
  · rw [zpow_natCast]
    exact_mod_cast Nat.log2_self_le some
  · have next : ((number.log2 : ℤ) + 1) = ((number.log2 + 1 : Nat) : ℤ) := by push_cast; rfl
    rw [next, zpow_natCast]
    exact_mod_cast Nat.lt_log2_self

section Places
variable {numerator denominator : Nat} (positive : denominator ≠ 0)

include positive

theorem unscale_positive (exponent : Int) :
    0 < (unscale numerator denominator exponent).2 := by
  unfold unscale
  positivity

/-- The estimate of the exponent by the digits of both numbers is one short at most. -/
theorem estimate_within (some : numerator ≠ 0) {estimate : Int}
    (estimated : (numerator.log2 : ℤ) - denominator.log2 - format.precision = estimate) :
    (2 : ℚ) ^ (estimate + format.precision - 1) < numerator / denominator ∧
      (numerator / denominator : ℚ) < (2 : ℚ) ^ (estimate + format.precision + 1) := by
  obtain ⟨topLow, topHigh⟩ := log_below some
  obtain ⟨bottomLow, bottomHigh⟩ := log_below positive
  have bottom : (0 : ℚ) < denominator := by positivity
  constructor
  · rw [lt_div_iff₀ bottom]
    calc (2 : ℚ) ^ (estimate + format.precision - 1) * denominator
        < (2 : ℚ) ^ (estimate + format.precision - 1) * (2 : ℚ) ^ (denominator.log2 + 1 : ℤ) := by
          gcongr
      _ = (2 : ℚ) ^ (numerator.log2 : ℤ) := by
          rw [← zpow_add₀ two_ne_zero]
          congr 1
          omega
      _ ≤ numerator := topLow
  · rw [div_lt_iff₀ bottom]
    calc (numerator : ℚ) < (2 : ℚ) ^ (numerator.log2 + 1 : ℤ) := topHigh
      _ = (2 : ℚ) ^ (estimate + format.precision + 1) * (2 : ℚ) ^ (denominator.log2 : ℤ) := by
          rw [← zpow_add₀ two_ne_zero]
          congr 1
          omega
      _ ≤ (2 : ℚ) ^ (estimate + format.precision + 1) * denominator := by gcongr

/-- Comparing parts at an exponent compares the quotient with the power that a digit more needs. -/
theorem unscaled_reaches (exponent : Int) :
    2 ^ format.precision * (unscale numerator denominator exponent).2 ≤
        (unscale numerator denominator exponent).1 ↔
      (2 : ℚ) ^ (exponent + format.precision) ≤ numerator / denominator := by
  have scaled := unscale_quotient numerator denominator exponent
  have filled : (0 : ℚ) < (unscale numerator denominator exponent).2 := by
    exact_mod_cast unscale_positive positive exponent
  rw [add_comm, zpow_add₀ two_ne_zero, ← le_div_iff₀ (by positivity), ← scaled,
    le_div_iff₀ filled, zpow_natCast]
  exact_mod_cast Iff.rfl

theorem quotient_placed (some : numerator ≠ 0) :
    format.Placed (numerator / denominator) (format.placeExponent numerator denominator) := by
  unfold placeExponent
  simp only
  generalize estimated :
    ((numerator.log2 : ℤ) - denominator.log2 - format.precision : ℤ) = estimate
  obtain ⟨low, high⟩ := format.estimate_within positive some estimated
  split
  next reached =>
    have grown := (format.unscaled_reaches positive _).mp reached
    have same : max format.leastExponent estimate = estimate := by
      by_contra other
      have short : estimate + format.precision + 1 ≤
          max format.leastExponent estimate + format.precision := by omega
      have beyond := zpow_le_zpow_right₀ (one_le_two : (1 : ℚ) ≤ 2) short
      linarith
    rw [same] at grown ⊢
    refine ⟨by omega, ?_, fun _ => ?_⟩
    · rwa [add_right_comm]
    · rwa [add_right_comm, add_sub_cancel_right]
  next short =>
    rw [format.unscaled_reaches positive, not_le] at short
    refine ⟨by omega, short, fun larger => ?_⟩
    have same : max format.leastExponent estimate = estimate := by omega
    rw [same]
    exact low.le

end Places

/-- The nearest pattern counts units of the exponent. They are half a unit off the number at most, and
even if they are. -/
theorem nearest_units {numerator denominator : Nat} (some : numerator ≠ 0)
    (positive : denominator ≠ 0) :
    ∃ (exponent : Int) (units : Nat), format.Placed (numerator / denominator) exponent ∧
      units ≤ 2 ^ format.precision ∧
      (format.leastExponent < exponent → 2 ^ format.fractionWidth ≤ units) ∧
      |(units : ℚ) * (2 : ℚ) ^ exponent - numerator / denominator| ≤ (2 : ℚ) ^ exponent / 2 ∧
      (|(units : ℚ) - numerator / denominator / (2 : ℚ) ^ exponent| = 1 / 2 → units % 2 = 0) ∧
      format.nearest numerator denominator = min format.infinityPattern
        (units + (exponent - format.leastExponent).toNat * 2 ^ format.fractionWidth) := by
  have placed := format.quotient_placed positive some
  rw [nearest, if_neg some]
  simp only
  generalize format.placeExponent numerator denominator = exponent at placed ⊢
  have scaled := unscale_quotient numerator denominator exponent
  have filled : 0 < (unscale numerator denominator exponent).2 := unscale_positive positive exponent
  generalize unscale numerator denominator exponent = parts at scaled filled ⊢
  obtain ⟨top, bottom⟩ := parts
  simp only at scaled filled ⊢
  have unit : (0 : ℚ) < (2 : ℚ) ^ exponent := by positivity
  have least : (0 : ℚ) < bottom := by exact_mod_cast filled
  refine ⟨exponent, _, placed, ?_, fun larger => ?_, ?_, scaled ▸ even_tie top filled, rfl⟩
  · have below := placed.below
    rw [add_comm, zpow_add₀ two_ne_zero, ← div_lt_iff₀ unit, ← scaled, div_lt_iff₀ least,
      zpow_natCast] at below
    have short : top < 2 ^ format.precision * bottom := by exact_mod_cast below
    exact even_most short
  · have above := placed.above larger
    have split : exponent + format.precision - 1 = (format.fractionWidth : ℤ) + exponent := by
      rw [precision]
      push_cast
      omega
    rw [split, zpow_add₀ two_ne_zero, ← le_div_iff₀ unit, ← scaled, le_div_iff₀ least,
      zpow_natCast] at above
    have full : 2 ^ format.fractionWidth * bottom ≤ top := by exact_mod_cast above
    exact ((Nat.le_div_iff_mul_le filled).mpr full).trans (even_least top bottom)
  · rw [units_near unit, ← scaled]
    exact even_near top filled

/-- Counting on from the patterns of an exponent carries into the next one. -/
theorem finite_amount (negative : Bool) {units steps : Nat} (within : units ≤ 2 ^ format.precision)
    (full : steps ≠ 0 → 2 ^ format.fractionWidth ≤ units) :
    (format.finiteDatum negative (units + steps * 2 ^ format.fractionWidth)).amount =
      units * (2 : ℚ) ^ (format.leastExponent + steps) := by
  have filled := Nat.two_pow_pos format.fractionWidth
  rw [precision, Nat.pow_succ] at within
  unfold finiteDatum
  simp only [Nat.add_mul_mod_self_right, Nat.add_mul_div_right _ _ filled]
  generalize (2 ^ format.fractionWidth : Nat) = span at within full filled ⊢
  rcases Nat.lt_or_ge units span with low | high
  · have none : steps = 0 := by
      by_contra other
      exact absurd (full other) (Nat.not_le.mpr low)
    simp [none, Nat.div_eq_of_lt low, Nat.mod_eq_of_lt low, Datum.amount]
  · obtain ⟨fraction, rfl⟩ := Nat.exists_eq_add_of_le high
    rcases Nat.lt_or_ge fraction span with inside | carry
    · have field : (span + fraction) / span = 1 := by
        rw [Nat.add_div_left _ filled, Nat.div_eq_of_lt inside]
      have behind : (span + fraction) % span = fraction := by
        rw [Nat.add_mod_left, Nat.mod_eq_of_lt inside]
      rw [field, behind, if_neg (by omega), Datum.amount]
      push_cast
      rw [add_comm (fraction : ℚ), add_sub_cancel_left]
    · obtain rfl : fraction = span := by omega
      have field : (fraction + fraction) / fraction = 2 := by
        rw [Nat.add_div_left _ filled, Nat.div_self filled]
      have behind : (fraction + fraction) % fraction = 0 := by simp
      have next : format.leastExponent + ((2 + steps : Nat) - 1 : ℤ) =
          format.leastExponent + steps + 1 := by
        push_cast
        omega
      rw [field, behind, if_neg (by omega), Datum.amount, next, zpow_add_one₀ two_ne_zero]
      push_cast
      ring

/-- The middle between the largest double and the next power of two, where infinity begins. -/
def doubleEnd : ℚ := (2 ^ 53 - 1 / 2) * (2 : ℚ) ^ (971 : ℤ)

/-- Half the least double. -/
def leastHalf : ℚ := (2 : ℚ) ^ (-1075 : ℤ)

theorem half_positive : 0 < leastHalf := by
  rw [leastHalf]
  positivity

section Double
variable {numerator denominator : Nat} (positive : denominator ≠ 0)
include positive

theorem double_finite (below : (numerator / denominator : ℚ) < doubleEnd) :
    double.nearest numerator denominator < double.infinityPattern := by
  by_cases none : numerator = 0
  · rw [nearest, if_pos none]
    decide
  obtain ⟨exponent, units, placed, fits, -, near, -, counted⟩ :=
    double.nearest_units none positive
  have within := (abs_le.mp near).2
  have least : double.leastExponent = -1074 := by decide
  have precise : double.precision = 53 := by decide
  have width : double.fractionWidth = 52 := rfl
  have top : double.infinityPattern = 2047 * 2 ^ 52 := by decide
  rw [precise] at fits
  rw [doubleEnd] at below
  rw [counted, least, width, top, min_lt_iff]
  right
  rcases Int.lt_trichotomy exponent 971 with lower | rfl | higher
  · omega
  · have short : (units : ℚ) * (2 : ℚ) ^ (971 : ℤ) < 2 ^ 53 * (2 : ℚ) ^ (971 : ℤ) := by
      generalize (2 : ℚ) ^ (971 : ℤ) = last at within below ⊢
      linarith only [within, below]
    have fewer : (units : ℚ) < 2 ^ 53 := lt_of_mul_lt_mul_right short (by positivity)
    have counts : units < 2 ^ 53 := by exact_mod_cast fewer
    have steps : (971 - -1074 : Int).toNat = 2045 := rfl
    rw [steps]
    omega
  · have above := placed.above (by omega)
    have power : (2 : ℚ) ^ (53 + 971 : ℤ) ≤ (2 : ℚ) ^ (exponent + double.precision - 1) :=
      zpow_le_zpow_right₀ one_le_two (by omega)
    have last : (0 : ℚ) < (2 : ℚ) ^ (971 : ℤ) := by positivity
    have whole : (2 : ℚ) ^ (53 : ℤ) = 2 ^ 53 := rfl
    rw [zpow_add₀ two_ne_zero, whole] at power
    generalize (2 : ℚ) ^ (971 : ℤ) = last at power below last
    linarith only [power, above, below, last]

/-- What a number is rounded to, as units of the exponent at which it has the digits of a double. -/
theorem double_units (negative : Bool) (some : numerator ≠ 0)
    (finite : double.nearest numerator denominator < double.infinityPattern) :
    ∃ (exponent : Int) (units : Nat), double.Placed (numerator / denominator) exponent ∧
      |(units : ℚ) * (2 : ℚ) ^ exponent - numerator / denominator| ≤ (2 : ℚ) ^ exponent / 2 ∧
      (double.finiteDatum negative (double.nearest numerator denominator)).amount =
        units * (2 : ℚ) ^ exponent := by
  obtain ⟨exponent, units, placed, fits, full, near, -, counted⟩ :=
    double.nearest_units some positive
  have reached := counted ▸ finite
  rw [min_lt_iff] at reached
  have inside := reached.resolve_left (lt_irrefl _)
  have placedLeast := placed.least
  have stepped : double.leastExponent + ((exponent - double.leastExponent).toNat : ℤ) = exponent := by
    omega
  refine ⟨exponent, units, placed, near, ?_⟩
  rw [counted, min_eq_right inside.le,
    double.finite_amount negative fits (fun steps => full (by omega)), stepped]

/-- Rounding is a part in `2 ^ 53` off at most, or below all digits half the least double. -/
theorem double_error (negative : Bool)
    (finite : double.nearest numerator denominator < double.infinityPattern) :
    |(double.finiteDatum negative (double.nearest numerator denominator)).amount -
        numerator / denominator| ≤
      max (numerator / denominator / 2 ^ 53 : ℚ) leastHalf := by
  by_cases none : numerator = 0
  · have zero : (double.finiteDatum negative 0).amount = 0 := by simp [finiteDatum, Datum.amount]
    rw [nearest, if_pos none, zero, none, Nat.cast_zero, zero_div, sub_zero, abs_zero]
    exact le_max_of_le_right half_positive.le
  obtain ⟨exponent, units, placed, near, amount⟩ := double_units positive negative none finite
  have least : double.leastExponent = -1074 := by decide
  have precise : double.precision = 53 := by decide
  rw [amount]
  refine near.trans ?_
  rcases Int.lt_or_eq_of_le placed.least with larger | same
  · have above := placed.above larger
    have split : exponent + double.precision - 1 = 52 + exponent := by omega
    have digits : ((2 : ℚ) ^ (52 : ℤ)) = 2 ^ 52 := rfl
    rw [split, zpow_add₀ two_ne_zero, digits] at above
    refine le_max_of_le_left ?_
    linarith
  · refine le_max_of_le_right ?_
    have half : (2 : ℚ) ^ (-1074 - 1 : ℤ) = (2 : ℚ) ^ (-1074 : ℤ) * 2⁻¹ :=
      zpow_sub_one₀ two_ne_zero _
    rw [← same, least, div_eq_mul_inv, ← half]
    rfl

end Double

end BinaryFormat

namespace Binary64

open BinaryFormat

/-- A pattern below infinity, with its sign, is read as the finite datum it counts. -/
theorem datum_signed (negative : Bool) {pattern : Nat} (finite : pattern < double.infinityPattern) :
    (ofPattern (double.signed negative pattern)).datum = double.finiteDatum negative pattern := by
  have top : double.infinityPattern = 2047 * 2 ^ 52 := by decide
  have sign : double.signPattern = 2 ^ 63 := by decide
  have bits : (UInt64.ofNat (double.signed negative pattern)).toNat =
      double.signed negative pattern := by
    rw [UInt64.toNat_ofNat', Nat.mod_eq_of_lt]
    unfold signed
    split <;> omega
  rw [datum, ofPattern, bits, BinaryFormat.datum]
  cases negative with
  | true =>
      have within : (double.signPattern + pattern) % double.signPattern = pattern := by
        rw [Nat.add_mod_left, Nat.mod_eq_of_lt (by omega)]
      have signs : double.signPattern ≤ double.signPattern + pattern := Nat.le_add_right _ _
      simp only [signed, ↓reduceIte, within, signs, decide_true]
      rw [if_neg (by omega), if_neg (by omega)]
  | false =>
      have within : pattern % double.signPattern = pattern := Nat.mod_eq_of_lt (by omega)
      have unsigned : ¬ double.signPattern ≤ pattern := by omega
      simp only [signed, Bool.false_eq_true, ↓reduceIte, within, unsigned, decide_false]
      rw [if_neg (by omega), if_neg (by omega)]

/-- A quotient that is rounded to a finite double, with the error of rounding. -/
theorem of_quotient (negative : Bool) (numerator : Nat) {denominator : Nat}
    (positive : denominator ≠ 0)
    (finite : double.nearest numerator denominator < double.infinityPattern) :
    ∃ significand exponent,
      (ofQuotient negative numerator denominator).datum = .finite negative significand exponent ∧
      |(Datum.finite negative significand exponent).amount - numerator / denominator| ≤
        max (numerator / denominator / 2 ^ 53 : ℚ) leastHalf := by
  obtain ⟨significand, exponent, counted⟩ : ∃ significand exponent,
      double.finiteDatum negative (double.nearest numerator denominator) =
        .finite negative significand exponent := by
    unfold finiteDatum
    simp only
    split
    · exact ⟨_, _, rfl⟩
    · exact ⟨_, _, rfl⟩
  refine ⟨significand, exponent, ?_, ?_⟩
  · rw [ofQuotient, BinaryFormat.ofQuotient, datum_signed negative finite, counted]
  · rw [← counted]
    exact double_error positive negative finite

theorem of_nat (number : Nat) (below : (number : ℚ) < doubleEnd) :
    ∃ significand exponent, (ofNat number).datum = .finite false significand exponent ∧
      |(Datum.finite false significand exponent).amount - number| ≤ number / 2 ^ 53 := by
  have whole : ((number : ℚ) / (1 : Nat)) = number := by rw [Nat.cast_one, div_one]
  obtain ⟨significand, exponent, counted, error⟩ :=
    of_quotient false number one_ne_zero (double_finite one_ne_zero (whole.symm ▸ below))
  rw [whole] at error
  refine ⟨significand, exponent, counted, ?_⟩
  rcases Nat.eq_zero_or_pos number with rfl | some
  · have zero : (ofNat 0).datum = .finite false 0 (-1074) := by decide
    obtain ⟨-, rfl, -⟩ := Datum.finite.inj (counted.symm.trans zero)
    simp [Datum.amount]
  · have one : (1 : ℚ) ≤ number := by exact_mod_cast some
    have least : leastHalf ≤ (2 : ℚ) ^ (-53 : ℤ) :=
      zpow_le_zpow_right₀ one_le_two (by decide)
    have part : (2 : ℚ) ^ (-53 : ℤ) = 1 / 2 ^ 53 := by norm_num
    rw [part] at least
    rwa [max_eq_left (by linarith)] at error

/-! Products and quotients of finite doubles, as what is rounded. -/
section Operations
variable {left right : Binary64} {first second : Bool} {a b : Nat} {p q : Int}
  (one : left.datum = .finite first a p) (other : right.datum = .finite second b q)
include one other

theorem multiply_quotient : ∃ numerator denominator : Nat, denominator ≠ 0 ∧
    left.multiply right = ofQuotient (first != second) numerator denominator ∧
    (numerator / denominator : ℚ) =
      (Datum.finite first a p).amount * (Datum.finite second b q).amount := by
  refine ⟨a * b * 2 ^ (p + q).toNat, 2 ^ (-(p + q)).toNat, (Nat.two_pow_pos _).ne', ?_, ?_⟩
  · rw [multiply, one, other]
    rfl
  · push_cast
    rw [mul_div_assoc, power_parts, zpow_add₀ two_ne_zero, Datum.amount, Datum.amount]
    ring

theorem divide_quotient (some : b ≠ 0) : ∃ numerator denominator : Nat, denominator ≠ 0 ∧
    left.divide right = ofQuotient (first != second) numerator denominator ∧
    (numerator / denominator : ℚ) =
      (Datum.finite first a p).amount / (Datum.finite second b q).amount := by
  refine ⟨a * 2 ^ (p - q).toNat, b * 2 ^ (q - p).toNat, ?_, ?_, ?_⟩
  · exact Nat.mul_ne_zero some (Nat.two_pow_pos _).ne'
  · rw [divide, one, other, Datum.divide, if_neg some]
    rfl
  · have flipped : (q - p : Int) = -(p - q) := by omega
    rw [flipped]
    push_cast
    rw [mul_div_mul_comm, power_parts, zpow_sub₀ two_ne_zero, Datum.amount, Datum.amount]
    field_simp

/-- A product of doubles is finite if that of their numbers is short of infinity. -/
theorem multiply_finite
    (below : (Datum.finite first a p).amount * (Datum.finite second b q).amount < doubleEnd) :
    (left.multiply right).isFinite = true := by
  obtain ⟨numerator, denominator, positive, multiplied, product⟩ := multiply_quotient one other
  obtain ⟨significand, exponent, counted, -⟩ := of_quotient (first != second) numerator positive
    (double_finite positive (product.symm ▸ below))
  rw [multiplied, isFinite, counted]

end Operations

end Binary64

end Interchange
