import Interchange.Proofs.LeadingDigits
/-!
Which numbers are rounded to which double. A finite double is the pattern that its digits count up to,
and it is what every number of its interval is rounded to; a number that needs no more
digits than a double has is not changed.
-/
namespace Interchange

namespace BinaryFormat

/-- Only one integer is within a half of a number, if ties are for even integers. -/
theorem whole_unique {one other : Nat} {number : ℚ} (near : |(one : ℚ) - number| ≤ 1 / 2)
    (close : |(other : ℚ) - number| ≤ 1 / 2) (tie : |(one : ℚ) - number| = 1 / 2 → one % 2 = 0)
    (even : |(other : ℚ) - number| = 1 / 2 → other % 2 = 0) : one = other := by
  have apart : ∀ {low high : Nat}, low < high → |(low : ℚ) - number| ≤ 1 / 2 →
      |(high : ℚ) - number| ≤ 1 / 2 → high = low + 1 ∧ |(low : ℚ) - number| = 1 / 2 ∧
        |(high : ℚ) - number| = 1 / 2 := by
    intro low high below lower upper
    have next : (low : ℚ) + 1 ≤ high := by exact_mod_cast below
    have first := (abs_le.mp lower).1
    have second := (abs_le.mp upper).2
    have same : (high : ℚ) = low + 1 := by linarith
    refine ⟨by exact_mod_cast same, ?_, ?_⟩
    · rw [abs_sub_comm, abs_of_nonneg (by linarith)]
      linarith
    · rw [abs_of_nonneg (by linarith)]
      linarith
  rcases Nat.lt_trichotomy one other with below | same | above
  · obtain ⟨next, low, high⟩ := apart below near close
    have lower := tie low
    have upper := even high
    omega
  · exact same
  · obtain ⟨next, low, high⟩ := apart above close near
    have lower := even low
    have upper := tie high
    omega

end BinaryFormat

namespace Binary64

open BinaryFormat

/-- A finite datum is within the range of doubles, and tells its double. -/
theorem datum_finite {number : Binary64} {negative : Bool} {significand : Nat} {exponent : Int}
    (finite : number.datum = .finite negative significand exponent) :
    significand < 2 ^ 53 ∧ -1074 ≤ exponent ∧ exponent ≤ 971 ∧
      (-1074 < exponent → 2 ^ 52 ≤ significand) ∧
      number = ofPattern
        (double.signed negative (significand + (exponent + 1074).toNat * 2 ^ 52)) := by
  have top : double.infinityPattern = 2047 * 2 ^ 52 := by decide
  have sign : double.signPattern = 2 ^ 63 := by decide
  have least : double.leastExponent = -1074 := by decide
  have width : double.fractionWidth = 52 := rfl
  have word := number.bits.toNat_lt
  have whole : number.bits.toNat = double.signed (double.signPattern ≤ number.bits.toNat)
      (number.bits.toNat % double.signPattern) := by
    unfold signed
    split <;> rename_i signs <;> simp only [decide_eq_true_eq, sign] at signs ⊢ <;> omega
  have same : number = ofPattern number.bits.toNat := by
    rw [ofPattern, UInt64.ofNat_toNat]
  rw [datum, BinaryFormat.datum] at finite
  rw [whole] at same
  generalize decide (double.signPattern ≤ number.bits.toNat) = signs at finite same
  generalize number.bits.toNat % double.signPattern = magnitude at finite same
  split at finite
  · contradiction
  · split at finite
    · contradiction
    · unfold finiteDatum at finite
      simp only [width, least] at finite
      split at finite
      · obtain ⟨rfl, rfl, rfl⟩ := Datum.finite.inj finite
        have small : magnitude % 2 ^ 52 = magnitude := by omega
        refine ⟨by omega, by omega, by omega, by omega, ?_⟩
        rw [same, small]
        rfl
      · obtain ⟨rfl, rfl, rfl⟩ := Datum.finite.inj finite
        refine ⟨by omega, by omega, by omega, by omega, ?_⟩
        rw [same]
        congr 2
        omega

/-- In units of a double, its interval is half a unit wide on both sides, or a quarter below a power
of two; and its ends belong to even doubles only. -/
theorem holds_iff {significand : Nat} {exponent : Int} (filled : significand ≠ 0) {number : ℚ} :
    (Decimal.interval .double significand exponent).Holds number ↔
      |(significand : ℚ) - number / (2 : ℚ) ^ exponent| ≤ 1 / 2 ∧
      (|(significand : ℚ) - number / (2 : ℚ) ^ exponent| = 1 / 2 → significand % 2 = 0) ∧
      (significand = 2 ^ 52 → -1074 < exponent →
        (significand : ℚ) - 1 / 4 ≤ number / (2 : ℚ) ^ exponent) := by
  have least : double.leastExponent = -1074 := by decide
  have unit : (0 : ℚ) < (2 : ℚ) ^ exponent := by positivity
  have closes : (Decimal.interval .double significand exponent).closed =
      decide (significand % 2 = 0) := rfl
  unfold Decimal.Interval.Holds
  rw [closes, Decimal.interval_bottom .double filled, Decimal.interval_top, ← le_div_iff₀ unit,
    ← div_le_iff₀ unit, ← lt_div_iff₀ unit, ← div_lt_iff₀ unit]
  generalize number / (2 : ℚ) ^ exponent = units
  have half : (1 / 4 : ℚ) ≤ (if significand = 2 ^ double.fractionWidth ∧
      double.leastExponent < exponent then 1 / 4 else 1 / 2) ∧
        (if significand = 2 ^ double.fractionWidth ∧ double.leastExponent < exponent then 1 / 4
          else 1 / 2) ≤ (1 / 2 : ℚ) := by
    split <;> norm_num
  constructor
  · intro holds
    have within : significand - (if significand = 2 ^ double.fractionWidth ∧
        double.leastExponent < exponent then 1 / 4 else 1 / 2) ≤ units ∧
          units ≤ (significand + 1 / 2 : ℚ) := by
      split at holds
      case isTrue => exact holds
      case isFalse => exact ⟨holds.1.le, holds.2.le⟩
    refine ⟨abs_le.mpr ⟨by linarith, by linarith⟩, fun end' => ?_, fun power above => ?_⟩
    · by_contra odd
      rw [if_neg (by simpa using odd)] at holds
      rcases (abs_eq (by norm_num)).mp end' with upper | lower <;> linarith
    · rw [if_pos ⟨power, least ▸ above⟩] at within
      exact within.1
  · rintro ⟨near, tie, narrow⟩
    have bounds := abs_le.mp near
    split
    case isTrue even =>
        refine ⟨?_, by linarith⟩
        split
        case isTrue power => exact narrow power.1 (least ▸ power.2)
        case isFalse => linarith
    case isFalse odd =>
        have odd : ¬ significand % 2 = 0 := by simpa using odd
        have strict := abs_lt.mp (lt_of_le_of_ne near (mt tie odd))
        have other : ¬ (significand = 2 ^ double.fractionWidth ∧
            double.leastExponent < exponent) := by
          rintro ⟨rfl, -⟩
          exact odd (by decide)
        rw [if_neg other]
        constructor <;> linarith

section Patterns
variable {significand : Nat} {exponent : Int} (filled : significand ≠ 0)
  (fits : significand < 2 ^ 53) (low : -1074 ≤ exponent)
  (full : -1074 < exponent → 2 ^ 52 ≤ significand)
include filled fits low full

/-- A number in the interval of a double has its digits at the same exponent, or just below a power
of two, where the next integer is the power. -/
theorem interval_placed {number : ℚ} {place : Int} (placed : double.Placed number place)
    (holds : (Decimal.interval .double significand exponent).Holds number) :
    place = exponent ∨ place + 1 = exponent ∧ significand = 2 ^ 52 ∧
      |((2 ^ 53 : Nat) : ℚ) - number / (2 : ℚ) ^ place| ≤ 1 / 2 := by
  have least : double.leastExponent = -1074 := by decide
  have precise : ((double.precision : Nat) : Int) = 53 := by decide
  have unit : (0 : ℚ) < (2 : ℚ) ^ exponent := by positivity
  obtain ⟨near, -, narrow⟩ := (holds_iff filled).mp holds
  have bounds := abs_le.mp near
  have one : (1 : ℚ) ≤ significand := by exact_mod_cast Nat.one_le_iff_ne_zero.mpr filled
  have few : (significand : ℚ) + 1 ≤ 2 ^ 53 := by exact_mod_cast fits
  obtain ⟨placedLeast, placedBelow, placedAbove⟩ := placed
  rw [precise] at placedBelow placedAbove
  rw [least] at placedLeast placedAbove
  -- The first digit of the number, in units of the double.
  have digits : ∀ count : Int, place + count = exponent + (place - exponent + count) := by
    intro count
    omega
  rw [digits, zpow_add₀ two_ne_zero, mul_comm, ← div_lt_iff₀ unit] at placedBelow
  rw [add_sub_assoc, digits, zpow_add₀ two_ne_zero, mul_comm, ← le_div_iff₀ unit] at placedAbove
  have most : place ≤ exponent := by
    by_contra beyond
    have above := placedAbove (by omega)
    have power : (2 : ℚ) ^ (53 : ℤ) ≤ (2 : ℚ) ^ (place - exponent + (53 - 1)) :=
      zpow_le_zpow_right₀ one_le_two (by omega)
    have whole : (2 : ℚ) ^ (53 : ℤ) = 2 ^ 53 := rfl
    rw [whole] at power
    linarith [power.trans above]
  rcases Int.lt_or_eq_of_le most with below | same
  case inr => exact .inl same
  right
  have beyond : (2 : ℚ) ^ (place - exponent + 53) ≤ (2 : ℚ) ^ (52 : ℤ) :=
    zpow_le_zpow_right₀ one_le_two (by omega)
  have whole : (2 : ℚ) ^ (52 : ℤ) = 2 ^ 52 := rfl
  rw [whole] at beyond
  have power : significand = 2 ^ 52 := by
    have most : (significand : ℚ) < 2 ^ 52 + 1 := by linarith [placedBelow.trans_le beyond]
    have fewer : significand < 2 ^ 52 + 1 := by exact_mod_cast most
    have enough := full (by omega)
    omega
  have quarter := narrow power (by omega)
  rw [power] at quarter
  push_cast at quarter
  have next : place + 1 = exponent := by
    by_contra other
    have short : (2 : ℚ) ^ (place - exponent + 53) ≤ (2 : ℚ) ^ (51 : ℤ) :=
      zpow_le_zpow_right₀ one_le_two (by omega)
    have halved : (2 : ℚ) ^ (51 : ℤ) = 2 ^ 51 := rfl
    linarith [placedBelow.trans_le (short.trans halved.le)]
  subst next
  have doubled : number / (2 : ℚ) ^ place = 2 * (number / (2 : ℚ) ^ (place + 1)) := by
    rw [zpow_add_one₀ two_ne_zero]
    field_simp
  refine ⟨rfl, power, ?_⟩
  rw [doubled, abs_le]
  push_cast
  constructor <;> linarith [placedBelow.trans_le beyond]

variable (high : exponent ≤ 971) {numerator denominator : Nat} (positive : denominator ≠ 0)
include high positive

/-- Every number in the interval of a double is rounded to its pattern. -/
theorem nearest_holds
    (holds : (Decimal.interval .double significand exponent).Holds (numerator / denominator)) :
    double.nearest numerator denominator = significand + (exponent + 1074).toNat * 2 ^ 52 := by
  have least : double.leastExponent = -1074 := by decide
  have width : double.fractionWidth = 52 := rfl
  have top : double.infinityPattern = 2047 * 2 ^ 52 := by decide
  have some : numerator ≠ 0 := by
    rintro rfl
    have above := Decimal.bottom_least .double filled exponent
    have within := (Decimal.Interval.holds_within holds).1
    have unit : (0 : ℚ) < (2 : ℚ) ^ exponent := by positivity
    rw [Nat.cast_zero, zero_div] at within
    linarith
  obtain ⟨place, units, placed, -, -, near, even, counted⟩ := double.nearest_units some positive
  rw [units_near (by positivity)] at near
  have lowest := placed.least
  rw [least] at lowest
  rw [counted, least, width, top]
  rcases interval_placed filled fits low full placed holds with rfl | ⟨rfl, power, around⟩
  · obtain ⟨close, tie, -⟩ := (holds_iff filled).mp holds
    rw [whole_unique near close even tie]
    omega
  · rw [whole_unique near around even (fun _ => by decide), power]
    omega

/-- Only what is in the interval of a double is rounded to its pattern. -/
theorem holds_nearest (counted : double.nearest numerator denominator =
      significand + (exponent + 1074).toNat * 2 ^ 52) :
    (Decimal.interval .double significand exponent).Holds (numerator / denominator) := by
  have least : double.leastExponent = -1074 := by decide
  have precise : double.precision = 53 := by decide
  have width : double.fractionWidth = 52 := rfl
  have top : double.infinityPattern = 2047 * 2 ^ 52 := by decide
  have some : numerator ≠ 0 := by
    rintro rfl
    rw [nearest, if_pos rfl] at counted
    omega
  obtain ⟨place, units, placed, few, enough, near, tie, same⟩ :=
    double.nearest_units some positive
  have lowest := placed.least
  rw [counted, least, width, top] at same
  rw [least] at lowest enough
  rw [precise] at few
  rw [width] at enough
  have reached : significand + (exponent + 1074).toNat * 2 ^ 52 =
      units + (place - -1074).toNat * 2 ^ 52 := by omega
  -- The same units of the same place, or a carry into the next place.
  have either : place = exponent ∧ units = significand ∨
      place + 1 = exponent ∧ units = 2 ^ 53 ∧ significand = 2 ^ 52 := by omega
  have unit : (0 : ℚ) < (2 : ℚ) ^ place := by positivity
  rw [units_near unit] at near
  refine (holds_iff filled).mpr ?_
  rcases either with ⟨rfl, rfl⟩ | ⟨rfl, rfl, rfl⟩
  · refine ⟨near, tie, fun power above => ?_⟩
    have reaches := placed.above (least ▸ above)
    have digits : place + double.precision - 1 = 52 + place := by omega
    have whole : (2 : ℚ) ^ (52 : ℤ) = 2 ^ 52 := rfl
    rw [digits, zpow_add₀ two_ne_zero, whole, ← le_div_iff₀ unit] at reaches
    rw [power]
    push_cast
    linarith
  · have halved : (numerator / denominator : ℚ) / (2 : ℚ) ^ (place + 1) =
        numerator / denominator / (2 : ℚ) ^ place / 2 := by
      rw [zpow_add_one₀ two_ne_zero, ← div_div]
    rw [halved]
    have bounds := abs_le.mp near
    push_cast at bounds ⊢
    exact ⟨abs_le.mpr ⟨by linarith, by linarith⟩, fun _ => by decide, fun _ _ => by linarith⟩

/-- A number is rounded to the pattern of a double if and only if it is in the double's interval. -/
theorem nearest_iff : double.nearest numerator denominator =
      significand + (exponent + 1074).toNat * 2 ^ 52 ↔
    (Decimal.interval .double significand exponent).Holds (numerator / denominator) :=
  ⟨holds_nearest filled fits low full high positive,
    nearest_holds filled fits low full high positive⟩

end Patterns

/-- A number of few digits, ended by zeros, is a double. -/
theorem of_nat_exact {number zeros : Nat} (few : number < 2 ^ 53)
    (below : ((number * 2 ^ zeros : Nat) : ℚ) < doubleEnd) :
    ∃ significand exponent,
      (ofNat (number * 2 ^ zeros)).datum = .finite false significand exponent ∧
      (Datum.finite false significand exponent).amount = (number * 2 ^ zeros : Nat) := by
  have whole : (((number * 2 ^ zeros : Nat) : ℚ) / (1 : Nat)) = (number * 2 ^ zeros : Nat) := by
    rw [Nat.cast_one, div_one]
  have finite : double.nearest (number * 2 ^ zeros) 1 < double.infinityPattern :=
    double_finite one_ne_zero (whole.symm ▸ below)
  obtain ⟨significand, exponent, counted, -⟩ :=
    of_quotient false (number * 2 ^ zeros) one_ne_zero finite
  refine ⟨significand, exponent, counted, ?_⟩
  rw [ofQuotient, BinaryFormat.ofQuotient, datum_signed false finite] at counted
  rw [← counted]
  by_cases none : number * 2 ^ zeros = 0
  · rw [none]
    simp [nearest, finiteDatum, Datum.amount]
  obtain ⟨place, units, placed, near, amount⟩ := double_units one_ne_zero false none finite
  rw [whole] at placed near
  have least : double.leastExponent = -1074 := by decide
  have precise : ((double.precision : Nat) : Int) = 53 := by decide
  have fits : place ≤ zeros := by
    by_contra beyond
    have above := placed.above (by omega)
    rw [precise] at above
    have power : (2 : ℚ) ^ ((53 + zeros : Nat) : ℤ) ≤ (2 : ℚ) ^ (place + 53 - 1) :=
      zpow_le_zpow_right₀ one_le_two (by push_cast; omega)
    have fewer : number * 2 ^ zeros < 2 ^ (53 + zeros) := by
      rw [Nat.pow_add]
      exact Nat.mul_lt_mul_of_pos_right few (Nat.two_pow_pos _)
    have short : ((number * 2 ^ zeros : Nat) : ℚ) < 2 ^ (53 + zeros) := by exact_mod_cast fewer
    rw [zpow_natCast] at power
    exact absurd (power.trans above) (not_le.mpr short)
  -- Both are whole counts of one unit, and half a unit apart at most.
  obtain ⟨shift, moved⟩ := Int.eq_ofNat_of_zero_le (Int.sub_nonneg_of_le fits)
  have unit : (0 : ℚ) < (2 : ℚ) ^ place := by positivity
  have counts : ((number * 2 ^ zeros : Nat) : ℚ) =
      (number * 2 ^ shift : Nat) * (2 : ℚ) ^ place := by
    have exponents : (zeros : ℤ) = shift + place := by omega
    push_cast
    rw [← zpow_natCast 2 zeros, exponents, zpow_add₀ two_ne_zero, zpow_natCast, mul_assoc]
  rw [units_near unit, counts, mul_div_cancel_right₀ _ unit.ne'] at near
  have apart : |((units : ℤ) - (number * 2 ^ shift : Nat) : ℤ)| < 1 := by
    have below : |((units : ℚ) - (number * 2 ^ shift : Nat))| < 1 := near.trans_lt (by norm_num)
    exact_mod_cast below
  have same : units = number * 2 ^ shift := by
    have equal := Int.abs_lt_one_iff.mp apart
    omega
  rw [amount, counts, same]

theorem xor_top {pattern : Nat} (small : pattern < 2 ^ 63) :
    pattern ^^^ 2 ^ 63 = 2 ^ 63 + pattern := by
  have joined := Nat.two_pow_add_eq_or_of_lt small 1
  rw [Nat.mul_one] at joined
  rw [joined]
  refine Nat.eq_of_testBit_eq fun place => ?_
  rw [Nat.testBit_xor, Nat.testBit_or, Nat.testBit_two_pow]
  by_cases last : 63 = place
  · subst last
    rw [Nat.testBit_lt_two_pow small]
    rfl
  · simp [last]

theorem pattern_inj (negative : Bool) {one other : Nat} (small : one < 2 ^ 63)
    (short : other < 2 ^ 63) : ofPattern (double.signed negative one) =
      ofPattern (double.signed negative other) ↔ one = other := by
  have sign : double.signPattern = 2 ^ 63 := by decide
  refine ⟨fun same => ?_, fun same => same ▸ rfl⟩
  have bits := congrArg (fun number => number.bits.toNat) same
  cases negative with
  | true =>
      simp only [ofPattern, signed, ↓reduceIte, sign, UInt64.toNat_ofNat'] at bits
      omega
  | false =>
      simp only [ofPattern, signed, Bool.false_eq_true, ↓reduceIte, UInt64.toNat_ofNat'] at bits
      omega

theorem negate_pattern {pattern : Nat} (small : pattern < 2 ^ 63) :
    (ofPattern (double.signed false pattern)).negate = ofPattern (double.signed true pattern) := by
  have sign : double.signPattern = 2 ^ 63 := by decide
  have word : (0x8000000000000000 : UInt64).toNat = 2 ^ 63 := by decide
  simp only [negate, ofPattern, signed, ↓reduceIte, Bool.false_eq_true, sign]
  congr 1
  rw [← UInt64.toNat_inj, UInt64.toNat_xor, word, UInt64.toNat_ofNat', UInt64.toNat_ofNat',
    Nat.mod_eq_of_lt (by omega), Nat.mod_eq_of_lt (by omega), xor_top small]

end Binary64

end Interchange
