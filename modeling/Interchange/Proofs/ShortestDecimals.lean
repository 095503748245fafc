import Mathlib.Data.Nat.Cast.Order.Field
import Interchange.Number.Decimal
import Interchange.Proofs.RoundedQuotients
/-!
Where the shortest decimal of a double is. What is found on a grid is in the interval of the double, and
no search goes beyond the middle between the double and the next one.
-/
namespace Interchange.Decimal

/-- The number that a decimal stands for. -/
def amount (decimal : Decimal) : ℚ := decimal.digits * (10 : ℚ) ^ decimal.exponent

theorem scale_quotient (numerator denominator : Nat) (power : Int) :
    ((scale numerator denominator power).1 : ℚ) / (scale numerator denominator power).2 =
      numerator / denominator * (10 : ℚ) ^ power := by
  rw [← power_parts 10 power, scale]
  push_cast
  rw [mul_div_mul_comm]

theorem scale_positive {denominator : Nat} (positive : 0 < denominator) (numerator : Nat)
    (power : Int) : 0 < (scale numerator denominator power).2 :=
  Nat.mul_pos positive (Nat.pow_pos (by decide))

namespace Interval

/-- The numbers at the two ends. -/
def bottom (around : Interval) : ℚ := around.lower / around.denominator

def top (around : Interval) : ℚ := around.upper / around.denominator

-- A number within the interval, or at an end that belongs to it.
def Holds (around : Interval) (number : ℚ) : Prop :=
  if around.closed then around.bottom ≤ number ∧ number ≤ around.top
  else around.bottom < number ∧ number < around.top

structure Proper (around : Interval) : Prop where
  scaled : 0 < around.denominator
  ordered : around.value ≤ around.upper

theorem admits_iff {around : Interval} (proper : around.Proper) {numerator denominator : Nat}
    (positive : 0 < denominator) :
    around.admits numerator denominator = true ↔ around.Holds (numerator / denominator) := by
  have least : (0 : ℚ) < denominator := by exact_mod_cast positive
  have scaled : (0 : ℚ) < around.denominator := by exact_mod_cast proper.scaled
  unfold admits Holds bottom top
  rw [div_le_div_iff₀ scaled least, div_le_div_iff₀ least scaled, div_lt_div_iff₀ scaled least,
    div_lt_div_iff₀ least scaled]
  norm_cast
  cases around.closed <;> simp

theorem holds_within {around : Interval} {number : ℚ} (holds : around.Holds number) :
    around.bottom ≤ number ∧ number ≤ around.top := by
  unfold Holds at holds
  split at holds
  · exact holds
  · exact ⟨holds.1.le, holds.2.le⟩

theorem holds_between {around : Interval} {number : ℚ} (above : around.bottom < number)
    (below : number < around.top) : around.Holds number := by
  unfold Holds
  split
  · exact ⟨above.le, below.le⟩
  · exact ⟨above, below⟩

end Interval

theorem interval_proper (format : BinaryFormat) (significand : Nat) (exponent : Int) :
    (interval format significand exponent).Proper where
  scaled := Nat.two_pow_pos _
  ordered := Nat.mul_le_mul_right _ (Nat.le_add_right _ _)

theorem interval_top (format : BinaryFormat) (significand : Nat) (exponent : Int) :
    (interval format significand exponent).top =
      (significand + 1 / 2) * (2 : ℚ) ^ exponent := by
  have quarter : (2 : ℚ) ^ exponent = (2 : ℚ) ^ (exponent - 2) * 4 := by
    rw [zpow_sub₀ two_ne_zero]
    norm_num
  rw [Interval.top, interval, quarter, ← power_parts 2 (exponent - 2)]
  push_cast
  ring

-- A decimal within the interval; only nothing at all has no digits.
structure Within (around : Interval) (decimal : Decimal) : Prop where
  below : decimal.amount ≤ around.top
  whole : decimal.digits = 0 → decimal.exponent = 0

/-- What is found on a grid is in the interval. -/
theorem grid_holds {tie : Tie} {around : Interval} (proper : around.Proper) {power : Int}
    {digits : Nat} (found : onGrid tie around power = some digits) :
    digits ≠ 0 ∧ around.Holds (amount ⟨digits, power⟩) := by
  have reads : ∀ candidate : Nat,
      around.admits (scale candidate 1 power).1 (scale candidate 1 power).2 = true →
        around.Holds (amount ⟨candidate, power⟩) := by
    intro candidate admitted
    have inside := (Interval.admits_iff proper (scale_positive one_pos candidate power)).mp admitted
    rwa [scale_quotient, Nat.cast_one, div_one] at inside
  unfold onGrid at found
  extract_lets value floor read remainder tied nearer farther at found
  split at found
  · rename_i near
    obtain ⟨some, admitted⟩ := Bool.and_eq_true_iff.mp near
    obtain rfl := Option.some.inj found
    exact ⟨of_decide_eq_true some, reads _ admitted⟩
  · split at found
    · rename_i far
      obtain ⟨some, admitted⟩ := Bool.and_eq_true_iff.mp far
      obtain rfl := Option.some.inj found
      exact ⟨of_decide_eq_true some, reads _ admitted⟩
    · contradiction

/-- Whenever the search ends, it does not go beyond the interval. -/
theorem search_within (tie : Tie) {around : Interval} (proper : around.Proper) (power : Int)
    (budget : Nat) : Within around (search tie around power budget) := by
  induction budget generalizing power with
  | zero =>
      have scaled : (0 : ℚ) < around.denominator := by exact_mod_cast proper.scaled
      have ordered : (around.value : ℚ) ≤ around.upper := by exact_mod_cast proper.ordered
      refine ⟨?_, fun _ => rfl⟩
      rw [search, amount, zpow_zero, mul_one]
      calc ((around.value / around.denominator : Nat) : ℚ)
          ≤ around.value / around.denominator := Nat.cast_div_le
        _ ≤ around.top := div_le_div_of_nonneg_right ordered scaled.le
  | succ budget ih =>
      rw [search]
      split
      · rename_i digits found
        obtain ⟨some, holds⟩ := grid_holds proper found
        exact ⟨(Interval.holds_within holds).2, fun none => absurd none some⟩
      · exact ih (power - 1)

theorem amount_trimmed {decimal : Decimal} (zero : decimal.digits % 10 = 0) :
    amount ⟨decimal.digits / 10, decimal.exponent + 1⟩ = decimal.amount := by
  have digits : decimal.digits = decimal.digits / 10 * 10 := by omega
  have split : (decimal.digits : ℚ) = (decimal.digits / 10 : Nat) * 10 := by exact_mod_cast digits
  rw [amount, amount, zpow_add_one₀ (by norm_num), split]
  ring

theorem trim_within {around : Interval} (budget : Nat) (decimal : Decimal)
    (within : Within around decimal) : Within around (trim budget decimal) := by
  induction budget generalizing decimal with
  | zero => exact within
  | succ budget ih =>
      rw [trim]
      split
      · rename_i ends
        obtain ⟨some, zero⟩ := Bool.and_eq_true_iff.mp ends
        have zero := of_decide_eq_true zero
        apply ih
        constructor
        · exact (amount_trimmed zero).trans_le within.below
        · intro none
          have none : decimal.digits / 10 = 0 := none
          exact absurd (by omega) (of_decide_eq_true some)
      · exact within

/-- The shortest decimal of a datum is at most half a unit in the last place above it. -/
theorem shortest_within (tie : Tie) (format : BinaryFormat) (significand : Nat) (exponent : Int) :
    Within (interval format significand exponent) (shortest tie format significand exponent) :=
  trim_within _ _ (search_within tie (interval_proper format significand exponent) _ _)

end Interchange.Decimal
