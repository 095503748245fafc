import Interchange.Proofs.NearestPatterns
/-!
How the errors of roundings add up. A number that is some parts in `2 ^ 53` off what it stands for is a
few parts more off after a product, a quotient or another rounding; below all digits, half the
least double is added instead.
-/
namespace Interchange

open BinaryFormat

/-- A number that is some parts in `2 ^ 53` off its target at most, and some slack. -/
def Near (parts slack number target : ℚ) : Prop :=
  |number - target| ≤ parts * (target / 2 ^ 53) + slack

section Near
variable {parts slack number target : ℚ}

theorem Near.weaken (near : Near parts slack number target) (positive : 0 ≤ target)
    {more loose : ℚ} (grown : parts ≤ more) (looser : slack ≤ loose) :
    Near more loose number target := by
  have part : (0 : ℚ) ≤ target / 2 ^ 53 := by positivity
  have scaled := mul_le_mul_of_nonneg_right grown part
  unfold Near at near ⊢
  linarith

theorem near_product {other power : ℚ} (positive : 0 ≤ target) (above : 0 ≤ power)
    (one : Near 1 0 number target) (two : Near 1 0 other power) :
    Near (9 / 4) 0 (number * other) (target * power) := by
  unfold Near at one two ⊢
  rw [one_mul, add_zero] at one two
  have product := mul_le_mul one two (abs_nonneg _) (by positivity)
  have left := mul_le_mul_of_nonneg_right one above
  have right := mul_le_mul_of_nonneg_left two positive
  have split : number * other - target * power =
      (number - target) * power + target * (other - power) +
        (number - target) * (other - power) := by ring
  have whole : 0 ≤ target * power := mul_nonneg positive above
  calc |number * other - target * power|
      ≤ |(number - target) * power| + |target * (other - power)| +
          |(number - target) * (other - power)| := by
        rw [split]
        exact abs_add_three _ _ _
    _ = |number - target| * power + target * |other - power| +
          |number - target| * |other - power| := by
        rw [abs_mul, abs_mul, abs_mul, abs_of_nonneg above, abs_of_nonneg positive]
    _ ≤ 9 / 4 * (target * power / 2 ^ 53) + 0 := by linarith

/-- A quotient takes on the parts of its divisor, and loses slack to a divisor above ten. -/
theorem near_quotient {other power : ℚ} (positive : 0 ≤ target) (filled : 0 ≤ number)
    (above : 10 ≤ power) (few : 0 ≤ parts ∧ parts ≤ 4) (loose : 0 ≤ slack)
    (one : Near parts slack number target) (two : Near 1 0 other power) :
    Near (parts + 5 / 4) slack (number / other) (target / power) := by
  unfold Near at one two ⊢
  rw [one_mul, add_zero, abs_le] at two
  have some : 0 < power := by linarith
  have divisor : 0 < other := by linarith
  have whole : target = target / power * power := (div_mul_cancel₀ _ some.ne').symm
  have multiple : number = number / other * other := (div_mul_cancel₀ _ divisor.ne').symm
  have rest : slack = slack / power * power := (div_mul_cancel₀ _ some.ne').symm
  have small : slack / power ≤ slack / 10 := div_le_div_of_nonneg_left loose (by norm_num) above
  have quotient : 0 ≤ target / power := by positivity
  have result : 0 ≤ number / other := by positivity
  have bounds := abs_le.mp one
  rw [whole, multiple, rest] at bounds
  -- In terms of the quotients, only the products with the divisor are not linear.
  generalize target / power = target at quotient bounds ⊢
  generalize number / other = number at result bounds ⊢
  generalize slack / power = less at small bounds
  have most := mul_le_mul_of_nonneg_right few.2 quotient
  have least := mul_nonneg few.1 quotient
  have high : number * (1 - 1 / 2 ^ 53) ≤ target + parts * target / 2 ^ 53 + less := by
    refine le_of_mul_le_mul_right ?_ some
    have shrunk := mul_le_mul_of_nonneg_left two.1 result
    linarith
  have low : target - parts * target / 2 ^ 53 - less ≤ number * (1 + 1 / 2 ^ 53) := by
    refine le_of_mul_le_mul_right ?_ some
    have grown := mul_le_mul_of_nonneg_left two.2 result
    linarith
  rw [abs_le]
  constructor <;> linarith

/-- One rounding more. -/
theorem near_rounded {result : ℚ} (positive : 0 ≤ target) (filled : 0 ≤ number)
    (few : 0 ≤ parts ∧ parts ≤ 5) (loose : 0 ≤ slack) (near : Near parts slack number target)
    (rounded : |result - number| ≤ max (number / 2 ^ 53) leastHalf) :
    Near (parts + 5 / 4) (2 * slack + leastHalf) result target := by
  have part : (0 : ℚ) ≤ number / 2 ^ 53 := by positivity
  have sum := rounded.trans (max_le_add_of_nonneg part half_positive.le)
  have within := mul_le_mul_of_nonneg_right few.2 positive
  have apart := abs_sub_le result number target
  have grown := (abs_le.mp near).2
  unfold Near at near ⊢
  linarith

end Near

namespace Binary64

/-- A whole number is near its double, and is its double if it needs no more digits. -/
theorem whole_double {number : Nat} (below : (number : ℚ) < doubleEnd) :
    ∃ significand exponent, (ofNat number).datum = .finite false significand exponent ∧
      Near 1 0 (Datum.finite false significand exponent).amount number ∧
      ∀ odd zeros, number = odd * 2 ^ zeros → odd < 2 ^ 53 →
        (Datum.finite false significand exponent).amount = number := by
  obtain ⟨significand, exponent, known, error⟩ := of_nat number below
  refine ⟨significand, exponent, known, ?_, ?_⟩
  · unfold Near
    linarith
  · rintro odd zeros rfl few
    obtain ⟨same, place, other, exact⟩ := of_nat_exact few below
    rw [known] at other
    rw [other, exact]

/-- What equals zero has no digits. -/
theorem equals_zero {number : Binary64} {negative : Bool} {significand : Nat} {exponent : Int}
    (known : number.datum = .finite negative significand exponent)
    (zero : number.equals (.zero false) = true) : significand = 0 := by
  have none : (Binary64.zero false).rank = some 0 := by decide
  have counts : number.isNaN = false := by simp [isNaN, known]
  rw [equals, none, rank, counts] at zero
  simp only [Bool.false_eq_true, ↓reduceIte, beq_iff_eq] at zero
  have pattern : number.bits.toNat % double.signPattern = 0 := by
    split at zero <;> omega
  rw [datum, BinaryFormat.datum, pattern] at known
  rw [if_neg (by decide), if_neg (by decide), finiteDatum] at known
  simp only [Nat.zero_div, Nat.zero_mod, ↓reduceIte] at known
  exact (Datum.finite.inj known).2.1.symm

theorem near_some {negative : Bool} {significand : Nat} {exponent : Int} {target : ℚ}
    (positive : 0 < target)
    (near : Near 1 0 (Datum.finite negative significand exponent).amount target) :
    significand ≠ 0 := by
  rintro rfl
  unfold Near at near
  rw [Datum.amount, Nat.cast_zero, zero_mul, zero_sub, abs_neg, abs_of_pos positive] at near
  linarith

theorem finite_nearest {negative : Bool} {numerator denominator : Nat}
    (finite : (ofQuotient negative numerator denominator).isFinite = true) :
    double.nearest numerator denominator < double.infinityPattern := by
  have most : double.nearest numerator denominator ≤ double.infinityPattern := by
    unfold nearest
    split
    · exact Nat.zero_le _
    · exact Nat.min_le_left _ _
  refine lt_of_le_of_ne most fun infinite => ?_
  have none : ∀ negative, (ofPattern (double.infinity negative)).isFinite = false := by decide
  rw [ofQuotient, BinaryFormat.ofQuotient, infinite] at finite
  exact absurd (none negative) (by rw [infinity, finite]; decide)

end Binary64

end Interchange
