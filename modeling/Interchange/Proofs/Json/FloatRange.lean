import Interchange.Proofs.RoundedQuotients
import Interchange.Json.Reader
/-!
The range of what can be read as a float. Digits and a power of ten are rounded apart and then once
more as a product, so that a decimal is safe only somewhat below infinity. All decimals that
floats are written as are, but for those of the two largest doubles.
-/
namespace Interchange.Json.Read

open BinaryFormat

/-- A significand and a power of ten that are put together without leaving the range. -/
def Scales (amount : Nat) (power : Int) : Prop :=
  (scaleBy (power.natAbs / 308 + 1) (.ofNat amount) power).isSome = true

theorem scale_below (steps : Nat) (number : Binary64) (power : Int) (below : power < 0) :
    (scaleBy steps number power).isSome = true := by
  induction steps generalizing number power with
  | zero => rfl
  | succ steps ih =>
      rw [scaleBy]
      by_cases near : power.natAbs ≤ 308
      · rw [if_pos near, if_neg (by omega)]
        rfl
      · rw [if_neg near, if_neg (by omega : ¬ 0 ≤ power)]
        split
        · rfl
        · exact ih _ _ (by omega)

/-- What still is finite after two roundings. -/
def roundable : ℚ := (2 ^ 53 - 5 / 2) * (2 : ℚ) ^ (971 : ℤ)

theorem rounded_twice : roundable * (1 + 1 / 2 ^ 53) * (1 + 1 / 2 ^ 53) < doubleEnd := by
  rw [roundable, doubleEnd]
  have unit : (0 : ℚ) < (2 : ℚ) ^ (971 : ℤ) := by positivity
  generalize (2 : ℚ) ^ (971 : ℤ) = last at unit ⊢
  norm_num
  linarith

theorem roundable_end : roundable < doubleEnd := by
  rw [roundable, doubleEnd]
  gcongr
  norm_num

/-! The powers of ten on both sides of infinity, as squares of powers that can be written out. -/
section Powers

theorem unit_square : (2 : ℚ) ^ (971 : ℤ) * 2 ^ 49 = (((2 ^ 255 : Nat) ^ 2) ^ 2 : Nat) := by
  have split : (971 + 49 : ℤ) = ((255 * 2 * 2 : Nat) : ℤ) := rfl
  have short : (2 : ℚ) ^ 49 = (2 : ℚ) ^ (49 : ℤ) := rfl
  rw [short, ← zpow_add₀ two_ne_zero, split, zpow_natCast, pow_mul, pow_mul]
  push_cast
  rfl

theorem power_halves (power : Nat) :
    (10 : Nat) ^ power = 10 ^ (power / 2) * 10 ^ (power - power / 2) := by
  rw [← pow_add, Nat.add_sub_cancel' (Nat.div_le_self power 2)]

theorem power_end {power : Nat} (near : power ≤ 308) : ((10 ^ power : Nat) : ℚ) < doubleEnd := by
  have root : (10 : Nat) ^ 154 ≤ 3 * (2 ^ 255) ^ 2 := by norm_num
  have most : ∀ half ≤ 154, (10 : Nat) ^ half ≤ 3 * (2 ^ 255) ^ 2 := fun half short =>
    (Nat.pow_le_pow_right (by decide) short).trans root
  have square : (10 : Nat) ^ power ≤ 9 * ((2 ^ 255) ^ 2) ^ 2 := by
    have product := Nat.mul_le_mul (most (power / 2) (by omega)) (most (power - power / 2) (by omega))
    have fourth : ∀ base : Nat, 3 * base ^ 2 * (3 * base ^ 2) = 9 * (base ^ 2) ^ 2 :=
      fun base => by ring
    rwa [← power_halves, fourth] at product
  have within : ((10 ^ power : Nat) : ℚ) ≤ 9 * (((2 ^ 255 : Nat) ^ 2) ^ 2 : Nat) := by
    exact_mod_cast square
  have unit : (0 : ℚ) < (2 : ℚ) ^ (971 : ℤ) := by positivity
  rw [← unit_square] at within
  rw [doubleEnd]
  generalize (2 : ℚ) ^ (971 : ℤ) = last at within unit ⊢
  linarith

theorem power_beyond {power : Nat} (far : 308 < power) : roundable < ((10 ^ power : Nat) : ℚ) := by
  have root : 2 * (2 ^ 255) ^ 2 ≤ (10 : Nat) ^ 154 := by norm_num
  have least : ∀ half, 154 ≤ half → 2 * (2 ^ 255) ^ 2 ≤ (10 : Nat) ^ half := fun half long =>
    root.trans (Nat.pow_le_pow_right (by decide) long)
  have ten : (10 : Nat) ^ (power - power / 2) = 10 ^ (power - power / 2 - 1) * 10 := by
    rw [← pow_succ]
    congr 1
    omega
  have square : 40 * ((2 ^ 255) ^ 2) ^ 2 ≤ (10 : Nat) ^ power := by
    have product := Nat.mul_le_mul (least (power / 2) (by omega))
      (Nat.mul_le_mul_right 10 (least (power - power / 2 - 1) (by omega)))
    have fourth : ∀ base : Nat, 2 * base ^ 2 * (2 * base ^ 2 * 10) = 40 * (base ^ 2) ^ 2 :=
      fun base => by ring
    rwa [← ten, ← power_halves, fourth] at product
  have within : (40 * (((2 ^ 255 : Nat) ^ 2) ^ 2 : Nat) : ℚ) ≤ ((10 ^ power : Nat) : ℚ) := by
    exact_mod_cast square
  have unit : (0 : ℚ) < (2 : ℚ) ^ (971 : ℤ) := by positivity
  rw [← unit_square] at within
  rw [roundable]
  generalize (2 : ℚ) ^ (971 : ℤ) = last at within unit ⊢
  linarith

end Powers

theorem scales_within {amount power : Nat} (below : (amount : ℚ) * 10 ^ power ≤ roundable) :
    Scales amount power := by
  have least : (1 : ℚ) ≤ 10 ^ power := one_le_pow₀ (by norm_num)
  have fits : (amount : ℚ) < doubleEnd :=
    ((le_mul_of_one_le_right (Nat.cast_nonneg amount) least).trans below).trans_lt roundable_end
  rw [Scales, Int.natAbs_natCast, scaleBy, Int.natAbs_natCast]
  by_cases near : power ≤ 308
  · obtain ⟨a, p, first, one⟩ := Binary64.of_nat amount fits
    obtain ⟨b, q, second, other⟩ := Binary64.of_nat (10 ^ power) (power_end near)
    have product : (Datum.finite false a p).amount * (Datum.finite false b q).amount < doubleEnd :=
      calc (Datum.finite false a p).amount * (Datum.finite false b q).amount
          ≤ (amount * (1 + 1 / 2 ^ 53)) * ((10 ^ power : Nat) * (1 + 1 / 2 ^ 53)) := by
            have first := (abs_le.mp one).2
            have second := (abs_le.mp other).2
            refine mul_le_mul (by linarith) (by linarith) ?_ (by positivity)
            rw [Datum.amount]
            positivity
        _ = (amount * 10 ^ power) * (1 + 1 / 2 ^ 53) * (1 + 1 / 2 ^ 53) := by
            push_cast
            ring
        _ ≤ roundable * (1 + 1 / 2 ^ 53) * (1 + 1 / 2 ^ 53) := by gcongr
        _ < doubleEnd := rounded_twice
    rw [if_pos near, if_pos (Int.natCast_nonneg power), powerOfTen]
    simp only [Binary64.multiply_finite first second product, ↓reduceIte, Option.isSome_some]
  · have none : amount = 0 := by
      by_contra some
      have one : (1 : ℚ) ≤ amount := by exact_mod_cast Nat.one_le_iff_ne_zero.mpr some
      have far := power_beyond (Nat.lt_of_not_le near)
      rw [Nat.cast_pow] at far
      have beyond := far.trans_le (le_mul_of_one_le_left (by positivity) one)
      exact absurd (beyond.trans_le below) (lt_irrefl _)
    have zero : (Binary64.ofNat 0).equals (.zero false) = true := by decide
    rw [if_neg near, none, if_pos zero]
    rfl

/-- The middle between a double and the next one is safe, but for the two largest doubles. -/
theorem top_roundable {significand : Nat} {exponent : Int} (fits : significand < 2 ^ 53)
    (short : exponent < 971 ∨ exponent = 971 ∧ significand + 2 < 2 ^ 53) :
    (significand + 1 / 2) * (2 : ℚ) ^ exponent ≤ roundable := by
  rw [roundable]
  rcases short with lower | ⟨rfl, fewer⟩
  · have step : (2 : ℚ) ^ exponent ≤ (2 : ℚ) ^ (970 : ℤ) :=
      zpow_le_zpow_right₀ one_le_two (by omega)
    have next : (2 : ℚ) ^ (970 + 1 : ℤ) = (2 : ℚ) ^ (970 : ℤ) * 2 := zpow_add_one₀ two_ne_zero _
    have above : (significand : ℚ) + 1 ≤ 2 ^ 53 := by exact_mod_cast fits
    have unit : (0 : ℚ) < (2 : ℚ) ^ (970 : ℤ) := by positivity
    rw [show (971 : ℤ) = 970 + 1 from rfl, next]
    generalize (2 : ℚ) ^ (970 : ℤ) = last at step unit ⊢
    calc (significand + 1 / 2) * (2 : ℚ) ^ exponent
        ≤ (2 ^ 53 - 1 / 2) * last := mul_le_mul (by linarith only [above]) step (by positivity)
          (by norm_num)
      _ ≤ (2 ^ 53 - 5 / 2) * (last * 2) := by linarith only [unit]
  · have above : (significand : ℚ) + 3 ≤ 2 ^ 53 := by exact_mod_cast fewer
    gcongr
    linarith

end Interchange.Json.Read
