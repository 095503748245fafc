import Interchange.Proofs.RoundingErrors
import Interchange.Proofs.Json.FloatReads
import Interchange.Proofs.Json.Images
/-!
How far a float is from what its own text is read as. The text tells the float, but its digits and its
power of ten are rounded to doubles before they are put together, and the errors of these roundings
add up. A float is kept where they do not take it out of its interval, as where there are none.
-/
namespace Interchange

open BinaryFormat

namespace Json.Read

/-- Powers of ten are near their doubles, and the first of them are doubles. -/
theorem ten_double {power : Nat} (near : power ≤ 308) :
    ∃ significand exponent, (powerOfTen power).datum = .finite false significand exponent ∧
      Near 1 0 (Datum.finite false significand exponent).amount (10 ^ power) ∧
      (power ≤ 22 → (Datum.finite false significand exponent).amount = 10 ^ power) := by
  obtain ⟨significand, exponent, known, error, exact⟩ :=
    Binary64.whole_double (power_end near)
  push_cast at error exact
  refine ⟨significand, exponent, known, error, fun few => exact (5 ^ power) power ?_ ?_⟩
  · rw [← Nat.mul_pow]
  · calc 5 ^ power ≤ 5 ^ 22 := Nat.pow_le_pow_right (by decide) few
      _ < 2 ^ 53 := by decide

/-- What is rounded last when digits and a power of ten are put together: their doubles as a product or
a quotient, the latter in two steps where the power is not a double. -/
def assembled (digits : Nat) (power : Int) : ℚ :=
  let number := Binary64.ofNat digits
  if 0 ≤ power then number.datum.amount * (powerOfTen power.toNat).datum.amount
  else if -308 ≤ power then number.datum.amount / (powerOfTen (-power).toNat).datum.amount
  else
    (number.divide (powerOfTen 308)).datum.amount / (powerOfTen (-308 - power).toNat).datum.amount

section Assembled
variable (digits : Nat) {power : Nat}

theorem assembled_up : assembled digits power =
    (Binary64.ofNat digits).datum.amount * (powerOfTen power).datum.amount := by
  rw [assembled, if_pos (Int.natCast_nonneg power), Int.toNat_natCast]

theorem assembled_down (some : power ≠ 0) (near : power ≤ 308) : assembled digits (-power) =
    (Binary64.ofNat digits).datum.amount / (powerOfTen power).datum.amount := by
  have steps : (-(-power : ℤ)).toNat = power := by omega
  rw [assembled, if_neg (by omega), if_pos (by omega), steps]

theorem assembled_twice (some : power ≠ 0) : assembled digits (-(308 + power : Nat)) =
    ((Binary64.ofNat digits).divide (powerOfTen 308)).datum.amount /
      (powerOfTen power).datum.amount := by
  have steps : (-308 - -(308 + power : Nat) : ℤ).toNat = power := by omega
  rw [assembled, if_neg (by omega), if_neg (by omega), steps]

end Assembled

/-- A magnitude that digits and a power of ten are put together to, as what is rounded: near the number
that they write, and that number where both are doubles. -/
structure Rounds (digits : Nat) (power : Int) (magnitude : Binary64) (numerator denominator : Nat) :
    Prop where
  positive : denominator ≠ 0
  rounded : magnitude = .ofQuotient false numerator denominator
  finite : double.nearest numerator denominator < double.infinityPattern
  value : (numerator / denominator : ℚ) = assembled digits power
  near : Near (19 / 4) leastHalf (numerator / denominator) (Decimal.amount ⟨digits, power⟩)
  exact : digits < 2 ^ 53 → power.natAbs ≤ 22 →
    (numerator / denominator : ℚ) = Decimal.amount ⟨digits, power⟩

theorem end_large : (2 : ℚ) ^ 70 ≤ doubleEnd := by
  have last : (2 : ℚ) ^ (18 : ℤ) ≤ (2 : ℚ) ^ (971 : ℤ) := zpow_le_zpow_right₀ one_le_two (by decide)
  have whole : (2 : ℚ) ^ (18 : ℤ) = 2 ^ 18 := rfl
  rw [whole] at last
  rw [doubleEnd]
  generalize (2 : ℚ) ^ (971 : ℤ) = last' at last ⊢
  linarith

/-- A double near a number, divided by a power of ten. -/
theorem divided_near {left : Binary64} {a : Nat} {p : Int} {parts slack target : ℚ}
    (first : left.datum = .finite false a p) (positive : 0 ≤ target)
    (small : 0 ≤ parts ∧ parts ≤ 4) (loose : 0 ≤ slack)
    (one : Near parts slack (Datum.finite false a p).amount target) {power : Nat}
    (some : power ≠ 0) (near : power ≤ 308) :
    ∃ numerator denominator : Nat, denominator ≠ 0 ∧
      left.divide (powerOfTen power) = .ofQuotient false numerator denominator ∧
      (numerator / denominator : ℚ) =
        (Datum.finite false a p).amount / (powerOfTen power).datum.amount ∧
      Near (parts + 5 / 4) slack (numerator / denominator) (target / 10 ^ power) ∧
      (power ≤ 22 → (numerator / denominator : ℚ) =
        (Datum.finite false a p).amount / 10 ^ power) := by
  obtain ⟨b, q, second, two, tens⟩ := ten_double near
  obtain ⟨numerator, denominator, filled, rounded, quotient⟩ :=
    Binary64.divide_quotient first second (Binary64.near_some (by positivity) two)
  have ten : (10 : ℚ) ≤ 10 ^ power := le_self_pow₀ (by norm_num) some
  have above : 0 ≤ (Datum.finite false a p).amount := by
    rw [Datum.amount]
    positivity
  refine ⟨numerator, denominator, filled, rounded, second.symm ▸ quotient, ?_, fun few => ?_⟩
  · rw [quotient]
    exact near_quotient positive above ten small loose one two
  · rw [quotient, tens few]

section Scaled
variable {digits : Nat} (few : digits < 2 * 10 ^ 17)
include few

theorem digits_double : ∃ significand exponent,
    (Binary64.ofNat digits).datum = .finite false significand exponent ∧
      Near 1 0 (Datum.finite false significand exponent).amount digits ∧
      (digits < 2 ^ 53 → (Datum.finite false significand exponent).amount = digits) := by
  have short : (digits : ℚ) < 2 * 10 ^ 17 := by exact_mod_cast few
  have below : (digits : ℚ) < doubleEnd := short.trans_le (le_trans (by norm_num) end_large)
  obtain ⟨significand, exponent, known, error, exact⟩ := Binary64.whole_double below
  exact ⟨significand, exponent, known, error, exact digits 0 (Nat.mul_one _).symm⟩

theorem near_finite {numerator denominator power : Nat} (positive : denominator ≠ 0)
    (near : Near (19 / 4) leastHalf (numerator / denominator) (digits / 10 ^ power)) :
    double.nearest numerator denominator < double.infinityPattern := by
  have short : (digits : ℚ) < 2 * 10 ^ 17 := by exact_mod_cast few
  have whole : (digits : ℚ) / 10 ^ power ≤ digits :=
    div_le_self (Nat.cast_nonneg _) (one_le_pow₀ (by norm_num))
  have half : leastHalf ≤ 1 := zpow_le_one_of_nonpos₀ one_le_two (by decide)
  have within := (abs_le.mp near).2
  exact double_finite positive (lt_of_lt_of_le (by linarith) end_large)

theorem multiplied {power : Nat} (near : power ≤ 308)
    (finite : ((Binary64.ofNat digits).multiply (powerOfTen power)).isFinite = true) :
    ∃ numerator denominator, Rounds digits power
      ((Binary64.ofNat digits).multiply (powerOfTen power)) numerator denominator := by
  obtain ⟨a, p, first, one, whole⟩ := digits_double few
  obtain ⟨b, q, second, two, tens⟩ := ten_double near
  obtain ⟨numerator, denominator, positive, rounded, product⟩ :=
    Binary64.multiply_quotient first second
  have amount : Decimal.amount ⟨digits, power⟩ = digits * 10 ^ power := by
    rw [Decimal.amount, zpow_natCast]
  have error := near_product (Nat.cast_nonneg _) (by positivity) one two
  refine ⟨numerator, denominator, positive, rounded, ?_, ?_, ?_, fun short small => ?_⟩
  · rw [rounded] at finite
    exact Binary64.finite_nearest finite
  · rw [assembled_up, first, second, product]
  · rw [amount, product]
    exact error.weaken (by positivity) (by norm_num) half_positive.le
  · rw [amount, product, whole short, tens small]

theorem divided {power : Nat} (some : power ≠ 0) (near : power ≤ 308) :
    ∃ numerator denominator, Rounds digits (-power)
      ((Binary64.ofNat digits).divide (powerOfTen power)) numerator denominator := by
  obtain ⟨a, p, first, one, whole⟩ := digits_double few
  obtain ⟨numerator, denominator, positive, rounded, value, error, tens⟩ :=
    divided_near first (Nat.cast_nonneg _) (by norm_num) le_rfl one some near
  have amount : Decimal.amount ⟨digits, -power⟩ = digits / 10 ^ power := by
    rw [Decimal.amount, zpow_neg, zpow_natCast, div_eq_mul_inv]
  have close := error.weaken (by positivity) (by norm_num : (1 + 5 / 4 : ℚ) ≤ 19 / 4)
    half_positive.le
  refine ⟨numerator, denominator, positive, rounded, near_finite few positive close, ?_, ?_,
    fun short small => ?_⟩
  · rw [assembled_down digits some near, first, value]
  · rwa [amount]
  · rw [amount, tens (by omega), whole short]

theorem divided_twice {power : Nat} (some : power ≠ 0) (near : power ≤ 308) :
    ∃ numerator denominator, Rounds digits (-(308 + power : Nat))
      (((Binary64.ofNat digits).divide (powerOfTen 308)).divide (powerOfTen power))
      numerator denominator := by
  obtain ⟨a, p, first, one, -⟩ := digits_double few
  obtain ⟨numerator, denominator, positive, rounded, -, error, -⟩ :=
    divided_near first (Nat.cast_nonneg _) (by norm_num) le_rfl one (by decide : 308 ≠ 0) le_rfl
  have close := error.weaken (by positivity) (by norm_num : (1 + 5 / 4 : ℚ) ≤ 19 / 4)
    half_positive.le
  -- What the first quotient is rounded to is what the second one divides.
  obtain ⟨b, q, second, two⟩ := Binary64.of_quotient false numerator positive
    (near_finite few positive close)
  have middle := near_rounded (by positivity) (by positivity) (by norm_num) le_rfl error two
  rw [← rounded] at second
  obtain ⟨numerator, denominator, positive, rounded', value, error, -⟩ :=
    divided_near second (by positivity) (by norm_num) (by linarith [half_positive]) middle some near
  have amount : Decimal.amount ⟨digits, -(308 + power : Nat)⟩ = digits / 10 ^ 308 / 10 ^ power := by
    rw [Decimal.amount, zpow_neg, zpow_natCast, div_div, ← pow_add, div_eq_mul_inv]
  have close := error.weaken (by positivity)
    (by norm_num : (1 + 5 / 4 + 5 / 4 + 5 / 4 : ℚ) ≤ 19 / 4) (by norm_num : 2 * 0 + leastHalf ≤ leastHalf)
  have whole : Near (19 / 4) leastHalf (numerator / denominator) (digits / 10 ^ (308 + power)) := by
    rwa [pow_add, ← div_div]
  refine ⟨numerator, denominator, positive, rounded', near_finite few positive whole, ?_, ?_,
    fun _ small => ?_⟩
  · rw [assembled_twice digits some, second, value]
  · rwa [amount]
  · omega

/-- Steps of a power of ten within the range of doubles make one quotient. -/
theorem scaled_rounds {power : Int} (low : -616 ≤ power) (high : power ≤ 308)
    (filled : power < -308 → digits ≠ 0) {magnitude : Binary64}
    (scaled : scaleBy (power.natAbs / 308 + 1) (.ofNat digits) power = some magnitude) :
    ∃ numerator denominator, Rounds digits power magnitude numerator denominator := by
  rw [scaleBy] at scaled
  split at scaled
  case isTrue near =>
      split at scaled
      case isTrue above =>
          simp only at scaled
          split at scaled
          case isTrue finite =>
              obtain rfl := Option.some.inj scaled
              obtain ⟨count, rfl⟩ := Int.eq_ofNat_of_zero_le above
              exact multiplied few near finite
          case isFalse => contradiction
      case isFalse below =>
          obtain rfl := Option.some.inj scaled
          have away : power = -(power.natAbs : ℤ) := by omega
          have rounds := divided few (by omega : power.natAbs ≠ 0) near
          rwa [← away] at rounds
  case isFalse far =>
      split at scaled
      case isTrue zero =>
          obtain ⟨a, p, known, one, -⟩ := digits_double few
          have some : (0 : ℚ) < digits := by
            exact_mod_cast Nat.pos_of_ne_zero (filled (by omega))
          exact absurd (Binary64.equals_zero known zero) (Binary64.near_some some one)
      case isFalse =>
          rw [if_neg (by omega)] at scaled
          obtain ⟨steps, more⟩ : ∃ steps, power.natAbs / 308 = steps + 1 :=
            ⟨_, (Nat.succ_pred_eq_of_pos (by omega)).symm⟩
          rw [more, scaleBy, if_pos (by omega), if_neg (by omega)] at scaled
          obtain rfl := Option.some.inj scaled
          have away : power = -(308 + (power + 308).natAbs : Nat) := by omega
          have rounds := divided_twice few (by omega : (power + 308).natAbs ≠ 0) (by omega)
          rwa [← away] at rounds

end Scaled

end Json.Read

namespace Json

open Read

/-- Floats of one sign that are eight units in the last place of the first apart at most. -/
def Beside (float back : Binary64) : Prop :=
  ∃ negative significand exponent digits place,
    float.datum = .finite negative significand exponent ∧
    back.datum = .finite negative digits place ∧
    |(Datum.finite negative digits place).amount -
      (Datum.finite negative significand exponent).amount| ≤ 8 * (2 : ℚ) ^ exponent

/-- What is read as digits and a power of ten that are doubles. -/
def Direct : Datum → Prop
  | .finite _ significand exponent =>
    (parts (floatDecimal significand exponent)).digits < 2 ^ 53 ∧
      (parts (floatDecimal significand exponent)).exponent.natAbs ≤ 22
  | .notANumber | .infinite _ => False

instance : DecidablePred Direct
  | .finite _ _ _ => inferInstanceAs (Decidable (_ ∧ _))
  | .notANumber | .infinite _ => .isFalse id

/-- What is put together within the interval of the float that the text was written for. -/
def Kept : Datum → Prop
  | .finite _ significand exponent =>
    significand = 0 ∨ (Decimal.interval .double significand exponent).Holds
      (assembled (parts (floatDecimal significand exponent)).digits
        (parts (floatDecimal significand exponent)).exponent)
  | .notANumber | .infinite _ => False

section Reread
variable {float : Binary64} {negative : Bool} {significand : Nat} {exponent : Int}
  (known : float.datum = .finite negative significand exponent)
include known

theorem parts_range : (parts (floatDecimal significand exponent)).digits < 2 * 10 ^ 17 ∧
    -616 ≤ (parts (floatDecimal significand exponent)).exponent ∧
    (parts (floatDecimal significand exponent)).exponent ≤ 308 ∧
    ((parts (floatDecimal significand exponent)).exponent < -308 →
      (parts (floatDecimal significand exponent)).digits ≠ 0) := by
  obtain ⟨few, low, high, whole⟩ := decimal_range known
  unfold parts
  split
  case isTrue short =>
      have fits := (whole_fits short.1 short.2).trans (by decide : (10 : Nat) ^ 17 < 2 * 10 ^ 17)
      exact ⟨fits, Int.neg_le_neg (by decide), (by decide : (-1 : Int) ≤ 308),
        fun far => absurd far (by decide : ¬ (-1 : Int) < -308)⟩
  case isFalse => exact ⟨few, low, high, by omega⟩

/-- The decimal is half a unit in the last place off the float at most. -/
theorem decimal_near : |(floatDecimal significand exponent).amount -
    (Datum.finite negative significand exponent).amount| ≤ (2 : ℚ) ^ exponent / 2 := by
  obtain ⟨fits, low, high, -⟩ := Binary64.datum_finite known
  have unit : (0 : ℚ) < (2 : ℚ) ^ exponent := by positivity
  unfold floatDecimal
  split
  case isTrue none =>
      subst none
      simp only [Decimal.amount, Datum.amount, Nat.cast_zero, zero_mul, sub_self, abs_zero]
      positivity
  case isFalse filled =>
      obtain ⟨holds, -, -⟩ := Decimal.shortest_holds filled fits low high .toEven
      rw [abs_sub_comm, Datum.amount, units_near unit]
      exact ((Binary64.holds_iff filled).mp holds).1

/-- The decimal that a float is written as is rounded to it, so the text tells the float. -/
theorem decimal_nearest {numerator denominator : Nat} (positive : denominator ≠ 0)
    (same : (numerator / denominator : ℚ) = (floatDecimal significand exponent).amount) :
    Binary64.ofQuotient negative numerator denominator = float := by
  obtain ⟨fits, low, high, full, whole⟩ := Binary64.datum_finite known
  rw [whole, Binary64.ofQuotient, BinaryFormat.ofQuotient]
  congr 2
  by_cases none : significand = 0
  · have least : exponent = -1074 := by
      by_contra other
      have enough := full (by omega)
      omega
    have zero : numerator = 0 := by
      rw [floatDecimal, if_pos none, Decimal.amount, Nat.cast_zero, zero_mul,
        div_eq_zero_iff] at same
      simpa [positive] using same
    rw [zero, nearest, if_pos rfl, none, least]
    rfl
  · obtain ⟨holds, -, -⟩ := Decimal.shortest_holds none fits low high .toEven
    rw [floatDecimal, if_neg none] at same
    rw [← same] at holds
    exact Binary64.nearest_holds none fits low full high positive holds

theorem reread_rounds : ∃ magnitude numerator denominator,
    Rounds (parts (floatDecimal significand exponent)).digits
      (parts (floatDecimal significand exponent)).exponent magnitude numerator denominator ∧
    reread float = .ofQuotient negative numerator denominator := by
  obtain ⟨magnitude, scaled, read⟩ := reread_scaled known
  obtain ⟨few, low, high, filled⟩ := parts_range known
  obtain ⟨numerator, denominator, rounds⟩ := scaled_rounds few low high filled scaled
  refine ⟨magnitude, numerator, denominator, rounds, ?_⟩
  have small : double.nearest numerator denominator < 2 ^ 63 :=
    rounds.finite.trans (by decide)
  rw [read, rounds.rounded]
  cases negative with
  | true => exact Binary64.negate_pattern small
  | false => rfl

theorem reread_beside : Beside float (reread float) := by
  obtain ⟨magnitude, numerator, denominator, rounds, read⟩ := reread_rounds known
  obtain ⟨digits, place, datum, error⟩ :=
    Binary64.of_quotient negative numerator rounds.positive rounds.finite
  have near := rounds.near
  rw [parts_amount] at near
  obtain ⟨fits, low, -⟩ := Binary64.datum_finite known
  have fewer : (significand : ℚ) + 1 ≤ 2 ^ 53 := by exact_mod_cast fits
  have unit : (0 : ℚ) < (2 : ℚ) ^ exponent := by positivity
  have half : leastHalf ≤ (2 : ℚ) ^ exponent / 2 := by
    rw [leastHalf, div_eq_mul_inv, ← zpow_sub_one₀ two_ne_zero]
    exact zpow_le_zpow_right₀ one_le_two (by omega)
  have apart := decimal_near known
  have positive : 0 ≤ (floatDecimal significand exponent).amount := by
    rw [Decimal.amount]
    positivity
  have whole := near_rounded positive (by positivity) (by norm_num) half_positive.le near error
  have target : (floatDecimal significand exponent).amount ≤ 2 ^ 53 * (2 : ℚ) ^ exponent := by
    have most := (abs_le.mp apart).2
    rw [Datum.amount] at most
    nlinarith
  refine ⟨negative, significand, exponent, digits, place, known, read ▸ datum, ?_⟩
  unfold Near at whole
  -- Six parts of the decimal, three halves of a unit and the half from the decimal to the float.
  have sum := abs_sub_le (Datum.finite negative digits place).amount
    (floatDecimal significand exponent).amount (Datum.finite negative significand exponent).amount
  linarith

theorem reread_direct (direct : Direct float.datum) : reread float = float := by
  obtain ⟨magnitude, numerator, denominator, rounds, read⟩ := reread_rounds known
  rw [known] at direct
  have same := rounds.exact direct.1 direct.2
  rw [read]
  exact decimal_nearest known rounds.positive (same.trans (parts_amount _))

theorem reread_iff : reread float = float ↔ Kept float.datum := by
  obtain ⟨magnitude, numerator, denominator, rounds, read⟩ := reread_rounds known
  obtain ⟨fits, low, high, full, whole⟩ := Binary64.datum_finite known
  have top : double.infinityPattern < 2 ^ 63 := by decide
  by_cases none : significand = 0
  · have kept : Kept float.datum := known ▸ .inl none
    have zero : parts (floatDecimal 0 exponent) = ⟨0, -1⟩ := by
      rw [floatDecimal, if_pos rfl]
      decide
    have direct : Direct float.datum := by
      rw [known, none, Direct, zero]
      decide
    exact ⟨fun _ => kept, fun _ => reread_direct known direct⟩
  · have patterns : reread float = float ↔ double.nearest numerator denominator =
        significand + (exponent + 1074).toNat * 2 ^ 52 := by
      rw [← Binary64.pattern_inj negative (rounds.finite.trans top) (by omega), ← whole, read]
      rfl
    rw [patterns, Binary64.nearest_iff none fits low full high rounds.positive, rounds.value, known]
    exact ⟨.inr, fun kept => kept.resolve_left none⟩

end Reread

theorem encode_float {float : Binary64} (finite : float.isFinite) :
    encode (.float float) = .ok (Utf8.encodeChars (floatText float)) := by
  rw [encode, Tree.ofValue, if_pos finite]
  exact congrArg Except.ok (Tree.bytes_image _)

/--
A finite float is written as a text, and the text is read as a float again: one of its sign, not further
off than eight units in the last place. It is the same one if and only if the doubles of the digits
and of the power of ten make a number that is rounded to it, as where they need no rounding.
-/
theorem decode_encode_float (float : Binary64) (finite : float.isFinite) :
    ∃ text back, encode (.float float) = .ok text ∧ decode text = .ok (.float back) ∧
      Beside float back ∧ (back = float ↔ Kept float.datum) ∧
      (Direct float.datum → back = float) := by
  obtain ⟨negative, significand, exponent, known⟩ := finite_datum finite
  exact ⟨_, reread float, encode_float finite, decode_float float finite, reread_beside known,
    reread_iff known, reread_direct known⟩

-- A tenth is read as one over ten.
example : Direct (⟨0x3fb999999999999a⟩ : Binary64).datum := by decide +kernel

/-- The largest odd double is changed: with the zero behind the point, its digits are too many. -/
theorem largest_odd_reread :
    let float : Binary64 := ⟨0x433fffffffffffff⟩
    float.isFinite = true ∧ floatText float = "9007199254740991.0".toList ∧
    ∃ text back, encode (.float float) = .ok text ∧ decode text = .ok (.float back) ∧
      Beside float back ∧ (back = float ↔ Kept float.datum) ∧
      (Direct float.datum → back = float) ∧ back = ⟨0x433ffffffffffffe⟩ := by
  intro float
  have finite : float.isFinite = true := by decide
  have spelled : floatText float = "9007199254740991.0".toList := by decide +kernel
  have changed : reread float = ⟨0x433ffffffffffffe⟩ := by decide +kernel
  obtain ⟨text, back, written, read, beside, kept, direct⟩ := decode_encode_float float finite
  obtain rfl := Except.ok.inj (written.symm.trans (encode_float finite))
  have same := Value.float.inj (Except.ok.inj (read.symm.trans (decode_float float finite)))
  exact ⟨finite, spelled, _, back, written, read, beside, kept, direct, same.trans changed⟩

end Json

end Interchange
