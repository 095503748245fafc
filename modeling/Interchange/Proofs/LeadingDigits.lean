import Interchange.Proofs.ShortestDecimals
/-!
Where the search for the shortest decimal begins, and that it ends with one. The logarithm's estimate
finds the first digit, and on the grid sixteen places behind it the point nearest to a double
reads back as the double; so what is found has seventeen digits or fewer.
-/
namespace Interchange.Decimal

/-! Powers of ten among the powers of two. -/
section Powers

theorem powers_le {low high : ℚ} (least : 1 ≤ low) (positive : 0 < high) {up down : Nat}
    (base : low ^ up ≤ high ^ down) (some : down ≠ 0) {first second : Int}
    (steps : first * down ≤ up * second) (above : 0 ≤ second) : low ^ first ≤ high ^ second := by
  refine le_of_pow_le_pow_left₀ some (by positivity) ?_
  calc (low ^ first) ^ down = low ^ (first * down) := by rw [zpow_mul, zpow_natCast]
    _ ≤ low ^ (up * second) := zpow_le_zpow_right₀ least steps
    _ = (low ^ up) ^ second := by rw [zpow_mul, zpow_natCast]
    _ ≤ (high ^ down) ^ second := zpow_le_zpow_left₀ above (by positivity) base
    _ = (high ^ second) ^ down := by
        rw [← zpow_natCast, ← zpow_mul, ← zpow_natCast, ← zpow_mul, mul_comm]

theorem powers_flip {low high : ℚ} (lowest : 0 < low) (highest : 0 < high) {first second : Int}
    (flipped : high ^ (-second) ≤ low ^ (-first)) : low ^ first ≤ high ^ second := by
  rwa [zpow_neg, zpow_neg, inv_le_inv₀ (by positivity) (by positivity)] at flipped

theorem tens_le_twos {tens twos : Int} (steps : 0 ≤ twos ∧ tens * 196 ≤ 59 * twos ∨
    tens ≤ 0 ∧ 93 * tens ≤ 28 * twos) : (10 : ℚ) ^ tens ≤ (2 : ℚ) ^ twos := by
  have more : (10 : ℚ) ^ 59 ≤ 2 ^ 196 := by norm_num
  have less : (2 : ℚ) ^ 93 ≤ 10 ^ 28 := by norm_num
  rcases steps with ⟨above, steps⟩ | ⟨below, steps⟩
  · exact powers_le (by norm_num) two_pos more (by decide) (by exact_mod_cast steps) above
  · refine powers_flip (by norm_num) two_pos ?_
    refine powers_le one_le_two (by norm_num) less (by decide) ?_ (by omega)
    push_cast
    omega

theorem twos_le_tens {twos tens : Int} (steps : 0 ≤ tens ∧ twos * 28 ≤ 93 * tens ∨
    twos ≤ 0 ∧ 59 * twos ≤ 196 * tens) : (2 : ℚ) ^ twos ≤ (10 : ℚ) ^ tens := by
  have more : (10 : ℚ) ^ 59 ≤ 2 ^ 196 := by norm_num
  have less : (2 : ℚ) ^ 93 ≤ 10 ^ 28 := by norm_num
  rcases steps with ⟨above, steps⟩ | ⟨below, steps⟩
  · exact powers_le one_le_two (by norm_num) less (by decide) (by exact_mod_cast steps) above
  · refine powers_flip two_pos (by norm_num) ?_
    refine powers_le (by norm_num) two_pos more (by decide) ?_ (by omega)
    push_cast
    omega

end Powers

section Leading
variable {numerator denominator : Nat} (positive : denominator ≠ 0)
include positive

/-- Comparing the parts of a scaled quotient compares it with a power of ten. -/
theorem scaled_reaches (power : Int) :
    (scale numerator denominator (-power)).2 ≤ (scale numerator denominator (-power)).1 ↔
      (10 : ℚ) ^ power ≤ numerator / denominator := by
  have scaled := scale_quotient numerator denominator (-power)
  have filled : (0 : ℚ) < (scale numerator denominator (-power)).2 := by
    exact_mod_cast scale_positive (Nat.pos_of_ne_zero positive) numerator (-power)
  rw [zpow_neg, ← div_eq_mul_inv] at scaled
  have compared := one_le_div₀ (a := ((scale numerator denominator (-power)).1 : ℚ)) filled
  rw [scaled, one_le_div₀ (by positivity)] at compared
  rw [compared]
  exact_mod_cast Iff.rfl

/-- The leading digit of a quotient stands at its leading exponent. -/
theorem leading_within (some : numerator ≠ 0)
    (near : ((numerator.log2 : Int) - denominator.log2).natAbs ≤ 10000) :
    (10 : ℚ) ^ leadingExponent numerator denominator ≤ numerator / denominator ∧
      (numerator / denominator : ℚ) < (10 : ℚ) ^ (leadingExponent numerator denominator + 1) := by
  obtain ⟨low, high⟩ := BinaryFormat.double.estimate_within positive some rfl
  have precise : ((BinaryFormat.double.precision : Nat) : Int) = 53 := rfl
  unfold leadingExponent
  simp only [decide_eq_true_eq, scaled_reaches positive]
  generalize (numerator.log2 : Int) - denominator.log2 = distance at near low high
  rw [Int.fdiv_eq_ediv_of_nonneg _ (by decide)]
  generalize estimated : distance * 30103 / 100000 = estimate
  have least : (10 : ℚ) ^ (estimate - 1) ≤ (2 : ℚ) ^ (distance - 1) := tens_le_twos (by omega)
  have most : (2 : ℚ) ^ (distance + 1) ≤ (10 : ℚ) ^ (estimate + 2) := twos_le_tens (by omega)
  have below : distance - BinaryFormat.double.precision + BinaryFormat.double.precision - 1 =
      distance - 1 := by omega
  have above : distance - BinaryFormat.double.precision + BinaryFormat.double.precision + 1 =
      distance + 1 := by omega
  rw [below] at low
  rw [above] at high
  split
  case isTrue reached =>
      exact ⟨reached, by rw [add_assoc]; exact high.trans_le most⟩
  case isFalse short =>
      split
      case isTrue reached => exact ⟨reached, not_le.mp short⟩
      case isFalse none =>
          rw [sub_add_cancel]
          exact ⟨least.trans low.le, not_le.mp none⟩

end Leading

/-! The interval of a datum, and the points of a grid in it. -/
/-- The datum itself. -/
def Interval.center (around : Interval) : ℚ := around.value / around.denominator

theorem quarter_parts (exponent : Int) :
    (2 : ℚ) ^ (exponent - 2).toNat / 2 ^ (-(exponent - 2)).toNat = (2 : ℚ) ^ exponent / 4 := by
  rw [power_parts, zpow_sub₀ two_ne_zero]
  norm_num

theorem interval_center (format : BinaryFormat) (significand : Nat) (exponent : Int) :
    (interval format significand exponent).center = significand * (2 : ℚ) ^ exponent := by
  rw [Interval.center, interval]
  push_cast
  rw [mul_div_assoc, quarter_parts]
  ring

theorem interval_bottom (format : BinaryFormat) {significand : Nat} (some : significand ≠ 0)
    (exponent : Int) : (interval format significand exponent).bottom =
      (significand - (if significand = 2 ^ format.fractionWidth ∧ format.leastExponent < exponent
        then 1 / 4 else 1 / 2)) * (2 : ℚ) ^ exponent := by
  rw [Interval.bottom, interval]
  simp only
  rw [Nat.cast_mul, Nat.cast_sub (by split <;> omega)]
  push_cast
  rw [mul_div_assoc, quarter_parts]
  split <;> ring

theorem bottom_least (format : BinaryFormat) {significand : Nat} (some : significand ≠ 0)
    (exponent : Int) : (2 : ℚ) ^ exponent / 2 ≤ (interval format significand exponent).bottom := by
  have one : (1 : ℚ) ≤ significand := by exact_mod_cast Nat.one_le_iff_ne_zero.mpr some
  have unit : (0 : ℚ) < (2 : ℚ) ^ exponent := by positivity
  rw [interval_bottom format some]
  split <;> nlinarith

/-- Of the two integers around a quotient, the nearer one is within a half. -/
theorem nearer_within {top bottom : Nat} (tied : Bool) (positive : 0 < bottom) :
    |((if 2 * (top % bottom) < bottom || (2 * (top % bottom) = bottom && tied) then top / bottom
        else top / bottom + 1 : Nat) : ℚ) - top / bottom| ≤ 1 / 2 := by
  have split := Nat.div_add_mod top bottom
  have rest := Nat.mod_lt top positive
  have next : bottom * (top / bottom + 1) = bottom * (top / bottom) + bottom := Nat.mul_succ _ _
  have filled : (0 : ℚ) < bottom := by exact_mod_cast positive
  have bound : ∀ nearer : Nat, 2 * (bottom * nearer) ≤ 2 * top + bottom →
      2 * top ≤ 2 * (bottom * nearer) + bottom → |(nearer : ℚ) - top / bottom| ≤ 1 / 2 := by
    intro nearer high low
    have high : (2 * (bottom * nearer) : ℚ) ≤ 2 * top + bottom := by exact_mod_cast high
    have low : (2 * top : ℚ) ≤ 2 * (bottom * nearer) + bottom := by exact_mod_cast low
    have whole : (top / bottom : ℚ) * bottom = top := div_mul_cancel₀ _ filled.ne'
    rw [abs_le]
    constructor <;> nlinarith
  split
  case isTrue lower =>
      have half : 2 * (top % bottom) ≤ bottom := by
        simp only [Bool.or_eq_true, Bool.and_eq_true, decide_eq_true_eq] at lower
        omega
      exact bound _ (by omega) (by omega)
  case isFalse upper =>
      have half : bottom ≤ 2 * (top % bottom) := by
        simp only [Bool.or_eq_true, Bool.and_eq_true, decide_eq_true_eq, not_or] at upper
        omega
      exact bound _ (by omega) (by omega)

/-- A grid that is finer than the interval on both sides has a point in it. -/
theorem grid_found (tie : Tie) {around : Interval} (proper : around.Proper) {power : Int}
    (one : (10 : ℚ) ^ power ≤ around.center)
    (above : around.bottom < around.center - (10 : ℚ) ^ power / 2)
    (below : around.center + (10 : ℚ) ^ power / 2 < around.top) :
    ∃ digits, onGrid tie around power = some digits := by
  have unit : (0 : ℚ) < (10 : ℚ) ^ power := by positivity
  have scaled := scale_quotient around.value around.denominator (-power)
  have filled := scale_positive proper.scaled around.value (-power)
  rw [zpow_neg, ← div_eq_mul_inv, ← Interval.center] at scaled
  unfold onGrid
  extract_lets value floor reads remainder tied nearer farther
  have near : |(nearer : ℚ) - around.center / (10 : ℚ) ^ power| ≤ 1 / 2 := by
    rw [← scaled]
    exact nearer_within tied filled
  rw [abs_le] at near
  have whole : around.center / (10 : ℚ) ^ power * (10 : ℚ) ^ power = around.center :=
    div_mul_cancel₀ _ unit.ne'
  have some : nearer ≠ 0 := by
    intro none
    have counted := (one_le_div₀ unit).mpr one
    rw [none] at near
    push_cast at near
    linarith
  have admitted : reads nearer = true := by
    refine (Interval.admits_iff proper (scale_positive one_pos nearer power)).mpr ?_
    rw [scale_quotient, Nat.cast_one, div_one]
    exact Interval.holds_between (by nlinarith) (by nlinarith)
  rw [admitted, if_pos (by simpa using some)]
  exact ⟨nearer, rfl⟩

/-- The search ends at a grid with a point at the latest. -/
theorem search_found (tie : Tie) (around : Interval) {least : Int}
    (found : ∃ digits, onGrid tie around least = some digits) (budget : Nat) (power : Int)
    (behind : least ≤ power) (reached : power < least + budget) :
    ∃ digits exponent, search tie around power budget = ⟨digits, exponent⟩ ∧
      onGrid tie around exponent = some digits ∧ least ≤ exponent := by
  induction budget generalizing power with
  | zero => omega
  | succ budget ih =>
      rw [search]
      cases here : onGrid tie around power with
      | some digits => exact ⟨digits, power, rfl, here, behind⟩
      | none =>
          have later : power ≠ least := by
            rintro rfl
            obtain ⟨digits, found⟩ := found
            rw [here] at found
            contradiction
          exact ih (power - 1) (by omega) (by omega)

theorem trim_keeps (budget : Nat) (decimal : Decimal) (some : decimal.digits ≠ 0) :
    (trim budget decimal).amount = decimal.amount ∧ (trim budget decimal).digits ≠ 0 ∧
      decimal.exponent ≤ (trim budget decimal).exponent := by
  induction budget generalizing decimal with
  | zero => exact ⟨rfl, some, Int.le_refl _⟩
  | succ budget ih =>
      rw [trim]
      split
      case isTrue ends =>
          have zero := of_decide_eq_true (Bool.and_eq_true_iff.mp ends).2
          have less : decimal.digits / 10 ≠ 0 := by omega
          obtain ⟨same, kept, grown⟩ := ih ⟨decimal.digits / 10, decimal.exponent + 1⟩ less
          exact ⟨same.trans (amount_trimmed zero), kept, (Int.le_add_one (Int.le_refl _)).trans grown⟩
      case isFalse => exact ⟨rfl, some, Int.le_refl _⟩

section Double
variable {significand : Nat} {exponent : Int} (filled : significand ≠ 0)
  (fits : significand < 2 ^ 53) (low : -1074 ≤ exponent) (high : exponent ≤ 971)
include filled fits low high

theorem interval_leading :
    let around := interval .double significand exponent
    let leading := leadingExponent around.value around.denominator
    (10 : ℚ) ^ leading ≤ around.center ∧ around.center < (10 : ℚ) ^ (leading + 1) := by
  intro around leading
  have value : around.value = 4 * significand * 2 ^ (exponent - 2).toNat := rfl
  have positive : around.value ≠ 0 := by
    rw [value]
    positivity
  have most : around.value < 2 ^ (55 + (exponent - 2).toNat) := by
    rw [value, Nat.pow_add]
    exact Nat.mul_lt_mul_of_pos_right (by omega) (Nat.two_pow_pos _)
  have top := (Nat.log2_lt positive).mpr most
  have bottom : around.denominator.log2 = (-(exponent - 2)).toNat := Nat.log2_two_pow
  have near : ((around.value.log2 : Int) - around.denominator.log2).natAbs ≤ 10000 := by omega
  exact leading_within (Nat.two_pow_pos _).ne' positive near

/-- On the grid sixteen places behind the first digit there is a decimal that reads back. -/
theorem seventeen_found (tie : Tie) :
    let around := interval .double significand exponent
    ∃ digits, onGrid tie around (leadingExponent around.value around.denominator - 16) =
      some digits := by
  intro around
  obtain ⟨reached, -⟩ := interval_leading filled fits low high
  generalize leadingExponent around.value around.denominator = leading at reached ⊢
  have unit : (0 : ℚ) < (2 : ℚ) ^ exponent := by positivity
  have fine : (10 : ℚ) ^ (leading - 16) * 10 ^ 16 = (10 : ℚ) ^ leading := by
    rw [zpow_sub₀ (by norm_num)]
    exact div_mul_cancel₀ _ (by norm_num)
  have spaced : (0 : ℚ) < (10 : ℚ) ^ (leading - 16) := by positivity
  have fewer : (significand : ℚ) ≤ 2 ^ 53 := by exact_mod_cast fits.le
  have bottom := interval_bottom .double filled exponent
  have top := interval_top .double significand exponent
  have center := interval_center .double significand exponent
  rw [← fine, center] at reached
  refine grid_found tie (interval_proper _ _ _) ?_ ?_ ?_ <;> rw [center] <;>
    generalize (10 : ℚ) ^ (leading - 16) = grid at reached spaced ⊢
  · linarith
  · rw [bottom]
    split
    case isTrue power =>
        have least : (significand : ℚ) = 2 ^ 52 := by exact_mod_cast power.1
        rw [least] at reached ⊢
        linarith
    case isFalse =>
        have within := mul_le_mul_of_nonneg_right fewer unit.le
        linarith
  · rw [top]
    have within := mul_le_mul_of_nonneg_right fewer unit.le
    linarith

/-- The shortest decimal of a double rounds to it, and has few digits. -/
theorem shortest_holds (tie : Tie) :
    (interval .double significand exponent).Holds
        (shortest tie .double significand exponent).amount ∧
      (shortest tie .double significand exponent).digits ≠ 0 ∧
      (shortest tie .double significand exponent).digits < 2 * 10 ^ 17 := by
  have proper := interval_proper .double significand exponent
  obtain ⟨-, most⟩ := interval_leading filled fits low high
  have found := seventeen_found filled fits low high tie
  unfold shortest
  simp only at most found ⊢
  generalize leadingExponent _ _ = leading at most found ⊢
  obtain ⟨digits, power, searched, here, fine⟩ :=
    search_found tie _ found 18 leading (by omega) (by omega)
  obtain ⟨some, holds⟩ := grid_holds proper here
  obtain ⟨same, kept, grown⟩ := trim_keeps 18 ⟨digits, power⟩ some
  rw [searched]
  generalize trim 18 ⟨digits, power⟩ = decimal at same kept grown ⊢
  rw [← same] at holds
  refine ⟨holds, kept, ?_⟩
  have within := (Interval.holds_within holds).2
  have one : (1 : ℚ) ≤ significand := by exact_mod_cast Nat.one_le_iff_ne_zero.mpr filled
  have unit : (0 : ℚ) < (2 : ℚ) ^ exponent := by positivity
  have spaced : (0 : ℚ) < (10 : ℚ) ^ (leading - 16) := by positivity
  have places : (10 : ℚ) ^ (leading + 1) = 10 ^ 17 * (10 : ℚ) ^ (leading - 16) := by
    rw [← zpow_natCast, ← zpow_add₀ (by norm_num)]
    congr 1
    push_cast
    ring
  rw [interval_center, places] at most
  rw [interval_top] at within
  have double : decimal.amount < 2 * 10 ^ 17 * (10 : ℚ) ^ (leading - 16) := by nlinarith
  have counted : (decimal.digits : ℚ) * (10 : ℚ) ^ (leading - 16) ≤ decimal.amount :=
    mul_le_mul_of_nonneg_left (zpow_le_zpow_right₀ (by norm_num) (fine.trans grown))
      (Nat.cast_nonneg _)
  exact_mod_cast lt_of_mul_lt_mul_right (counted.trans_lt double) spaced.le

/-- Doubles have decimals with exponents of three places. -/
theorem shortest_range (tie : Tie) : -616 ≤ (shortest tie .double significand exponent).exponent ∧
    (shortest tie .double significand exponent).exponent ≤ 308 := by
  obtain ⟨holds, some, few⟩ := shortest_holds filled fits low high tie
  obtain ⟨least, most⟩ := Interval.holds_within holds
  rw [interval_top] at most
  generalize shortest tie .double significand exponent = decimal at some few least most ⊢
  have digit : (1 : ℚ) ≤ decimal.digits := by exact_mod_cast Nat.one_le_iff_ne_zero.mpr some
  have unit : (0 : ℚ) < (2 : ℚ) ^ exponent := by positivity
  have power : (0 : ℚ) < (10 : ℚ) ^ decimal.exponent := by positivity
  rw [amount] at least most
  constructor
  · by_contra small
    have half : (2 : ℚ) ^ (-1075 : ℤ) ≤ (2 : ℚ) ^ exponent / 2 := by
      rw [div_eq_mul_inv, ← zpow_sub_one₀ two_ne_zero]
      exact zpow_le_zpow_right₀ one_le_two (by omega)
    have below : (decimal.digits : ℚ) * (10 : ℚ) ^ decimal.exponent < (10 : ℚ) ^ (-599 : ℤ) := by
      calc (decimal.digits : ℚ) * (10 : ℚ) ^ decimal.exponent
          < 10 ^ 18 * (10 : ℚ) ^ decimal.exponent := by
            gcongr
            exact_mod_cast few.trans (by decide)
        _ = (10 : ℚ) ^ (18 + decimal.exponent) := by
            rw [zpow_add₀ (by norm_num)]
            rfl
        _ ≤ (10 : ℚ) ^ (-599 : ℤ) := zpow_le_zpow_right₀ (by norm_num) (by omega)
    have apart : (10 : ℚ) ^ (-599 : ℤ) ≤ (2 : ℚ) ^ (-1075 : ℤ) := tens_le_twos (by omega)
    linarith [bottom_least .double filled exponent]
  · by_contra large
    have enough : (10 : ℚ) ^ (309 : ℤ) ≤ decimal.digits * (10 : ℚ) ^ decimal.exponent :=
      (zpow_le_zpow_right₀ (by norm_num) (by omega)).trans (le_mul_of_one_le_left power.le digit)
    have apart : (2 : ℚ) ^ (1025 : ℤ) ≤ (10 : ℚ) ^ (309 : ℤ) := twos_le_tens (by omega)
    have fewer : (significand : ℚ) + 1 ≤ 2 ^ 53 := by exact_mod_cast fits
    have last : (2 : ℚ) ^ exponent ≤ (2 : ℚ) ^ (971 : ℤ) := zpow_le_zpow_right₀ one_le_two high
    have split : (2 : ℚ) ^ (1025 : ℤ) = 2 ^ 54 * (2 : ℚ) ^ (971 : ℤ) := by
      rw [← zpow_natCast, ← zpow_add₀ two_ne_zero]
      rfl
    have top : (0 : ℚ) < (2 : ℚ) ^ (971 : ℤ) := by positivity
    rw [split] at apart
    generalize (2 : ℚ) ^ (971 : ℤ) = largest at apart last top
    generalize (10 : ℚ) ^ (309 : ℤ) = ten at apart enough
    nlinarith

end Double

end Interchange.Decimal
