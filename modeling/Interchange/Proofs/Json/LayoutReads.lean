import Interchange.Proofs.ShortestDecimals
import Interchange.Proofs.Json.DigitReads
/-!
What the text of a decimal is read as, before it is rounded: its own digits and exponent, but for a
whole number that is written in full, whose zeros in front of the point and behind it are digits
of what is read.
-/
namespace Interchange.Json.Read

/-- The digits and the power of ten that the text of a decimal is read as. -/
def parts (decimal : Decimal) : Decimal :=
  if 0 ≤ decimal.exponent ∧ decimal.magnitude ≤ 15 then
    ⟨decimal.digits * 10 ^ (decimal.exponent.toNat + 1), -1⟩
  else decimal

theorem parts_amount (decimal : Decimal) : (parts decimal).amount = decimal.amount := by
  unfold parts
  split
  case isTrue short =>
      have whole := Int.toNat_of_nonneg short.1
      rw [Decimal.amount, Decimal.amount, ← whole, zpow_natCast, zpow_neg_one]
      push_cast
      rw [pow_succ, ← mul_assoc, mul_inv_cancel_right₀ (by norm_num)]
      rfl
  case isFalse => rfl

theorem leading_digit (amount : Nat) :
    ∃ first others, Nat.toDigits 10 amount = first :: others ∧
      (first = '0' → amount = 0 ∧ others = []) := by
  cases digits : Nat.toDigits 10 amount with
  | nil => exact absurd digits Nat.toDigits_ne_nil
  | cons first others =>
      have numeral := digits_numeral amount
      have value : Nat.ofDigitChars 10 (Nat.toDigits 10 amount) 0 = amount :=
        Nat.ofDigitChars_ten_toDigits
      rw [digits] at numeral value
      refine ⟨first, others, rfl, ?_⟩
      rintro rfl
      have zero : 10 * 0 + ('0'.toNat - '0'.toNat) = 0 := rfl
      have below := written_below (numeral_cons.mp numeral).2 0
      rw [Nat.ofDigitChars_cons, zero] at value
      rw [value, Nat.zero_add, Nat.one_mul] at below
      have none : others = [] := by
        by_contra some
        have filled := List.length_pos_iff.mpr some
        have fits : (Nat.toDigits 10 amount).length ≤ others.length ↔
            amount < 10 ^ others.length := Nat.length_toDigits_le_iff (by decide) filled
        rw [digits, List.length_cons] at fits
        omega
      subst none
      exact ⟨value.symm, rfl⟩

theorem zeros_behind (amount count : Nat) :
    Nat.ofDigitChars 10 (Nat.toDigits 10 amount ++ List.replicate count '0') 0 =
      amount * 10 ^ count := by
  rw [Nat.ofDigitChars_append, Nat.ofDigitChars_ten_toDigits, Nat.ofDigitChars_replicate_zero,
    Nat.mul_comm]

theorem zeros_before (amount count : Nat) :
    Nat.ofDigitChars 10 (List.replicate count '0' ++ Nat.toDigits 10 amount) 0 = amount := by
  rw [Nat.ofDigitChars_append, Nat.ofDigitChars_replicate_zero, Nat.mul_zero,
    Nat.ofDigitChars_ten_toDigits]

theorem point_added {text : List Char} (numeral : Numeral text) :
    Decimal.withPoint text = text ++ ['.', '0'] := by
  have apart : text.contains '.' = false := by
    by_contra held
    have member := List.contains_iff_mem.mp (eq_true_of_ne_false held)
    exact absurd (numeral '.' member) (by decide)
  rw [Decimal.withPoint, apart]
  rfl

theorem point_kept (text behind : List Char) :
    Decimal.withPoint (text ++ '.' :: behind) = text ++ '.' :: behind := by
  have held : (text ++ '.' :: behind).contains '.' = true :=
    List.contains_iff_mem.mpr (List.mem_append_right _ List.mem_cons_self)
  rw [Decimal.withPoint, held]
  rfl

section Layout
variable (negative : Bool) {decimal : Decimal}

/-- Zeros that are written out in front of the point leave a significand that fits. -/
theorem whole_fits (positive : 0 ≤ decimal.exponent) (short : decimal.magnitude ≤ 15) :
    decimal.digits * 10 ^ (decimal.exponent.toNat + 1) < 10 ^ 17 := by
  have filled : 0 < decimal.digitText.length := Nat.length_toDigits_pos
  have below : decimal.digits < 10 ^ decimal.digitText.length :=
    (Nat.length_toDigits_le_iff (by decide) filled).mp le_rfl
  rw [Decimal.magnitude] at short
  calc decimal.digits * 10 ^ (decimal.exponent.toNat + 1)
      < 10 ^ decimal.digitText.length * 10 ^ (decimal.exponent.toNat + 1) :=
        Nat.mul_lt_mul_of_pos_right below (Nat.pow_pos (by decide))
    _ = 10 ^ (decimal.digitText.length + (decimal.exponent.toNat + 1)) := (pow_add 10 _ _).symm
    _ ≤ 10 ^ 17 := Nat.pow_le_pow_right (by decide) (by omega)

theorem whole_reads (whole : decimal.digits = 0 → decimal.exponent = 0)
    (positive : 0 ≤ decimal.exponent) (short : decimal.magnitude ≤ 15) :
    number negative (Utf8.encodeChars (Decimal.withPoint
        (decimal.digitText ++ List.replicate decimal.exponent.toNat '0'))) =
      assemble negative (decimal.digits * 10 ^ (decimal.exponent.toNat + 1)) (-1) [] := by
  obtain ⟨first, others, digits, leading⟩ := leading_digit decimal.digits
  have fits := (whole_fits positive short).trans (by decide : (10 : Nat) ^ 17 < 2 ^ 64)
  have numeral : Numeral (decimal.digitText ++ List.replicate decimal.exponent.toNat '0') :=
    numeral_append.mpr ⟨digits_numeral _, zeros_numeral _⟩
  have value : Nat.ofDigitChars 10
      (decimal.digitText ++ List.replicate decimal.exponent.toNat '0' ++ ['0']) 0 =
        decimal.digits * 10 ^ (decimal.exponent.toNat + 1) := by
    rw [List.append_assoc, ← List.replicate_succ']
    exact zeros_behind _ _
  have single : first = '0' → others ++ List.replicate decimal.exponent.toNat '0' = [] := by
    intro zero
    obtain ⟨naught, empty⟩ := leading zero
    rw [empty, whole naught]
    rfl
  rw [point_added numeral]
  rw [Decimal.digitText, digits, List.cons_append] at numeral value ⊢
  rw [← value] at fits ⊢
  exact pointed_reads negative numeral single (zeros_numeral 1) (List.cons_ne_nil _ _) fits

theorem padded_reads (few : decimal.digits < 2 ^ 64) (zeros : Nat) :
    number negative (Utf8.encodeChars (Decimal.withPoint
        ('0' :: '.' :: (List.replicate zeros '0' ++ decimal.digitText)))) =
      assemble negative decimal.digits (-(zeros + decimal.digitText.length : Nat)) [] := by
  have filled : 0 < decimal.digitText.length := Nat.length_toDigits_pos
  have numeral : Numeral (List.replicate zeros '0' ++ decimal.digitText) :=
    numeral_append.mpr ⟨zeros_numeral _, digits_numeral _⟩
  have some : List.replicate zeros '0' ++ decimal.digitText ≠ [] := by
    refine List.ne_nil_of_length_pos ?_
    rw [List.length_append]
    omega
  have kept := point_kept ['0'] (List.replicate zeros '0' ++ decimal.digitText)
  have value : Nat.ofDigitChars 10
      (['0'] ++ (List.replicate zeros '0' ++ decimal.digitText)) 0 = decimal.digits :=
    zeros_before decimal.digits (zeros + 1)
  have read := pointed_reads negative (zeros_numeral 1) (fun _ => rfl) numeral some (value ▸ few)
  rw [List.singleton_append] at kept
  rw [List.length_append, List.length_replicate] at read
  rw [kept, ← value]
  exact read

theorem cut_reads (few : decimal.digits < 2 ^ 64) {front : Nat} (some : front ≠ 0)
    (inside : front < decimal.digitText.length) :
    number negative (Utf8.encodeChars (Decimal.withPoint
        (decimal.digitText.take front ++ '.' :: decimal.digitText.drop front))) =
      assemble negative decimal.digits (-(decimal.digitText.length - front : Nat)) [] := by
  obtain ⟨taken, rfl⟩ := Nat.exists_eq_add_one_of_ne_zero some
  obtain ⟨first, others, digits, leading⟩ := leading_digit decimal.digits
  have further : decimal.digitText.drop (taken + 1) ≠ [] := by
    refine List.ne_nil_of_length_pos ?_
    rw [List.length_drop]
    omega
  have value : Nat.ofDigitChars 10 decimal.digitText 0 = decimal.digits :=
    Nat.ofDigitChars_ten_toDigits
  have numeral : Numeral decimal.digitText := digits_numeral _
  rw [← List.take_append_drop (taken + 1) decimal.digitText] at value numeral
  rw [point_kept, ← List.length_drop]
  rw [Decimal.digitText, digits] at value numeral further ⊢
  rw [List.take_succ_cons] at value numeral ⊢
  rw [numeral_append] at numeral
  have single : first = '0' → others.take taken = [] := by
    intro zero
    rw [(leading zero).2, List.take_nil]
  have read := pointed_reads negative numeral.1 single numeral.2 further (value ▸ few)
  rwa [value] at read

theorem positional_reads (whole : decimal.digits = 0 → decimal.exponent = 0)
    (few : decimal.digits < 2 ^ 64) (short : decimal.magnitude ≤ 15) :
    number negative (Utf8.encodeChars (Decimal.withPoint decimal.positional)) =
      assemble negative (parts decimal).digits (parts decimal).exponent [] := by
  unfold Decimal.positional
  simp only
  split
  case isTrue none =>
      have positive : 0 ≤ decimal.exponent := by omega
      rw [whole_reads negative whole positive short, parts, if_pos ⟨positive, short⟩]
  case isFalse some =>
      have own : parts decimal = decimal := if_neg (by omega)
      rw [own]
      split
      case isTrue long =>
          have places : (-((-decimal.exponent).toNat - decimal.digitText.length +
              decimal.digitText.length : Nat) : ℤ) = decimal.exponent := by omega
          rw [padded_reads negative few, places]
      case isFalse inside =>
          have places : (-(decimal.digitText.length - (decimal.digitText.length -
              (-decimal.exponent).toNat) : Nat) : ℤ) = decimal.exponent := by omega
          rw [cut_reads negative few (by omega) (by omega), places]

theorem scientific_reads (few : decimal.digits < 2 ^ 64)
    (near : decimal.magnitude.natAbs < 2 ^ 31) :
    number negative (Utf8.encodeChars decimal.scientific) =
      assemble negative decimal.digits decimal.exponent [] := by
  obtain ⟨first, others, digits, -⟩ := leading_digit decimal.digits
  have numeral := digits_numeral decimal.digits
  have value := zeros_before decimal.digits 0
  have places : -others.length + decimal.magnitude = decimal.exponent := by
    rw [Decimal.magnitude, Decimal.digitText, digits, List.length_cons]
    omega
  rw [digits] at numeral value
  have read := mantissa_reads negative numeral (value ▸ few) ((if decimal.magnitude < 0 then '-'
    else '+') :: Nat.toDigits 10 decimal.magnitude.natAbs)
  rw [exponent_reads negative _ _ near, places] at read
  unfold Decimal.scientific
  simp only [Decimal.digitText, digits]
  rw [← value]
  cases others with
  | nil => exact read
  | cons next more => exact read

/-- The text of a decimal is put together from its parts. -/
theorem layout_reads (whole : decimal.digits = 0 → decimal.exponent = 0)
    (few : decimal.digits < 2 ^ 64) (near : decimal.magnitude.natAbs < 2 ^ 31) :
    number negative (Utf8.encodeChars (layout decimal)) =
      assemble negative (parts decimal).digits (parts decimal).exponent [] := by
  have filled : 0 < decimal.digitText.length := Nat.length_toDigits_pos
  unfold layout
  split
  case isTrue range =>
      have short := of_decide_eq_true (Bool.and_eq_true_iff.mp range).2
      exact positional_reads negative whole few short
  case isFalse range =>
      have own : parts decimal = decimal := by
        refine if_neg fun short => range ?_
        have least : -5 ≤ decimal.magnitude := by
          rw [Decimal.magnitude]
          omega
        exact Bool.and_eq_true_iff.mpr ⟨decide_eq_true least, decide_eq_true short.2⟩
      rw [own]
      exact scientific_reads negative few near

end Layout

end Interchange.Json.Read
