import Interchange.Json.Codec
import Interchange.Proofs.Json.DigitReads
/-!
The text of a float. It has digits, signs, a point and an exponent letter only, so it begins as a
number does; whether it is read as the float that it was written for is told by reading it.
-/
namespace Interchange.Json

/-- A float that its own printed text is read back as. -/
def ReadsBack (number : Binary64) : Prop :=
  decode (Utf8.encodeChars (floatText number)) = .ok (.float number)

def numerals : List Char := "0123456789.e+-".toList

theorem digits_numerals (amount : Nat) : Nat.toDigits 10 amount ⊆ numerals := by
  intro character member
  have all : ∀ character ∈ "0123456789".toList, character ∈ numerals :=
    forall_mem_of_all _ _ (by decide)
  exact all character (Read.digit_listed (Read.digits_numeral amount character member))

theorem zeros_numerals (count : Nat) : List.replicate count '0' ⊆ numerals := by
  intro character member
  rw [List.eq_of_mem_replicate member]
  decide

section Layout

variable (decimal : Decimal)

theorem positional_numerals : decimal.positional ⊆ numerals := by
  have digits : decimal.digitText ⊆ numerals := digits_numerals decimal.digits
  unfold Decimal.positional
  simp only
  split
  · exact List.append_subset.mpr ⟨digits, zeros_numerals _⟩
  · split
    · exact List.cons_subset.mpr ⟨by decide, List.cons_subset.mpr ⟨by decide,
        List.append_subset.mpr ⟨zeros_numerals _, digits⟩⟩⟩
    · exact List.append_subset.mpr ⟨List.Subset.trans (List.take_subset _ _) digits,
        List.cons_subset.mpr ⟨by decide, List.Subset.trans (List.drop_subset _ _) digits⟩⟩

theorem scientific_numerals : decimal.scientific ⊆ numerals := by
  have digits : decimal.digitText ⊆ numerals := digits_numerals decimal.digits
  have power := digits_numerals decimal.magnitude.natAbs
  unfold Decimal.scientific
  simp only
  apply List.append_subset.mpr
  constructor
  · split
    · exact List.nil_subset _
    · rename_i digit single
      rw [single] at digits
      exact digits
    · rename_i digit rest _ several
      rw [several] at digits
      obtain ⟨first, others⟩ := List.cons_subset.mp digits
      exact List.cons_subset.mpr ⟨first, List.cons_subset.mpr ⟨by decide, others⟩⟩
  · refine List.cons_subset.mpr ⟨by decide, List.cons_subset.mpr ⟨?_, power⟩⟩
    split
    · decide
    · decide

theorem layout_numerals : layout decimal ⊆ numerals := by
  unfold layout
  split
  · unfold Decimal.withPoint
    split
    · exact positional_numerals decimal
    · exact List.append_subset.mpr ⟨positional_numerals decimal, by decide⟩
  · exact scientific_numerals decimal

end Layout

/-- The decimal that a magnitude is written as. -/
def floatDecimal (significand : Nat) (exponent : Int) : Decimal :=
  if significand = 0 then ⟨0, 0⟩ else .shortest .toEven .double significand exponent

theorem finite_datum {float : Binary64} (finite : float.isFinite) :
    ∃ negative significand exponent, float.datum = .finite negative significand exponent := by
  unfold Binary64.isFinite at finite
  cases known : float.datum with
  | notANumber => simp [known] at finite
  | infinite negative => simp [known] at finite
  | finite negative significand exponent => exact ⟨negative, significand, exponent, rfl⟩

theorem float_text {float : Binary64} {negative : Bool} {significand : Nat} {exponent : Int}
    (known : float.datum = .finite negative significand exponent) :
    floatText float =
      if negative then '-' :: layout (floatDecimal significand exponent)
      else layout (floatDecimal significand exponent) := by
  have zero : "0.0".toList = layout ⟨0, 0⟩ := rfl
  rw [floatText, Binary64.render, known, zero, floatDecimal, apply_ite layout]

theorem float_numerals (number : Binary64) (finite : number.isFinite) :
    floatText number ⊆ numerals := by
  obtain ⟨negative, significand, exponent, known⟩ := finite_datum finite
  have digits := layout_numerals (floatDecimal significand exponent)
  rw [float_text known]
  cases negative with
  | true => exact List.cons_subset.mpr ⟨by decide, digits⟩
  | false => exact digits

namespace Read

theorem numeral_bytes : ∀ character ∈ numerals,
    Utf8.encodeChar character = [code character] ∧ isBlank (code character) = false :=
  forall_mem_of_all _ _ (by decide)

end Read

end Interchange.Json
