import Interchange.Proofs.NearestPatterns
import Interchange.Proofs.Json.FloatRange
import Interchange.Proofs.Json.FloatTexts
import Interchange.Proofs.Json.LayoutReads
import Interchange.Proofs.Json.ScalarTexts
/-!
Every finite float is read from its own text as some float. The text may write more than the float, and
the reader rounds the digits and the power of ten apart, but neither takes it to infinity.
-/
namespace Interchange.Json

/-- What a float is written as has few digits, and a power of ten that two steps take away. -/
theorem decimal_range {float : Binary64} {negative : Bool} {significand : Nat} {exponent : Int}
    (known : float.datum = .finite negative significand exponent) :
    (floatDecimal significand exponent).digits < 2 * 10 ^ 17 ∧
    -616 ≤ (floatDecimal significand exponent).exponent ∧
    (floatDecimal significand exponent).exponent ≤ 308 ∧
    ((floatDecimal significand exponent).digits = 0 →
      (floatDecimal significand exponent).exponent = 0) := by
  obtain ⟨fits, low, high, -⟩ := Binary64.datum_finite known
  unfold floatDecimal
  split
  case isTrue => decide
  case isFalse filled =>
      obtain ⟨-, some, few⟩ := Decimal.shortest_holds filled fits low high .toEven
      obtain ⟨least, most⟩ := Decimal.shortest_range filled fits low high .toEven
      exact ⟨few, least, most, fun none => absurd none some⟩

namespace Read

theorem parts_scale {decimal : Decimal} (below : decimal.amount ≤ roundable) :
    Scales (parts decimal).digits (parts decimal).exponent := by
  rw [← parts_amount, Decimal.amount] at below
  generalize parts decimal = decimal at below ⊢
  rcases lt_or_ge decimal.exponent 0 with down | up
  · exact scale_below _ _ _ down
  · obtain ⟨power, same⟩ := Int.eq_ofNat_of_zero_le up
    rw [same, zpow_natCast] at below
    rw [same]
    exact scales_within below

/-- The text of the two largest doubles writes more than is safe, and is put together all the same. -/
theorem last_scales : ∀ significand ∈ [(2 ^ 53 - 2 : Nat), 2 ^ 53 - 1],
    Scales (parts (floatDecimal significand 971)).digits
      (parts (floatDecimal significand 971)).exponent := by
  unfold Scales
  decide +kernel

/-! A finite magnitude, from its text to the doubles that it is put together from. -/
section Magnitude
variable {float : Binary64} {sign : Bool} {significand : Nat} {exponent : Int}
  (known : float.datum = .finite sign significand exponent)
include known

theorem magnitude_reads (negative : Bool) :
    number negative (Utf8.encodeChars (layout (floatDecimal significand exponent))) =
      assemble negative (parts (floatDecimal significand exponent)).digits
        (parts (floatDecimal significand exponent)).exponent [] := by
  obtain ⟨few, low, high, whole⟩ := decimal_range known
  generalize floatDecimal significand exponent = decimal at few low high whole ⊢
  have short : decimal.digitText.length ≤ 18 :=
    (Nat.length_toDigits_le_iff (by decide) (by decide)).mpr (few.trans (by decide))
  have near : decimal.magnitude.natAbs < 2 ^ 31 := by
    rw [Decimal.magnitude]
    omega
  exact layout_reads negative whole (few.trans (by decide)) near

theorem magnitude_scales :
    Scales (parts (floatDecimal significand exponent)).digits
      (parts (floatDecimal significand exponent)).exponent := by
  obtain ⟨fits, low, high, -⟩ := Binary64.datum_finite known
  by_cases last : exponent = 971 ∧ 2 ^ 53 ≤ significand + 2
  · obtain ⟨rfl, large⟩ := last
    refine last_scales significand ?_
    have either : significand = 2 ^ 53 - 2 ∨ significand = 2 ^ 53 - 1 := by omega
    simpa using either
  · refine parts_scale ?_
    unfold floatDecimal
    split
    case isTrue =>
        rw [Decimal.amount, Nat.cast_zero, zero_mul, roundable]
        norm_num
    case isFalse =>
        refine (Decimal.shortest_within .toEven .double significand exponent).below.trans ?_
        rw [Decimal.interval_top]
        exact top_roundable fits (by omega)

end Magnitude

theorem number_begins_digit {negative : Bool} {byte : UInt8} {bytes rest : List UInt8} {found : Number}
    (read : number negative (byte :: bytes) = .ok (found, rest)) : isDigit byte = true := by
  by_contra other
  have zero : byte ≠ code '0' := by
    rintro rfl
    exact other rfl
  rw [number, if_neg zero, if_neg other] at read
  contradiction

/-- The text of a finite float is read as one float, whatever stands behind it: the one that its
parts are put together to, with its sign. -/
theorem single_floats {float : Binary64} {negative : Bool} {significand : Nat} {exponent : Int}
    (known : float.datum = .finite negative significand exponent) :
    ∃ magnitude, scaleBy ((parts (floatDecimal significand exponent)).exponent.natAbs / 308 + 1)
        (.ofNat (parts (floatDecimal significand exponent)).digits)
        (parts (floatDecimal significand exponent)).exponent = some magnitude ∧
      ∀ bound inside rest, Apart rest →
        single bound inside (Utf8.encodeChars (floatText float) ++ rest) =
          .ok (.number (.float (if negative then magnitude.negate else magnitude)), rest) := by
  obtain ⟨magnitude, scaled⟩ := Option.isSome_iff_exists.mp (magnitude_scales known)
  have read := magnitude_reads known negative
  rw [assemble, scaled] at read
  refine ⟨magnitude, scaled, fun bound inside rest apart => ?_⟩
  rw [float_text known]
  generalize layout (floatDecimal significand exponent) = text at read ⊢
  have whole := (number_settles negative _ _ _ read).2 rest apart
  cases negative with
  | true =>
      have sign : Utf8.encodeChars ('-' :: text) = code '-' :: Utf8.encodeChars text := rfl
      simp only [↓reduceIte] at whole ⊢
      rw [sign, List.cons_append, single_negative, whole]
      rfl
  | false =>
      simp only [Bool.false_eq_true, ↓reduceIte] at whole ⊢
      cases bytes : Utf8.encodeChars text with
      | nil =>
          rw [bytes] at read
          contradiction
      | cons byte others =>
          rw [bytes] at read whole
          rw [List.cons_append] at whole ⊢
          rw [single_digit _ _ _ _ (number_begins_digit read), whole]
          rfl

end Read

/-- The float that a float's own text is read as. -/
def reread (float : Binary64) : Binary64 :=
  match decode (Utf8.encodeChars (floatText float)) with
  | .ok (.float back) => back
  | _ => float

theorem decode_single {bytes : List UInt8} {content : Tree}
    (read : ∀ bound inside rest, Read.Apart rest →
      Read.single bound inside (bytes ++ rest) = .ok (content, rest)) :
    decode bytes = .ok content.toValue := by
  have none : Read.Apart [] := by
    intro byte head
    cases head
  have taken := read bytes.length (some (Read.tree bytes.length 126)) [] none
  rw [List.append_nil] at taken
  have whole : Read.document bytes.length bytes = .ok (content, []) := by
    have first : Read.tree bytes.length maxDepth bytes = .ok (content, []) := taken
    rw [Read.document, Read.bind_read _ _ first, Read.bind_read _ _ (Read.blanks_skipped [])]
    rfl
  rw [decode, parse, whole]

theorem Read.single_float (float : Binary64) (finite : float.isFinite) (bound : Nat)
    (inside : Option (Read Tree)) (rest : List UInt8) (apart : Read.Apart rest) :
    Read.single bound inside (Utf8.encodeChars (Number.float float).text ++ rest) =
      .ok (.number (.float (reread float)), rest) := by
  obtain ⟨negative, significand, exponent, known⟩ := finite_datum finite
  obtain ⟨magnitude, -, read⟩ := Read.single_floats known
  have decoded : decode (Utf8.encodeChars (floatText float)) =
      .ok (.float (if negative then magnitude.negate else magnitude)) := decode_single read
  rw [Number.text, reread, decoded]
  exact read bound inside rest apart

theorem decode_float (float : Binary64) (finite : float.isFinite) :
    decode (Utf8.encodeChars (floatText float)) = .ok (.float (reread float)) :=
  decode_single (Read.single_float float finite)

theorem reads_back {float : Binary64} (back : ReadsBack float) : reread float = float := by
  rw [ReadsBack] at back
  rw [reread, back]

/-- Reading a float's text again puts its parts together, with its sign. -/
theorem reread_scaled {float : Binary64} {negative : Bool} {significand : Nat} {exponent : Int}
    (known : float.datum = .finite negative significand exponent) :
    ∃ magnitude, Read.scaleBy
        ((Read.parts (floatDecimal significand exponent)).exponent.natAbs / 308 + 1)
        (.ofNat (Read.parts (floatDecimal significand exponent)).digits)
        (Read.parts (floatDecimal significand exponent)).exponent = some magnitude ∧
      reread float = if negative then magnitude.negate else magnitude := by
  obtain ⟨magnitude, scaled, read⟩ := Read.single_floats known
  have finite : float.isFinite = true := by rw [Binary64.isFinite, known]
  have decoded := (decode_float float finite).symm.trans (decode_single read)
  exact ⟨magnitude, scaled, Value.float.inj (Except.ok.inj decoded)⟩

end Interchange.Json
