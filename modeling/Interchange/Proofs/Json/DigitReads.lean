import Interchange.Json.Printer
import Interchange.Proofs.Json.NumberReads
/-!
Decimal digits as a reader takes them. Where all of them fit the significand, a number is put together
from what they write and from its exponent, less the places behind the point.
-/
namespace Interchange.Json.Read

/-- Nothing but decimal digits. -/
def Numeral (text : List Char) : Prop := ∀ character ∈ text, character.isDigit = true

theorem digits_numeral (amount : Nat) : Numeral (Nat.toDigits 10 amount) :=
  fun _ member => Nat.isDigit_of_mem_toDigits (by decide) (by decide) member

theorem zeros_numeral (count : Nat) : Numeral (List.replicate count '0') := by
  intro character member
  rw [List.eq_of_mem_replicate member]
  decide

theorem numeral_append {left right : List Char} :
    Numeral (left ++ right) ↔ Numeral left ∧ Numeral right := List.forall_mem_append

theorem numeral_cons {first : Char} {others : List Char} :
    Numeral (first :: others) ↔ first.isDigit = true ∧ Numeral others := List.forall_mem_cons

theorem digit_listed {character : Char} (digit : character.isDigit = true) :
    character ∈ "0123456789".toList := by
  have range : 48 ≤ character.toNat ∧ character.toNat < 58 := by
    simp only [Char.isDigit, ge_iff_le, Bool.and_eq_true, decide_eq_true_eq] at digit
    obtain ⟨low, high⟩ := digit
    have low' := UInt32.le_iff_toNat_le.mp low
    have high' := UInt32.le_iff_toNat_le.mp high
    have same : character.toNat = character.val.toNat := rfl
    have first : '0'.val.toNat = 48 := rfl
    have last : '9'.val.toNat = 57 := rfl
    omega
  have all : ∀ amount < 58, 48 ≤ amount → Char.ofNat amount ∈ "0123456789".toList := by decide
  rw [← Char.ofNat_toNat character]
  exact all character.toNat range.2 range.1

theorem digit_byte {character : Char} (digit : character.isDigit = true) :
    Utf8.encodeChar character = [code character] ∧ isDigit (code character) = true ∧
      digitValue (code character) = character.toNat - '0'.toNat ∧
      character.toNat - '0'.toNat < 10 ∧ (code character = code '0' → character = '0') := by
  have all : ∀ character ∈ "0123456789".toList,
      Utf8.encodeChar character = [code character] ∧ isDigit (code character) = true ∧
        digitValue (code character) = character.toNat - '0'.toNat ∧
        character.toNat - '0'.toNat < 10 ∧ (code character = code '0' → character = '0') :=
    forall_mem_of_all _ _ (by decide)
  exact all character (digit_listed digit)

/-! What the digits behind a number make of it. -/
theorem written_least (text : List Char) (number : Nat) :
    number ≤ Nat.ofDigitChars 10 text number := by
  rw [Nat.ofDigitChars_eq_ofDigitChars_zero]
  have grown : number ≤ 10 ^ text.length * number :=
    Nat.le_mul_of_pos_left number (Nat.pow_pos (by decide))
  exact Nat.le_trans grown (Nat.le_add_right _ _)

theorem written_below {text : List Char} (numeral : Numeral text) (number : Nat) :
    Nat.ofDigitChars 10 text number < (number + 1) * 10 ^ text.length := by
  induction text generalizing number with
  | nil => simp [Nat.ofDigitChars]
  | cons first others ih =>
      obtain ⟨digit, numeral⟩ := numeral_cons.mp numeral
      obtain ⟨-, -, -, low, -⟩ := digit_byte digit
      rw [Nat.ofDigitChars_cons, List.length_cons, Nat.pow_succ]
      calc Nat.ofDigitChars 10 others (10 * number + (first.toNat - '0'.toNat))
          < (10 * number + (first.toNat - '0'.toNat) + 1) * 10 ^ others.length := ih numeral _
        _ ≤ ((number + 1) * 10) * 10 ^ others.length := Nat.mul_le_mul_right _ (by omega)
        _ = (number + 1) * (10 ^ others.length * 10) := by
            rw [Nat.mul_assoc, Nat.mul_comm 10]

theorem encode_digit {first : Char} (digit : first.isDigit = true) (others : List Char) :
    Utf8.encodeChars (first :: others) = code first :: Utf8.encodeChars others := by
  rw [← List.singleton_append, Utf8.encode_chars_append]
  simp [Utf8.encodeChars, (digit_byte digit).1]

theorem drop_other {rest : List UInt8} (ends : rest.head?.any isDigit = false) :
    rest.dropWhile isDigit = rest := by
  cases rest with
  | nil => rfl
  | cons byte others =>
      have other : isDigit byte = false := by simpa using ends
      simp [other]

/-- A significand takes all digits if they fit it. -/
theorem significand_numeral {rest : List UInt8} (ends : rest.head?.any isDigit = false)
    {text : List Char} (numeral : Numeral text) {number : Nat}
    (fits : Nat.ofDigitChars 10 text number < 2 ^ 64) (count : Nat) :
    significand number count (Utf8.encodeChars text ++ rest) =
      (Nat.ofDigitChars 10 text number, count + text.length, rest) := by
  induction text generalizing number count with
  | nil =>
      cases rest with
      | nil => rfl
      | cons byte others =>
          have other : isDigit byte = false := by simpa using ends
          simp [Utf8.encodeChars, significand, other, Nat.ofDigitChars]
  | cons first others ih =>
      obtain ⟨digit, numeral⟩ := numeral_cons.mp numeral
      obtain ⟨-, isDigit, value, -⟩ := digit_byte digit
      rw [Nat.ofDigitChars_cons] at fits ⊢
      have next := Nat.lt_of_le_of_lt (written_least others _) fits
      rw [encode_digit digit, List.cons_append, significand, if_pos isDigit, value,
        Nat.mul_comm number, if_pos next, ih numeral fits, List.length_cons, Nat.add_right_comm,
        Nat.add_assoc]

/-- An exponent is what its digits write, if that fits it. -/
theorem exponent_numeral {text : List Char} (numeral : Numeral text) {number : Nat}
    (fits : Nat.ofDigitChars 10 text number < 2 ^ 31) :
    exponentDigits number (Utf8.encodeChars text) = (some (Nat.ofDigitChars 10 text number), []) := by
  induction text generalizing number with
  | nil => rfl
  | cons first others ih =>
      obtain ⟨digit, numeral⟩ := numeral_cons.mp numeral
      obtain ⟨-, isDigit, value, -⟩ := digit_byte digit
      rw [Nat.ofDigitChars_cons] at fits ⊢
      have next := Nat.lt_of_le_of_lt (written_least others _) fits
      rw [encode_digit digit, exponentDigits, if_pos isDigit, value, Nat.mul_comm number,
        if_pos next, ih numeral fits]

/-! Numbers whose digits fit, from the parts of their text. -/
section Numbers
variable (negative : Bool)

theorem exponent_digits {text : List Char} (numeral : Numeral text) (some : text ≠ [])
    (fits : Nat.ofDigitChars 10 text 0 < 2 ^ 31) (below : Bool) (amount : Nat) (before : Int) :
    unsignedExponent negative below amount before (Utf8.encodeChars text) =
      assemble negative amount (if below then before - Nat.ofDigitChars 10 text 0
        else before + Nat.ofDigitChars 10 text 0) [] := by
  cases text with
  | nil => contradiction
  | cons first others =>
      obtain ⟨digit, numeral⟩ := numeral_cons.mp numeral
      obtain ⟨-, isDigit, value, -⟩ := digit_byte digit
      rw [Nat.ofDigitChars_cons, Nat.mul_zero, Nat.zero_add, ← value] at fits ⊢
      rw [encode_digit digit, unsignedExponent, if_pos isDigit, exponent_numeral numeral fits]

/-- The exponent that a power of ten is written as. -/
theorem exponent_reads (amount : Nat) (before : Int) {power : Int} (near : power.natAbs < 2 ^ 31) :
    exponent negative amount before (Utf8.encodeChars ((if power < 0 then '-' else '+') ::
        Nat.toDigits 10 power.natAbs)) =
      assemble negative amount (before + power) [] := by
  have value : Nat.ofDigitChars 10 (Nat.toDigits 10 power.natAbs) 0 = power.natAbs :=
    Nat.ofDigitChars_ten_toDigits
  have digits := exponent_digits negative (digits_numeral power.natAbs) Nat.toDigits_ne_nil
  rw [value] at digits
  have digits := fun below => digits near below amount before
  by_cases down : power < 0
  · have sign : Utf8.encodeChars ('-' :: Nat.toDigits 10 power.natAbs) =
        code '-' :: Utf8.encodeChars (Nat.toDigits 10 power.natAbs) := rfl
    have other : code '-' ≠ code '+' := by decide
    have same : before - power.natAbs = before + power := by omega
    rw [if_pos down, sign, exponent_sign, if_neg other, if_pos rfl, digits, if_pos rfl, same]
  · have sign : Utf8.encodeChars ('+' :: Nat.toDigits 10 power.natAbs) =
        code '+' :: Utf8.encodeChars (Nat.toDigits 10 power.natAbs) := rfl
    have same : before + power.natAbs = before + power := by omega
    rw [if_neg down, sign, exponent_sign, if_pos rfl, digits, if_neg (by decide), same]

/-- A number begins with a digit, which is zero only where no other digit follows. -/
theorem number_digit {first : Char} (digit : first.isDigit = true) (rest : List UInt8)
    (leading : first = '0' → rest.head?.any isDigit = false) :
    number negative (code first :: rest) =
      digits negative (Nat.ofDigitChars 10 [first] 0) rest := by
  obtain ⟨-, isDigit, value, -, zero⟩ := digit_byte digit
  rw [Nat.ofDigitChars_cons, Nat.mul_zero, Nat.zero_add, Nat.ofDigitChars_nil, ← value, number]
  by_cases naught : code first = code '0'
  · have single := leading (zero naught)
    rw [if_pos naught, single, naught]
    rfl
  · rw [if_neg naught, if_pos isDigit]

/-- A fraction whose digits fit the significand is taken as a whole. -/
theorem fraction_reads {text : List Char} (numeral : Numeral text) (some : text ≠ []) {amount : Nat}
    (fits : Nat.ofDigitChars 10 text amount < 2 ^ 64) (power : Int) {rest : List UInt8}
    (ends : rest.head?.any isDigit = false) :
    fraction negative amount power (Utf8.encodeChars text ++ rest) =
      scaled negative (Nat.ofDigitChars 10 text amount) (power - text.length) rest := by
  have filled : text.length ≠ 0 := fun none => some (List.length_eq_zero_iff.mp none)
  rw [fraction, significand_numeral ends numeral fits]
  simp [filled, drop_other ends]

/-- A mantissa has one digit in front of the point, which is left out if no other digit follows. -/
theorem mantissa_reads {first : Char} {behind : List Char} (numeral : Numeral (first :: behind))
    (fits : Nat.ofDigitChars 10 (first :: behind) 0 < 2 ^ 64) (tail : List Char) :
    number negative (Utf8.encodeChars
        ((match behind with | [] => [first] | _ :: _ => first :: '.' :: behind) ++ 'e' :: tail)) =
      exponent negative (Nat.ofDigitChars 10 (first :: behind) 0) (-behind.length)
        (Utf8.encodeChars tail) := by
  obtain ⟨digit, numeral⟩ := numeral_cons.mp numeral
  have letter : Utf8.encodeChars ('e' :: tail) = code 'e' :: Utf8.encodeChars tail := rfl
  have exponential : isExponentLetter (code 'e') = true := by decide
  have apart : code 'e' ≠ code '.' := by decide
  cases behind with
  | nil =>
      rw [List.singleton_append, encode_digit digit, letter,
        number_digit negative digit _ (fun _ => rfl), digits_behind,
        significand, if_neg (by decide)]
      simp only [List.takeWhile_cons, List.dropWhile_cons]
      rw [if_neg (by decide), if_neg (by decide), behindDigits, if_neg apart, if_pos exponential]
      rfl
  | cons next others =>
      have point : Utf8.encodeChars ('.' :: (next :: others ++ 'e' :: tail)) = code '.' ::
          (Utf8.encodeChars (next :: others) ++ (code 'e' :: Utf8.encodeChars tail)) := by
        rw [← letter, ← Utf8.encode_chars_append]
        rfl
      have ends : (code 'e' :: Utf8.encodeChars tail).head?.any isDigit = false := rfl
      have split : Nat.ofDigitChars 10 (first :: next :: others) 0 =
          Nat.ofDigitChars 10 (next :: others) (Nat.ofDigitChars 10 [first] 0) := rfl
      rw [split] at fits ⊢
      rw [List.cons_append, List.cons_append, encode_digit digit, point,
        number_digit negative digit _ (fun _ => rfl), digits_behind, significand,
        if_neg (by decide)]
      simp only [List.takeWhile_cons, List.dropWhile_cons]
      rw [if_neg (by decide), if_neg (by decide), behindDigits, if_pos rfl, List.length_nil,
        Int.ofNat_zero, fraction_reads negative numeral (List.cons_ne_nil _ _) fits 0 ends, scaled,
        if_pos exponential, Int.zero_sub]

/-- Digits around a point are read as one number, whose power counts those behind the point. -/
theorem pointed_reads {first : Char} {others behind : List Char}
    (numeral : Numeral (first :: others)) (leading : first = '0' → others = [])
    (further : Numeral behind) (some : behind ≠ [])
    (fits : Nat.ofDigitChars 10 (first :: others ++ behind) 0 < 2 ^ 64) :
    number negative (Utf8.encodeChars (first :: others ++ '.' :: behind)) =
      assemble negative (Nat.ofDigitChars 10 (first :: others ++ behind) 0) (-behind.length) [] := by
  obtain ⟨digit, rest⟩ := numeral_cons.mp numeral
  have point : Utf8.encodeChars ('.' :: behind) = code '.' :: Utf8.encodeChars behind := rfl
  have ends : (code '.' :: Utf8.encodeChars behind).head?.any isDigit = false := rfl
  have single : first = '0' →
      (Utf8.encodeChars others ++ (code '.' :: Utf8.encodeChars behind)).head?.any isDigit =
        false := by
    intro zero
    rw [leading zero]
    rfl
  rw [Nat.ofDigitChars_append] at fits ⊢
  have front : Nat.ofDigitChars 10 others (Nat.ofDigitChars 10 [first] 0) < 2 ^ 64 :=
    Nat.lt_of_le_of_lt (written_least behind _) fits
  have none : ([] : List UInt8).head?.any isDigit = false := rfl
  have fraction := fraction_reads negative further some fits 0 none
  rw [List.append_nil] at fraction
  rw [List.cons_append, encode_digit digit, Utf8.encode_chars_append, point,
    number_digit negative digit _ single, digits_behind, significand_numeral ends rest front]
  simp only [List.takeWhile_cons, List.dropWhile_cons]
  rw [if_neg (by decide), if_neg (by decide), behindDigits, if_pos rfl, List.length_nil,
    Int.ofNat_zero, ← Nat.ofDigitChars_append, List.singleton_append, fraction, scaled,
    Int.zero_sub]

end Numbers

end Interchange.Json.Read
