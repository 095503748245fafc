import Interchange.Json.Printer
import Interchange.Json.Reader
import Interchange.Proofs.Utf8RoundTrip
import Interchange.Proofs.Json.Images
/-!
Integers come back from their decimal digits. The significand a reader has put together behind some digits
of a number is the number those digits write, whatever follows them.
-/
namespace Interchange.Json.Read

/-- Bytes behind a number that are not taken for a part of it. -/
def Apart (rest : List UInt8) : Prop :=
  ∀ byte ∈ rest.head?, isDigit byte = false ∧ byte ≠ code '.' ∧ isExponentLetter byte = false

theorem digit_code (amount : Nat) (low : amount < 10) :
    Utf8.encodeChar (Nat.digitChar amount) = [code (Nat.digitChar amount)] ∧
      isDigit (code (Nat.digitChar amount)) = true ∧
      digitValue (code (Nat.digitChar amount)) = amount ∧
      (code (Nat.digitChar amount) = code '0' ↔ amount = 0) := by
  have digits : ∀ amount < 10, Utf8.encodeChar (Nat.digitChar amount) =
      [code (Nat.digitChar amount)] ∧ isDigit (code (Nat.digitChar amount)) = true ∧
      digitValue (code (Nat.digitChar amount)) = amount ∧
      (code (Nat.digitChar amount) = code '0' ↔ amount = 0) := by decide
  exact digits amount low

theorem significand_step (number count : Nat) (amount : Nat) (low : amount < 10)
    (fits : number * 10 + amount < 2 ^ 64) (rest : List UInt8) :
    significand number count (code (Nat.digitChar amount) :: rest) =
      significand (number * 10 + amount) (count + 1) rest := by
  obtain ⟨-, digit, value, -⟩ := digit_code amount low
  rw [significand, if_pos digit, value, if_pos fits]

theorem significand_apart (number count : Nat) (rest : List UInt8) (apart : Apart rest) :
    significand number count rest = (number, count, rest) := by
  cases rest with
  | nil => rfl
  | cons byte others =>
      obtain ⟨digit, -, -⟩ := apart byte rfl
      rw [significand, digit]
      rfl

/--
The digits of a number as bytes: the first one is zero only for zero itself, and
the others bring the significand from the first one to the number.
-/
theorem digits_significand (number : Nat) (fits : number < 2 ^ 64) :
    ∃ first tail, first < 10 ∧ (first = 0 → number = 0 ∧ tail = []) ∧
      Utf8.encodeChars (Nat.toDigits 10 number) = code (Nat.digitChar first) :: tail ∧
      ∀ count rest, ∃ longer, significand first count (tail ++ rest) =
        significand number longer rest := by
  induction number using Nat.strongRecOn with
  | ind number ih =>
      by_cases single : number < 10
      · obtain ⟨bytes, -⟩ := digit_code number single
        refine ⟨number, [], single, fun zero => ⟨zero, rfl⟩, ?_, fun count rest => ⟨count, rfl⟩⟩
        simp [Nat.toDigits_of_lt_base single, Utf8.encodeChars, bytes]
      · have last : number % 10 < 10 := by omega
        have split : number / 10 * 10 + number % 10 = number := by omega
        have digits := Nat.toDigits_of_base_le (by omega : 1 < 10) (Nat.not_lt.mp single)
        obtain ⟨first, tail, low, leading, bytes, taken⟩ :=
          ih (number / 10) (by omega) (by omega)
        obtain ⟨lastByte, -⟩ := digit_code (number % 10) last
        refine ⟨first, tail ++ [code (Nat.digitChar (number % 10))], low, ?_, ?_, ?_⟩
        · intro zero
          have := leading zero
          omega
        · have single : Utf8.encodeChars [Nat.digitChar (number % 10)] =
              [code (Nat.digitChar (number % 10))] := by
            simp [Utf8.encodeChars, lastByte]
          rw [digits, Utf8.encode_chars_append, bytes, single]
          rfl
        · intro count rest
          obtain ⟨longer, reached⟩ := taken count (code (Nat.digitChar (number % 10)) :: rest)
          refine ⟨longer + 1, ?_⟩
          rw [List.append_assoc, List.singleton_append, reached,
            significand_step _ _ _ last (by omega), split]

/-- Digits with nothing of a number behind them read as a whole number. -/
theorem digits_apart (negative : Bool) (number : Nat) (rest : List UInt8) (apart : Apart rest)
    (first : Nat) (tail : List UInt8)
    (taken : ∃ count, significand first 0 (tail ++ rest) = significand number count rest) :
    digits negative first (tail ++ rest) = .ok (whole negative number, rest) := by
  obtain ⟨count, taken⟩ := taken
  rw [significand_apart _ _ _ apart] at taken
  simp only [digits, taken]
  cases rest with
  | nil => rfl
  | cons byte others =>
      obtain ⟨digit, point, letter⟩ := apart byte rfl
      simp [digit, point, letter]

theorem number_whole (negative : Bool) (amount : Nat) (fits : amount < 2 ^ 64)
    (rest : List UInt8) (apart : Apart rest) :
    number negative (Utf8.encodeChars (Nat.toDigits 10 amount) ++ rest) =
      .ok (whole negative amount, rest) := by
  obtain ⟨first, tail, low, leading, bytes, taken⟩ := digits_significand amount fits
  obtain ⟨-, digit, value, zero⟩ := digit_code first low
  rw [bytes, List.cons_append, number]
  have read := digits_apart negative amount rest apart first tail (taken 0 rest)
  by_cases naught : first = 0
  · obtain ⟨rfl, rfl⟩ := leading naught
    have ends : rest.head?.any isDigit = false := by
      cases rest with
      | nil => rfl
      | cons byte others => simp [(apart byte rfl).1]
    rw [if_pos (zero.mpr naught), List.nil_append, ends]
    subst naught
    simpa using read
  · rw [if_neg (mt zero.mp naught), if_pos digit, value]
    exact read

end Interchange.Json.Read
