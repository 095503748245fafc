import Interchange.Proofs.Json.NumberReads
import Interchange.Proofs.Json.QuotedTexts
/-!
What one value of a document is read as, by its first byte. A word, a text and a number are read as
they are written; how far they go does not depend on what is behind them.
-/
namespace Interchange.Json.Read

variable {First Second : Type}

theorem bind_read (first : Read First) (next : First → Read Second) {bytes rest : List UInt8}
    {found : First} (read : first bytes = .ok (found, rest)) :
    (first >>= next) bytes = next found rest := by
  simp only [bind, StateT.bind, read, Except.bind]

theorem blanks_skipped (bytes : List UInt8) :
    skipBlanks bytes = .ok ((), bytes.dropWhile isBlank) := rfl

theorem blanks_visible (byte : UInt8) (visible : isBlank byte = false) (rest : List UInt8) :
    skipBlanks (byte :: rest) = .ok ((), byte :: rest) := by
  rw [blanks_skipped, List.dropWhile_cons, visible]
  rfl

section Single

variable (bound : Nat) (inside : Option (Read Tree)) (rest : List UInt8)

theorem single_null : single bound inside (Utf8.encodeChars "null".toList ++ rest) =
    .ok (.null, rest) := by
  have bytes : Utf8.encodeChars "null".toList = [code 'n', code 'u', code 'l', code 'l'] := by
    decide
  rw [bytes]
  rfl

theorem single_bool (flag : Bool) :
    single bound inside (Utf8.encodeChars (if flag then "true" else "false").toList ++ rest) =
      .ok (.bool flag, rest) := by
  have yes : Utf8.encodeChars "true".toList = [code 't', code 'r', code 'u', code 'e'] := by
    decide
  have no : Utf8.encodeChars "false".toList =
      [code 'f', code 'a', code 'l', code 's', code 'e'] := by decide
  cases flag with
  | true =>
      simp only [↓reduceIte]
      rw [yes]
      rfl
  | false =>
      simp only [Bool.false_eq_true, ↓reduceIte]
      rw [no]
      rfl

theorem single_text :
    single bound inside (code '"' :: rest) =
      (text [] rest).map fun found => (.str found.1, found.2) := by
  rw [single, bind_read _ _ (blanks_visible _ rfl _), bind_read get _ rfl]
  simp only
  generalize text [] rest = read
  cases read <;> rfl

theorem single_negative :
    single bound inside (code '-' :: rest) =
      (number true rest).map fun found => (.number found.1, found.2) := by
  rw [single, bind_read _ _ (blanks_visible _ rfl _), bind_read get _ rfl]
  simp only
  generalize number true rest = read
  cases read <;> rfl

theorem digit_visible (byte : UInt8) (digit : isDigit byte) : isBlank byte = false := by
  have other : ∀ blank ∈ [(0x20 : UInt8), 0x0a, 0x09, 0x0d], byte ≠ blank := by
    rintro blank member rfl
    have none : ∀ blank ∈ [(0x20 : UInt8), 0x0a, 0x09, 0x0d], isDigit blank = false :=
      forall_mem_of_all _ _ (by decide)
    rw [none byte member] at digit
    cases digit
  simpa [isBlank, and_assoc] using other

theorem single_digit (byte : UInt8) (digit : isDigit byte) :
    single bound inside (byte :: rest) =
      (number false (byte :: rest)).map fun found => (.number found.1, found.2) := by
  have other : ∀ letter ∈ ['n', 't', 'f', '"', '-'], byte ≠ code letter := by
    rintro letter member rfl
    have none : ∀ letter ∈ ['n', 't', 'f', '"', '-'], isDigit (code letter) = false :=
      forall_mem_of_all _ _ (by decide)
    rw [none letter member] at digit
    cases digit
  simp only [List.forall_mem_cons] at other
  obtain ⟨null, yes, no, quote, minus, -⟩ := other
  rw [single, bind_read _ _ (blanks_visible _ (digit_visible byte digit) _),
    bind_read get _ rfl]
  simp only [null, yes, no, quote, minus, digit, ↓reduceIte]
  generalize number false (byte :: rest) = read
  cases read <;> rfl

theorem quoted_bytes (content : String) :
    Utf8.encodeChars (quoted content) ++ rest =
      code '"' :: (Utf8.encodeChars (content.toList.flatMap escape) ++ (code '"' :: rest)) := by
  have quote : Utf8.encodeChars ['"'] = [code '"'] := by decide
  rw [quoted, ← List.singleton_append, Utf8.encode_chars_append, Utf8.encode_chars_append, quote]
  simp

theorem single_quoted (content : String) :
    single bound inside (Utf8.encodeChars (quoted content) ++ rest) = .ok (.str content, rest) := by
  rw [quoted_bytes, single_text, text_quoted]
  rfl

theorem single_natural (amount : UInt64) (apart : Apart rest) :
    single bound inside (Utf8.encodeChars (Number.natural amount).text ++ rest) =
      .ok (.number (.natural amount), rest) := by
  have fits : amount.toNat < 2 ^ 64 := amount.toNat_lt
  have read := number_whole false amount.toNat fits rest apart
  obtain ⟨first, tail, low, -, bytes, -⟩ := digits_significand amount.toNat fits
  obtain ⟨-, digit, -⟩ := digit_code first low
  have whole : whole false amount.toNat = .natural amount := by
    simp [whole]
  rw [whole] at read
  rw [Number.text]
  rw [bytes, List.cons_append] at read ⊢
  rw [single_digit bound inside _ _ digit, read]
  rfl

theorem single_below (amount : Int64) (below : amount.toInt < 0) (apart : Apart rest) :
    single bound inside (Utf8.encodeChars (Number.negative amount).text ++ rest) =
      .ok (.number (.negative amount), rest) := by
  have least := Int64.le_toInt amount
  have fits : amount.toInt.natAbs ≤ 2 ^ 63 := by omega
  have read := number_whole true amount.toInt.natAbs (by omega) rest apart
  have whole : whole true amount.toInt.natAbs = .negative amount := by
    have some : ¬(amount.toInt.natAbs = 0 || 2 ^ 63 < amount.toInt.natAbs) := by
      simp only [Bool.or_eq_true, decide_eq_true_eq]
      omega
    have back : -(amount.toInt.natAbs : Int) = amount.toInt := by omega
    rw [whole, if_pos rfl, if_neg some, back, Int64.ofInt_toInt]
  have minus : Utf8.encodeChars ['-'] = [code '-'] := by decide
  rw [whole] at read
  rw [Number.text, ← List.singleton_append, Utf8.encode_chars_append, minus, List.append_assoc,
    List.singleton_append, single_negative, read]
  rfl

end Single

end Interchange.Json.Read
