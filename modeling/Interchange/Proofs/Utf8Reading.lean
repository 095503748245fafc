import Interchange.Proofs.Utf8RoundTrip
/-!
Bytes are read as a text only if they are the bytes of that text. A form is taken for a character
exactly if the character is written in that form, so what a scan has read and what it has left make up
its input.
-/
namespace Interchange.Utf8

theorem ofNat_code (code : Nat) (valid : code.isValidChar) : (Char.ofNat code).toNat = code := by
  rw [Char.ofNat, dif_pos valid]
  rfl

theorem byte_of_code (byte : UInt8) (code : Nat) (same : code = byte.toNat) :
    UInt8.ofNat code = byte := by
  rw [same, UInt8.ofNat_toNat]

theorem encode_short (byte : UInt8) (short : byte.toNat < 0x80) :
    encodeChar (.ofNat byte.toNat) = [byte] := by
  have code := ofNat_code byte.toNat (Or.inl (by omega))
  rw [encodeChar, code]
  simp only [short, ↓reduceIte, UInt8.ofNat_toNat]

theorem encode_pair (first second : UInt8) (character : Char)
    (read : pair first second = some character) : encodeChar character = [first, second] := by
  simp only [pair, isContinuation, Bool.and_eq_true, decide_eq_true_eq,
    Option.ite_none_right_eq_some, Option.some.injEq] at read
  obtain ⟨⟨⟨low, high⟩, behind, bounded⟩, rfl⟩ := read
  rw [encodeChar, ofNat_code _ (Or.inl (by omega))]
  rw [if_neg (by omega), if_pos (by omega), byte_of_code first _ (by omega),
    byte_of_code second _ (by omega)]

theorem encode_triple (first second third : UInt8) (character : Char)
    (read : triple first second third = some character) :
    encodeChar character = [first, second, third] := by
  simp only [triple, isContinuation, Bool.and_eq_true, Bool.or_eq_true, decide_eq_true_eq,
    Option.ite_none_right_eq_some, Option.some.injEq] at read
  obtain ⟨⟨⟨⟨⟨⟨low, high⟩, secondLow, secondHigh⟩, thirdLow, thirdHigh⟩, long⟩, apart⟩, rfl⟩ := read
  have valid : ((first.toNat - 0xE0) * 4096 + (second.toNat - 0x80) * 64 +
      (third.toNat - 0x80)).isValidChar := by
    simp only [Nat.isValidChar]
    omega
  rw [encodeChar, ofNat_code _ valid]
  rw [if_neg (by omega), if_neg (by omega), if_pos (by omega), byte_of_code first _ (by omega),
    byte_of_code second _ (by omega), byte_of_code third _ (by omega)]

theorem encode_quadruple (first second third fourth : UInt8) (character : Char)
    (read : quadruple first second third fourth = some character) :
    encodeChar character = [first, second, third, fourth] := by
  simp only [quadruple, isContinuation, Bool.and_eq_true, decide_eq_true_eq,
    Option.ite_none_right_eq_some, Option.some.injEq] at read
  obtain ⟨⟨⟨⟨⟨⟨⟨low, high⟩, secondLow, secondHigh⟩, thirdLow, thirdHigh⟩, fourthLow, fourthHigh⟩,
    long⟩, bounded⟩, rfl⟩ := read
  have valid : ((first.toNat - 0xF0) * 262144 + (second.toNat - 0x80) * 4096 +
      (third.toNat - 0x80) * 64 + (fourth.toNat - 0x80)).isValidChar := by
    simp only [Nat.isValidChar]
    omega
  rw [encodeChar, ofNat_code _ valid]
  rw [if_neg (by omega), if_neg (by omega), if_neg (by omega), byte_of_code first _ (by omega),
    byte_of_code second _ (by omega), byte_of_code third _ (by omega),
    byte_of_code fourth _ (by omega)]

-- A scan that had read some characters before these bytes has read `more` of them since.
def Scanned (read : List Char) (bytes : List UInt8) (ended : List Char × List UInt8) : Prop :=
  ∃ more, ended.1 = read.reverse ++ more ∧ bytes = encodeChars more ++ ended.2

theorem scanned_stop (read : List Char) (bytes : List UInt8) :
    Scanned read bytes (read.reverse, bytes) :=
  ⟨[], by rw [List.append_nil], rfl⟩

theorem scanned_next {read : List Char} {character : Char} {bytes form rest : List UInt8}
    {ended : List Char × List UInt8} (written : encodeChar character = form)
    (later : Scanned (character :: read) rest ended) (whole : bytes = form ++ rest) :
    Scanned read bytes ended := by
  obtain ⟨more, found, left⟩ := later
  refine ⟨character :: more, by simpa using found, ?_⟩
  rw [whole, ← written, left, encodeChars, encodeChars, List.flatMap_cons, List.append_assoc]

/-- What a scan has read and what it has left make up its input. -/
theorem scan_parts (read : List Char) (bytes : List UInt8) :
    Scanned read bytes (scanFrom read bytes) := by
  fun_induction scanFrom read bytes with
  | case1 read => exact scanned_stop read []
  | case2 read first rest short ih => exact scanned_next (encode_short first short) ih rfl
  | case4 read first _ second rest character pairs ih =>
      exact scanned_next (encode_pair _ _ _ pairs) ih rfl
  | case6 read first _ second _ third rest character triples ih =>
      exact scanned_next (encode_triple _ _ _ _ triples) ih rfl
  | case8 read first _ second _ third _ fourth rest character quadruples ih =>
      exact scanned_next (encode_quadruple _ _ _ _ _ quadruples) ih rfl
  | case3 | case5 | case7 | case9 => exact scanned_stop _ _

theorem decode_eq_some_iff (bytes : List UInt8) (text : String) :
    decode bytes = some text ↔ bytes = encode text := by
  constructor
  · intro read
    obtain ⟨more, found, left⟩ := scan_parts [] bytes
    rw [decode, scan] at read
    split at read
    · rename_i characters ended
      rw [ended] at found left
      obtain rfl : String.ofList characters = text := Option.some.inj read
      obtain rfl : characters = more := found
      rw [encode, String.toList_ofList]
      rwa [List.append_nil] at left
    · contradiction
  · rintro rfl
    exact decode_encode text

end Interchange.Utf8
