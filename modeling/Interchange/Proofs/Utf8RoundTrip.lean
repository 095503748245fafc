import Interchange.Text.Utf8
/-!
Every text comes back from its bytes. The bytes of a character are taken whole and nothing behind them
is touched, so the reader of a text stops exactly where its bytes end.
-/
namespace Interchange

/-- What a list is checked for holds of each of its items. -/
theorem forall_mem_of_all {α : Type} (items : List α) (holds : α → Prop) [DecidablePred holds]
    (checked : items.all (fun item => decide (holds item)) = true) : ∀ item ∈ items, holds item :=
  fun item member => of_decide_eq_true (List.all_eq_true.mp checked item member)

namespace Utf8

theorem char_code (character : Char) :
    character.toNat < 0xD800 ∨ (0xE000 ≤ character.toNat ∧ character.toNat < 0x110000) := by
  have valid := character.valid
  simp only [UInt32.isValidChar, Nat.isValidChar] at valid
  change character.val.toNat < 0xD800 ∨ _ ≤ character.val.toNat ∧ character.val.toNat < _
  omega

theorem byte_code (code : Nat) (small : code < 256) : (UInt8.ofNat code).toNat = code := by
  simp only [UInt8.toNat_ofNat']
  omega

theorem char_of_code (character : Char) (code : Nat) (same : code = character.toNat) :
    Char.ofNat code = character := by
  rw [same, Char.ofNat_toNat]

theorem continuation (part : Nat) (small : part < 64) :
    isContinuation (.ofNat (0x80 + part)) = true := by
  simp only [isContinuation, byte_code (0x80 + part) (by omega)]
  simp only [Bool.and_eq_true, decide_eq_true_eq]
  omega

theorem pair_char (character : Char) (low : 0x80 ≤ character.toNat)
    (high : character.toNat < 0x800) :
    pair (.ofNat (0xC0 + character.toNat / 64)) (.ofNat (0x80 + character.toNat % 64)) =
      some character := by
  have tail := continuation (character.toNat % 64) (Nat.mod_lt _ (by decide))
  have lead : 0xC2 ≤ 0xC0 + character.toNat / 64 ∧ 0xC0 + character.toNat / 64 < 0xE0 := by omega
  rw [pair, tail, byte_code _ (by omega), byte_code _ (by omega)]
  simp only [lead.1, lead.2, decide_true, Bool.and_self, ↓reduceIte]
  exact congrArg some (char_of_code character _ (by omega))

/-- The lead byte of a longer form is refused by the shorter ones. -/
theorem pair_longer (lead : Nat) (second : UInt8) (longer : 0xE0 ≤ lead) (small : lead < 256) :
    pair (.ofNat lead) second = none := by
  rw [pair, byte_code lead small]
  have beyond : ¬ lead < 0xE0 := by omega
  simp [beyond]

theorem triple_longer (lead : Nat) (second third : UInt8) (longer : 0xF0 ≤ lead)
    (small : lead < 256) : triple (.ofNat lead) second third = none := by
  rw [triple, byte_code lead small]
  have beyond : ¬ lead < 0xF0 := by omega
  simp [beyond]

theorem triple_char (character : Char) (low : 0x800 ≤ character.toNat)
    (high : character.toNat < 0x10000) :
    triple (.ofNat (0xE0 + character.toNat / 4096)) (.ofNat (0x80 + character.toNat / 64 % 64))
      (.ofNat (0x80 + character.toNat % 64)) = some character := by
  have second := continuation (character.toNat / 64 % 64) (Nat.mod_lt _ (by decide))
  have third := continuation (character.toNat % 64) (Nat.mod_lt _ (by decide))
  have valid := char_code character
  rw [triple, second, third, byte_code _ (by omega), byte_code _ (by omega), byte_code _ (by omega)]
  have joined : (0xE0 + character.toNat / 4096 - 0xE0) * 4096 +
      (0x80 + character.toNat / 64 % 64 - 0x80) * 64 + (0x80 + character.toNat % 64 - 0x80) =
        character.toNat := by omega
  rw [joined, char_of_code character _ rfl, if_pos]
  simp only [Bool.and_true, Bool.and_eq_true, Bool.or_eq_true, decide_eq_true_eq]
  omega

theorem quadruple_char (character : Char) (low : 0x10000 ≤ character.toNat) :
    quadruple (.ofNat (0xF0 + character.toNat / 262144))
      (.ofNat (0x80 + character.toNat / 4096 % 64)) (.ofNat (0x80 + character.toNat / 64 % 64))
      (.ofNat (0x80 + character.toNat % 64)) = some character := by
  have second := continuation (character.toNat / 4096 % 64) (Nat.mod_lt _ (by decide))
  have third := continuation (character.toNat / 64 % 64) (Nat.mod_lt _ (by decide))
  have fourth := continuation (character.toNat % 64) (Nat.mod_lt _ (by decide))
  have valid := char_code character
  rw [quadruple, second, third, fourth, byte_code _ (by omega), byte_code _ (by omega),
    byte_code _ (by omega), byte_code _ (by omega)]
  have joined : (0xF0 + character.toNat / 262144 - 0xF0) * 262144 +
      (0x80 + character.toNat / 4096 % 64 - 0x80) * 4096 +
      (0x80 + character.toNat / 64 % 64 - 0x80) * 64 + (0x80 + character.toNat % 64 - 0x80) =
        character.toNat := by omega
  rw [joined, char_of_code character _ rfl, if_pos]
  simp only [Bool.and_true, Bool.and_eq_true, decide_eq_true_eq]
  omega

theorem scan_char (character : Char) (read : List Char) (rest : List UInt8) :
    scanFrom read (encodeChar character ++ rest) = scanFrom (character :: read) rest := by
  have valid := char_code character
  by_cases one : character.toNat < 0x80
  · simp only [encodeChar, one, ↓reduceIte, List.cons_append, List.nil_append]
    rw [scanFrom.eq_def]
    simp only
    rw [byte_code _ (by omega), if_pos one, Char.ofNat_toNat]
  · by_cases two : character.toNat < 0x800
    · simp only [encodeChar, one, two, ↓reduceIte, List.cons_append, List.nil_append]
      rw [scanFrom.eq_def]
      simp only
      rw [byte_code _ (by omega), if_neg (by omega),
        pair_char character (by omega) two]
    · by_cases three : character.toNat < 0x10000
      · simp only [encodeChar, one, two, three, ↓reduceIte, List.cons_append, List.nil_append]
        rw [scanFrom.eq_def]
        simp only
        rw [byte_code _ (by omega), if_neg (by omega),
          pair_longer _ _ (by omega) (by omega), triple_char character (by omega) three]
      · simp only [encodeChar, one, two, three, ↓reduceIte, List.cons_append, List.nil_append]
        rw [scanFrom.eq_def]
        simp only
        rw [byte_code _ (by omega), if_neg (by omega),
          pair_longer _ _ (by omega) (by omega), triple_longer _ _ _ (by omega) (by omega),
          quadruple_char character (by omega)]

theorem scan_chars (text read : List Char) (rest : List UInt8) :
    scanFrom read (encodeChars text ++ rest) = scanFrom (text.reverse ++ read) rest := by
  induction text generalizing read with
  | nil => rfl
  | cons character others ih =>
      rw [encodeChars, List.flatMap_cons, List.append_assoc, scan_char]
      change scanFrom (character :: read) (encodeChars others ++ rest) = _
      rw [ih, List.reverse_cons, List.append_assoc, List.singleton_append]

theorem scan_encoded (text : List Char) : scan (encodeChars text) = (text, []) := by
  have scanned := scan_chars text [] []
  rw [List.append_nil] at scanned
  rw [scan, scanned, scanFrom, List.append_nil, List.reverse_reverse]

theorem decode_encode (text : String) : decode (encode text) = some text := by
  rw [decode, encode, scan_encoded]
  exact congrArg some (String.ofList_toList)

end Utf8

end Interchange
