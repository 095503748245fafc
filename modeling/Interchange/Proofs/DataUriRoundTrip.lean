import Interchange.DataUri
/-!
Bytes come back from their data URI. Each group of three bytes is four digits below 64, whose
symbols name them, and none of them is the filling; so the reader cuts the text into the groups
that the writer made.
-/
namespace Interchange

namespace Base64

theorem digit_symbol (digit : Nat) (small : digit < 64) : digit? (symbol digit) = some digit := by
  have every : ∀ digit < 64, digit? (symbol digit) = some digit := by decide
  exact every digit small

theorem symbol_no_filling (digit : Nat) (small : digit < 64) : symbol digit ≠ '=' := by
  have every : ∀ digit < 64, symbol digit ≠ '=' := by decide
  exact every digit small

theorem last_one (first : UInt8) :
    lastOne (symbol (first.toNat * 16 / 64)) (symbol (first.toNat * 16 % 64)) = some [first] := by
  have bound := first.toNat_lt
  have joined : first.toNat * 16 / 64 * 4 + first.toNat * 16 % 64 / 16 = first.toNat := by omega
  rw [lastOne, digit_symbol _ (by omega), digit_symbol _ (by omega)]
  simp only
  rw [if_pos (by omega), joined, UInt8.ofNat_toNat]

theorem last_two (first second : UInt8) :
    let bits := (first.toNat * 256 + second.toNat) * 4
    lastTwo (symbol (bits / 4096)) (symbol (bits / 64 % 64)) (symbol (bits % 64)) =
      some [first, second] := by
  intro bits
  have high := first.toNat_lt
  have low := second.toNat_lt
  have joined : bits / 4096 * 1024 + bits / 64 % 64 * 16 + bits % 64 / 4 =
      first.toNat * 256 + second.toNat := by omega
  have left : (first.toNat * 256 + second.toNat) / 256 = first.toNat := by omega
  have right : (first.toNat * 256 + second.toNat) % 256 = second.toNat := by omega
  rw [lastTwo, digit_symbol _ (by omega), digit_symbol _ (by omega), digit_symbol _ (by omega)]
  simp only
  rw [if_pos (by omega), joined, left, right, UInt8.ofNat_toNat, UInt8.ofNat_toNat]

theorem full_group (first second third : UInt8) :
    let bits := first.toNat * 65536 + second.toNat * 256 + third.toNat
    group (symbol (bits / 262144)) (symbol (bits / 4096 % 64)) (symbol (bits / 64 % 64))
      (symbol (bits % 64)) = some [first, second, third] := by
  intro bits
  have high := first.toNat_lt
  have middle := second.toNat_lt
  have low := third.toNat_lt
  have joined : bits / 262144 * 262144 + bits / 4096 % 64 * 4096 + bits / 64 % 64 * 64 +
      bits % 64 = bits := by omega
  have byte1 : bits / 65536 = first.toNat := by omega
  have byte2 : bits / 256 % 256 = second.toNat := by omega
  have byte3 : bits % 256 = third.toNat := by omega
  rw [group, digit_symbol _ (by omega), digit_symbol _ (by omega), digit_symbol _ (by omega),
    digit_symbol _ (by omega)]
  simp only
  rw [joined, byte1, byte2, byte3, UInt8.ofNat_toNat, UInt8.ofNat_toNat, UInt8.ofNat_toNat]

theorem decode_encode (bytes : List UInt8) : decode? (encode bytes) = some bytes := by
  induction bytes using encode.induct with
  | case1 => rfl
  | case2 first =>
      rw [encode, decode?]
      simp only [↓reduceIte, ne_eq, not_true_eq_false]
      exact last_one first
  | case3 first second =>
      have third := symbol_no_filling ((first.toNat * 256 + second.toNat) * 4 % 64)
        (Nat.mod_lt _ (by decide))
      rw [encode, decode?]
      simp only [↓reduceIte, ne_eq, not_true_eq_false, third]
      exact last_two first second
  | case4 first second third rest ih =>
      have fourth := symbol_no_filling
        ((first.toNat * 65536 + second.toNat * 256 + third.toNat) % 64) (Nat.mod_lt _ (by decide))
      rw [encode, decode?]
      simp only [fourth, ↓reduceIte, full_group first second third, ih]
      rfl

end Base64

namespace DataUri

theorem of_bytes_list (content : List UInt8) :
    (ofBytes content).toList = start.toList ++ Base64.encode content := by
  rw [ofBytes, String.toList_append, String.toList_ofList]

theorem bytes_of_bytes (content : List UInt8) : bytes? (ofBytes content) = some content := by
  rw [bytes?, of_bytes_list, if_pos (List.isPrefixOf_iff_prefix.mpr (List.prefix_append _ _)),
    List.drop_left]
  exact Base64.decode_encode content

end DataUri

end Interchange
