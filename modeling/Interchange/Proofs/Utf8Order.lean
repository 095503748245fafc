import Mathlib.Tactic.SplitIfs
import Interchange.Proofs.Utf8RoundTrip
/-!
Texts are in the order of their bytes. The leading byte of a longer form is above that of a shorter one,
and in forms of one length the bytes are the digits of the character's code; so of two texts the one with
the smaller character, where they first differ, has the smaller byte there.
-/
namespace Interchange.Utf8

theorem byte_cons_lt {first second : Nat} (firstSmall : first < 256) (secondSmall : second < 256)
    (bytes others : List UInt8) :
    UInt8.ofNat first :: bytes < UInt8.ofNat second :: others ↔
      first < second ∨ (first = second ∧ bytes < others) := by
  rw [List.cons_lt_cons_iff, UInt8.lt_iff_toNat_lt, ← UInt8.toNat_inj, byte_code first firstSmall,
    byte_code second secondSmall]

theorem append_lt {bytes others : List UInt8} (less : bytes < others) (front : List UInt8) :
    front ++ bytes < front ++ others := by
  induction front with
  | nil => exact less
  | cons byte rest ih => exact List.cons_lt_cons_iff.mpr (Or.inr ⟨rfl, ih⟩)

theorem encode_char_lt {first second : Char} (less : first.toNat < second.toNat)
    (bytes others : List UInt8) : encodeChar first ++ bytes < encodeChar second ++ others := by
  have bound := char_code first
  have boundToo := char_code second
  simp only [encodeChar]
  -- One case for each pair of lengths.
  split_ifs <;>
    simp (disch := omega) only [List.cons_append, List.nil_append, byte_cons_lt] <;> omega

theorem encode_char_nonempty (character : Char) : encodeChar character ≠ [] := by
  rw [encodeChar]
  split_ifs <;> exact List.cons_ne_nil _ _

theorem encode_chars_lt {first second : List Char} (less : first < second) :
    encodeChars first < encodeChars second := by
  induction less with
  | @nil character others =>
      obtain ⟨byte, rest, filled⟩ := List.exists_cons_of_ne_nil (encode_char_nonempty character)
      rw [encodeChars, encodeChars, List.flatMap_cons, filled]
      exact List.nil_lt_cons _ _
  | rel smaller => exact encode_char_lt smaller _ _
  | cons _ ih => exact append_lt ih _

/-- The order of texts is that of their bytes. -/
theorem encode_lt {first second : String} (less : first < second) :
    encode first < encode second :=
  encode_chars_lt (String.lt_iff.mp less)

end Interchange.Utf8
