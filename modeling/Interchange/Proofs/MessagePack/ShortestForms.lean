import Interchange.Proofs.CanonicalValues
import Interchange.Proofs.Json.FloatFreeValues
/-!
No accepted form of a value is shorter than the one that the encoder writes, floats aside. A number
or a length is written in no more digits than any form that holds it has, and the parts of a
container are each as short as they can be. A float is the exception: it is always written in
eight digits, though four of them may hold it.
-/
namespace Interchange.MessagePack

open Json (FloatFree)

/-! What is written for a number or a length, against any digits that hold it. -/
section Digits

theorem header_length (marker : UInt8) (width number : Nat) :
    (Writer.header marker width number).length = width + 1 := by
  rw [Writer.header, List.length_cons, Read.big_endian_length]

theorem unsigned_length {number width : Nat} (form : width ∈ [1, 2, 4, 8])
    (fits : number < 256 ^ width) : (Writer.unsignedBytes number).length ≤ width + 1 := by
  simp only [List.mem_cons, List.not_mem_nil, or_false] at form
  unfold Writer.unsignedBytes
  rcases form with rfl | rfl | rfl | rfl <;> split_ifs <;>
    simp only [header_length, List.length_cons, List.length_nil] <;> omega

theorem signed_length {number : Int} {width : Nat} (form : width ∈ [1, 2, 4, 8])
    (low : -256 ^ width ≤ 2 * number) (high : number < 256 ^ width) :
    (Writer.signedBytes number).length ≤ width + 1 := by
  unfold Writer.signedBytes
  split
  · exact unsigned_length form (by zify; omega)
  · simp only [List.mem_cons, List.not_mem_nil, or_false] at form
    rcases form with rfl | rfl | rfl | rfl <;> split_ifs <;>
      simp only [header_length, Read.big_endian_length] <;> omega

theorem wide_length {marker16 marker32 : UInt8} {size width : Nat} (form : width ∈ [2, 4])
    (fits : size < 256 ^ width) : (wideImage marker16 marker32 size).length ≤ width + 1 := by
  simp only [List.mem_cons, List.not_mem_nil, or_false] at form
  unfold wideImage
  rcases form with rfl | rfl <;> split_ifs <;> simp only [header_length] <;> omega

theorem length_length {marker8 marker16 marker32 : UInt8} {size width : Nat}
    (form : width ∈ [1, 2, 4]) (fits : size < 256 ^ width) :
    (lengthImage marker8 marker16 marker32 size).length ≤ width + 1 := by
  unfold lengthImage
  rcases List.mem_cons.mp form with rfl | wider
  · have byte : size < 2 ^ 8 := fits
    rw [if_pos byte, header_length]
  · split
    · have most : 1 ≤ width := by
        simp only [List.mem_cons, List.not_mem_nil, or_false] at wider
        omega
      rw [header_length]
      omega
    · exact wide_length wider fits

end Digits

/-! The forms of one family, against the bytes that the encoder puts in front. -/
section Heads
variable {lead : UInt8} {digits : List UInt8} {size : Nat}

theorem head_length {forms : Forms} (head : Head forms lead digits size) (fixed : Nat → UInt8)
    (wide : Nat → List UInt8)
    (long : ∀ width ∈ forms.long.map (·.2), ∀ size < 256 ^ width,
      (wide size).length ≤ width + 1) :
    (if size < forms.short then [fixed size] else wide size).length ≤ digits.length + 1 := by
  cases head with
  | short small =>
      rw [if_pos small]
      exact Nat.le_refl 1
  | long form =>
      split
      · exact Nat.le_add_left 1 digits.length
      · exact long _ (List.mem_map_of_mem form) _ (spelled_small digits)

theorem text_head_length (head : Head textForms lead digits size) :
    (if size < 32 then [UInt8.ofNat (0xa0 + size)]
      else lengthImage 0xd9 0xda 0xdb size).length ≤ digits.length + 1 :=
  head_length head (fun size => .ofNat (0xa0 + size)) (lengthImage 0xd9 0xda 0xdb)
    (fun _ form _ fits => length_length form fits)

theorem binary_head_length (head : Head binaryForms lead digits size) :
    (lengthImage 0xc4 0xc5 0xc6 size).length ≤ digits.length + 1 := by
  have most := head_length head (fun _ => 0) (lengthImage 0xc4 0xc5 0xc6)
    (fun _ form _ fits => length_length form fits)
  have none : ¬ size < binaryForms.short := Nat.not_lt_zero size
  rwa [if_neg none] at most

theorem list_head_length (head : Head listForms lead digits size) :
    (arrayImage size).length ≤ digits.length + 1 :=
  head_length head (fun size => .ofNat (0x90 + size)) (wideImage 0xdc 0xdd)
    (fun _ form _ fits => wide_length form fits)

theorem map_head_length (head : Head mapForms lead digits size) :
    (mapImage size).length ≤ digits.length + 1 :=
  head_length head (fun size => .ofNat (0x80 + size)) (wideImage 0xde 0xdf)
    (fun _ form _ fits => wide_length form fits)

end Heads

theorem spells_shortest {bytes : List UInt8} {text : String} (spells : Spells bytes text) :
    (textImage text).length ≤ bytes.length := by
  cases spells with
  | sized head =>
      have front := text_head_length head
      simp only [textImage, List.length_append, List.length_cons]
      omega

theorem integral_image {number : Int} {value : Value} (held : Integral number value) :
    image value = Writer.signedBytes number := by
  cases value with
  | integer word =>
      obtain rfl : word.toInt = number := held
      rw [image]
  | unsigned word =>
      obtain ⟨rfl, -⟩ := held
      rw [image, Writer.signedBytes, if_pos (Int.natCast_nonneg _), Int.toNat_natCast]
  | _ => contradiction

theorem natural_shortest {lead : UInt8} {digits : List UInt8}
    (form : (lead, digits.length) ∈ naturalForms) :
    (Writer.signedBytes (spelled digits)).length ≤ (lead :: digits).length := by
  have small := spelled_small digits
  refine signed_length (List.mem_map_of_mem (f := Prod.snd) form) ?_ (by exact_mod_cast small)
  have filled : (0 : Int) < 256 ^ digits.length := by positivity
  omega

theorem integer_shortest {lead : UInt8} {digits : List UInt8}
    (form : (lead, digits.length) ∈ integerForms) :
    (Writer.signedBytes (spelledSigned digits)).length ≤ (lead :: digits).length := by
  have small : (spelled digits : Int) < 256 ^ digits.length := by
    exact_mod_cast spelled_small digits
  refine signed_length (List.mem_map_of_mem (f := Prod.snd) form) ?_ ?_ <;>
    rw [spelledSigned] <;> split <;> zify at * <;> omega

/-! Parts add up. -/
section Parts

theorem sequence_shortest {bytes : List UInt8} {items : List Value}
    (sequence : Sequence Denotes bytes items)
    (each : ∀ item ∈ items, ∀ part, Denotes part item → (image item).length ≤ part.length) :
    (imageItems items).length ≤ bytes.length := by
  induction sequence with
  | nil => exact Nat.le_refl 0
  | cons first others ih =>
      obtain ⟨here, behind⟩ := List.forall_mem_cons.mp each
      rw [imageItems, List.length_append, List.length_append]
      exact Nat.add_le_add (here _ first) (ih behind)

theorem members_shortest {bytes : List UInt8} {entries : List (String × Value)}
    (members : Members Spells Denotes bytes entries)
    (each : ∀ entry ∈ entries, ∀ part, Denotes part entry.2 →
      (image entry.2).length ≤ part.length) :
    (imageEntries entries).length ≤ bytes.length := by
  induction members with
  | nil => exact Nat.le_refl 0
  | cons called first others ih =>
      obtain ⟨here, behind⟩ := List.forall_mem_cons.mp each
      simp only [imageEntries, List.length_append]
      exact Nat.add_le_add (spells_shortest called) (Nat.add_le_add (here _ first) (ih behind))

end Parts

/-- Whatever bytes denote a value without floats, its image is no longer. -/
theorem denotes_shortest (value : Value) : value.Every FloatFree →
    ∀ bytes, Denotes bytes value → (image value).length ≤ bytes.length := by
  induction value using Value.inside_induction with
  | step value ih =>
      intro free bytes denotes
      cases denotes with
      | null => exact Nat.le_refl 1
      | no => exact Nat.le_refl 1
      | yes => exact Nat.le_refl 1
      | @shortNatural number _ small held =>
          rw [integral_image held, Writer.signedBytes, if_pos (Int.natCast_nonneg _),
            Int.toNat_natCast, Writer.unsignedBytes, if_pos small]
      | @shortNegative number _ low high held =>
          rw [integral_image held, Writer.signedBytes, if_neg (by omega), if_pos (by omega),
            Read.big_endian_length]
          exact Nat.le_refl 1
      | natural form held =>
          rw [integral_image held]
          exact natural_shortest form
      | integer form held =>
          rw [integral_image held]
          exact integer_shortest form
      | single => exact absurd (Value.every_here free) id
      | double => exact absurd (Value.every_here free) id
      | text spells => exact spells_shortest spells
      | binary head =>
          have front := binary_head_length head
          simp only [image, List.length_append, List.length_cons]
          omega
      | list head parts =>
          have front := list_head_length head
          have inside := sequence_shortest parts fun item member =>
            ih item (.item member) (Value.every_item free member)
          simp only [image, List.length_append, List.length_cons]
          omega
      | map head parts distinct =>
          have front := map_head_length head
          have inside := members_shortest parts fun entry member =>
            ih entry.2 (.entry member) (Value.every_entry free member)
          simp only [image, List.length_append, List.length_cons]
          omega

/-- A decoded value without floats is written as bytes that are decoded as the same value, and no
bytes that are decoded as it, within any depth, are fewer. -/
theorem encode_shortest {limit : Nat} {bytes : List UInt8} {value : Value}
    (decoded : decodeWithin limit bytes = .ok value) (free : value.Every FloatFree) :
    ∃ shortest, encode value = .ok shortest ∧ decodeWithin limit shortest = .ok value ∧
      shortest.length ≤ bytes.length ∧
      ∀ other depth, decodeWithin depth other = .ok value → shortest.length ≤ other.length := by
  obtain ⟨shortest, written, again⟩ := decode_again decoded
  have whole : shortest = image value := ((encode_ok_iff value shortest).mp written).2
  have least : ∀ other depth, decodeWithin depth other = .ok value →
      shortest.length ≤ other.length := by
    intro other depth read
    rw [whole]
    exact denotes_shortest value free other ((decode_eq_ok_iff depth other value).mp read).1
  exact ⟨shortest, written, again, least bytes limit decoded, least⟩

set_option maxRecDepth 2048 in
/-- Longer forms of a length, a key, a negative number and a number above the signed range. -/
theorem encode_shortest_map :
    let bytes : List UInt8 := [0xde, 0x00, 0x01, 0xd9, 0x01, 0x61, 0xdc, 0x00, 0x02,
      0xd1, 0xff, 0xdf, 0xcf, 0x80, 0, 0, 0, 0, 0, 0, 0]
    let value := Value.object [("a", .array [.integer (-33), .unsigned 0x8000000000000000])]
    (decodeWithin 2 bytes = .ok value ∧ value.Every FloatFree) ∧
      ∃ shortest, encode value = .ok shortest ∧ decodeWithin 2 shortest = .ok value ∧
        shortest.length ≤ bytes.length ∧
        ∀ other depth, decodeWithin depth other = .ok value → shortest.length ≤ other.length := by
  intro bytes value
  have decoded : decodeWithin 2 bytes = .ok value := rfl
  have free : value.Every FloatFree := by decide
  exact ⟨⟨decoded, free⟩, encode_shortest decoded free⟩

/-! A float that four digits hold is written in eight. -/
example : decodeWithin 0 [0xca, 0x3f, 0x80, 0, 0] = .ok (.float (.ofPattern 0x3FF0000000000000)) ∧
    (image (.float (.ofPattern 0x3FF0000000000000))).length = 9 := ⟨rfl, rfl⟩

end Interchange.MessagePack
