import Mathlib.Algebra.Group.Defs
import Interchange.Proofs.EnumerationIntegers
import Interchange.Proofs.Json.WrittenValues
import Interchange.Proofs.MessagePack.AcceptedBytes
/-!
Decoded values. Whatever form the bytes have, an integer is in the word that readers choose for it, the
keys of a map come once each, and no length exceeds what a header can give. So a decoded value can be
written, and what was written is read as the same value within the same depth.
-/
namespace Interchange

namespace Value

/-- Canonical integers are equal just if their numbers are: the two words share none of them. -/
theorem canonical_integers {left right : Value} {leftNumber rightNumber : Int}
    (leftHeld : left.Canonical) (rightHeld : right.Canonical)
    (leftInteger : left.integer? = some leftNumber)
    (rightInteger : right.integer? = some rightNumber) :
    left = right ↔ leftNumber = rightNumber := by
  constructor
  · rintro rfl
    exact Option.some.inj (leftInteger.symm.trans rightInteger)
  · rintro rfl
    cases left with
    | integer signed =>
        have first : signed.toInt = leftNumber := Option.some.inj leftInteger
        cases right with
        | integer other =>
            have second : other.toInt = leftNumber := Option.some.inj rightInteger
            rw [Int64.toInt_inj.mp (first.trans second.symm)]
        | unsigned natural =>
            have second : (natural.toNat : Int) = leftNumber := Option.some.inj rightInteger
            have high : 2 ^ 63 ≤ natural.toNat := rightHeld
            have low := signed.toInt_lt
            omega
        | _ => contradiction
    | unsigned natural =>
        have first : (natural.toNat : Int) = leftNumber := Option.some.inj leftInteger
        have high : 2 ^ 63 ≤ natural.toNat := leftHeld
        cases right with
        | integer signed =>
            have second : signed.toInt = leftNumber := Option.some.inj rightInteger
            have low := signed.toInt_lt
            omega
        | unsigned other =>
            have second : (other.toNat : Int) = leftNumber := Option.some.inj rightInteger
            rw [UInt64.toNat_inj.mp (by omega : natural.toNat = other.toNat)]
        | _ => contradiction
    | _ => contradiction

theorem same_integer {left : Value} {number : Int} (right : Value)
    (integral : left.integer? = some number) : left.same right = true ↔ left = right := by
  cases left with
  | integer word => cases right <;> simp [same]
  | unsigned word => cases right <;> simp [same]
  | _ => contradiction

end Value

namespace MessagePack

section Parts
variable {each : List UInt8 → Value → Prop} {key : List UInt8 → String → Prop}

theorem sequence_item {bytes : List UInt8} {items : List Value} {item : Value}
    (sequence : Sequence each bytes items) (member : item ∈ items) : ∃ part, each part item := by
  induction sequence with
  | nil => contradiction
  | cons first others ih =>
      rcases List.mem_cons.mp member with rfl | later
      · exact ⟨_, first⟩
      · exact ih later

theorem members_entry {bytes : List UInt8} {entries : List (String × Value)}
    {entry : String × Value} (members : Members key each bytes entries) (member : entry ∈ entries) :
    (∃ named, key named entry.1) ∧ ∃ part, each part entry.2 := by
  induction members with
  | nil => contradiction
  | cons called first others ih =>
      rcases List.mem_cons.mp member with rfl | later
      · exact ⟨⟨_, called⟩, ⟨_, first⟩⟩
      · exact ih later

end Parts

theorem integral_word {number : Int} {value : Value} (held : Integral number value) :
    (∃ word, value = .integer word) ∨ ∃ word, value = .unsigned word := by
  cases value with
  | integer word => exact .inl ⟨word, rfl⟩
  | unsigned word => exact .inr ⟨word, rfl⟩
  | _ => contradiction

/-- What holds of all that bytes can denote holds of all parts of what they denote. -/
theorem denotes_every {holds : Value → Prop}
    (each : ∀ bytes value, Denotes bytes value → holds value) (value : Value) :
    ∀ bytes, Denotes bytes value → value.Every holds := by
  induction value using Value.inside_induction with
  | step value ih =>
      intro bytes denotes
      have here := each bytes value denotes
      cases denotes with
      | text spells => exact (Value.every_scalar holds _ rfl).mpr here
      | list head parts =>
          refine (Value.every_array holds _).mpr ⟨here, fun item member => ?_⟩
          obtain ⟨part, denoted⟩ := sequence_item parts member
          exact ih item (.item member) part denoted
      | map head parts distinct =>
          refine (Value.every_object holds _).mpr ⟨here, fun entry member => ?_⟩
          obtain ⟨-, part, denoted⟩ := members_entry parts member
          exact ih entry.2 (.entry member) part denoted
      | shortNatural _ held | shortNegative _ _ held | natural _ held | integer _ held =>
          obtain ⟨word, rfl⟩ | ⟨word, rfl⟩ := integral_word held
          all_goals exact (Value.every_scalar holds _ rfl).mpr here
      | _ => exact (Value.every_scalar holds _ rfl).mpr here

theorem head_small {forms : Forms} {lead : UInt8} {digits : List UInt8} {size : Nat}
    (short : forms.short ≤ 32) (long : ∀ form ∈ forms.long, form.2 ≤ 4)
    (head : Head forms lead digits size) : size < 2 ^ 32 := by
  cases head with
  | short small => omega
  | long form =>
      calc spelled digits < 256 ^ digits.length := spelled_small digits
        _ ≤ 256 ^ 4 := Nat.pow_le_pow_right (by decide) (long _ form)

theorem integral_canonical {number : Int} {value : Value} (held : Integral number value) :
    value.Canonical := by
  cases value with
  | unsigned word =>
      obtain ⟨same, high⟩ := held
      have above : 2 ^ 63 ≤ word.toNat := by omega
      exact above
  | _ => trivial

theorem denotes_canonical {bytes : List UInt8} {value : Value} (denotes : Denotes bytes value) :
    value.Canonical := by
  cases denotes with
  | shortNatural _ held | shortNegative _ _ held | natural _ held | integer _ held =>
      exact integral_canonical held
  | _ => trivial

theorem denotes_distinct {bytes : List UInt8} {value : Value} (denotes : Denotes bytes value) :
    value.DistinctKeys := by
  cases denotes with
  | map head parts distinct => exact distinct
  | shortNatural _ held | shortNegative _ _ held | natural _ held | integer _ held =>
      obtain ⟨word, rfl⟩ | ⟨word, rfl⟩ := integral_word held
      all_goals trivial
  | _ => trivial

theorem spells_small {bytes : List UInt8} {text : String} (spells : Spells bytes text) :
    (Utf8.encode text).length < 2 ^ 32 := by
  cases spells with
  | sized head => exact head_small (by decide) (by decide) head

theorem denotes_sized {bytes : List UInt8} {value : Value} (denotes : Denotes bytes value) :
    Sized value := by
  cases denotes with
  | text spells => exact spells_small spells
  | binary head => exact head_small (by decide) (by decide) head
  | list head parts => exact head_small (by decide) (by decide) head
  | map head parts distinct =>
      refine ⟨head_small (by decide) (by decide) head, fun entry member => ?_⟩
      obtain ⟨⟨named, spells⟩, -⟩ := members_entry parts member
      exact spells_small spells
  | shortNatural _ held | shortNegative _ _ held | natural _ held | integer _ held =>
      obtain ⟨word, rfl⟩ | ⟨word, rfl⟩ := integral_word held
      all_goals trivial
  | _ => trivial

section Decoded
variable {limit : Nat} {bytes : List UInt8} {value : Value}

theorem decode_canonical (decoded : decodeWithin limit bytes = .ok value) :
    value.Every Value.Canonical ∧ value.Every Value.DistinctKeys ∧ value.height ≤ limit := by
  obtain ⟨denoted, shallow⟩ := (decode_eq_ok_iff limit bytes value).mp decoded
  exact ⟨denotes_every (fun _ _ => denotes_canonical) value bytes denoted,
    denotes_every (fun _ _ => denotes_distinct) value bytes denoted, shallow⟩

/-- What was decoded can be written, and is decoded again as the same value. -/
theorem decode_again (decoded : decodeWithin limit bytes = .ok value) :
    ∃ again, encode value = .ok again ∧ decodeWithin limit again = .ok value := by
  obtain ⟨canonical, distinct, shallow⟩ := decode_canonical decoded
  obtain ⟨denoted, -⟩ := (decode_eq_ok_iff limit bytes value).mp decoded
  have sized : value.Every Sized := denotes_every (fun _ _ => denotes_sized) value bytes denoted
  refine ⟨image value, encode_sized value sized, ?_⟩
  rw [decode_image value sized distinct limit, if_pos shallow,
    Value.normalize_canonical value canonical]

end Decoded

end MessagePack

namespace Json

theorem number_canonical (number : Number) : number.toValue.Canonical := by
  cases number with
  | natural number => exact Value.canonical_unsigned number
  | negative number => trivial
  | float number => trivial

/-- What holds of the value of every tree holds of all parts of such a value. -/
theorem tree_every {holds : Value → Prop} (each : ∀ tree : Tree, holds tree.toValue)
    (tree : Tree) : tree.toValue.Every holds := by
  induction tree using Tree.part_induction with
  | step tree ih =>
      have here := each tree
      cases tree with
      | number number =>
          refine (Value.every_scalar _ _ ?_).mpr here
          cases number with
          | natural number =>
              rw [Tree.toValue, Number.toValue, Value.ofUnsigned]
              split <;> rfl
          | _ => rfl
      | array items =>
          rw [Tree.toValue, Tree.to_items, List.reverse_nil, List.nil_append] at here ⊢
          refine (Value.every_array _ _).mpr ⟨here, ?_⟩
          rw [List.forall_mem_map]
          exact fun item member => ih item (.item member)
      | object entries =>
          rw [Tree.toValue, Tree.to_entries, List.reverse_nil, List.nil_append] at here ⊢
          refine (Value.every_object _ _).mpr ⟨here, ?_⟩
          rw [List.forall_mem_map]
          exact fun entry member => ih entry.2 (.entry member)
      | _ => exact (Value.every_scalar _ _ rfl).mpr here

theorem tree_canonical (tree : Tree) : tree.toValue.Canonical := by
  cases tree with
  | number number => exact number_canonical number
  | _ => trivial

theorem decode_every {holds : Value → Prop} (each : ∀ tree : Tree, holds tree.toValue)
    {bytes : List UInt8} {value : Value} (decoded : decode bytes = .ok value) :
    value.Every holds := by
  rw [decode] at decoded
  cases read : parse bytes with
  | error fault =>
      rw [read] at decoded
      contradiction
  | ok tree =>
      rw [read] at decoded
      obtain rfl := Except.ok.inj decoded
      exact tree_every each tree

theorem decode_canonical {bytes : List UInt8} {value : Value}
    (decoded : decode bytes = .ok value) : value.Every Value.Canonical :=
  decode_every tree_canonical decoded

end Json

/-- What either codec may decode, from any bytes and within any depth. -/
inductive Value.Decoded : Value → Prop where
  | messagePack {limit : Nat} {bytes : List UInt8} {value : Value}
      (decoded : MessagePack.decodeWithin limit bytes = .ok value) : Decoded value
  | json {bytes : List UInt8} {value : Value} (decoded : Json.decode bytes = .ok value) :
      Decoded value

theorem Value.decoded_canonical {value : Value} (decoded : value.Decoded) :
    value.Every Canonical := by
  cases decoded with
  | messagePack decoded => exact (MessagePack.decode_canonical decoded).1
  | json decoded => exact Json.decode_canonical decoded

/-- Decoded values can be written and decoded again; in what either codec decodes, integers are the
same value just if they are the same number. -/
theorem decoded_values_canonical :
    (∀ limit bytes value, MessagePack.decodeWithin limit bytes = .ok value →
      value.Every Value.Canonical ∧ value.Every Value.DistinctKeys ∧ value.height ≤ limit ∧
      ∃ again, MessagePack.encode value = .ok again ∧
        MessagePack.decodeWithin limit again = .ok value) ∧
    (∀ bytes value, Json.decode bytes = .ok value → value.Every Value.Canonical) ∧
    ∀ first second : Value, first.Decoded → second.Decoded →
      ∀ left right, (left = first ∨ left.Inside first) → (right = second ∨ right.Inside second) →
        ∀ leftNumber rightNumber, left.integer? = some leftNumber →
          right.integer? = some rightNumber →
          (left.same right = true ↔ leftNumber = rightNumber) ∧
          (left = right ↔ leftNumber = rightNumber) := by
  refine ⟨?again, fun bytes value => Json.decode_canonical, ?integers⟩
  case again =>
    intro limit bytes value decoded
    obtain ⟨canonical, distinct, shallow⟩ := MessagePack.decode_canonical decoded
    exact ⟨canonical, distinct, shallow, MessagePack.decode_again decoded⟩
  case integers =>
    intro first second firstDecoded secondDecoded left right leftPart rightPart leftNumber
      rightNumber leftInteger rightInteger
    have equal := Value.canonical_integers
      (Value.decoded_canonical firstDecoded left leftPart)
      (Value.decoded_canonical secondDecoded right rightPart) leftInteger rightInteger
    exact ⟨(Value.same_integer right leftInteger).trans equal, equal⟩

/-- A map with a longer key form, a small number in eight bytes, the least number above the signed
range and a float of four bytes; the small number is the one that a text spells. -/
theorem decoded_longer_forms :
    let bytes : List UInt8 := [0x81, 0xd9, 0x01, 0x61, 0xdc, 0x00, 0x03,
      0xcf, 0, 0, 0, 0, 0, 0, 0, 7, 0xcf, 0x80, 0, 0, 0, 0, 0, 0, 0, 0xca, 0x3f, 0x80, 0, 0]
    let value := Value.object [("a", .array [.integer 7, .unsigned 0x8000000000000000,
      .float (.ofPattern 0x3FF0000000000000)])]
    MessagePack.decodeWithin 2 bytes = .ok value ∧ Json.decode [0x37] = .ok (.integer 7) ∧
      (value.Every Value.Canonical ∧ value.Every Value.DistinctKeys ∧ value.height ≤ 2 ∧
        ∃ again, MessagePack.encode value = .ok again ∧
          MessagePack.decodeWithin 2 again = .ok value) ∧
      (Value.integer 7).Every Value.Canonical ∧
      ((Value.integer 7).same (.integer 7) = true ↔ (7 : Int) = 7) ∧
      ((Value.integer 7) = .integer 7 ↔ (7 : Int) = 7) := by
  intro bytes value
  have decoded : MessagePack.decodeWithin 2 bytes = .ok value := rfl
  have spelled : Json.decode [0x37] = .ok (.integer 7) := rfl
  obtain ⟨again, canonical, integers⟩ := decoded_values_canonical
  have inside : (Value.integer 7).Inside value :=
    .deeper (.item (List.mem_cons_self ..)) (.entry (List.mem_cons_self ..))
  exact ⟨decoded, spelled, again 2 bytes value decoded, canonical _ _ spelled,
    integers value _ (.messagePack decoded) (.json spelled) _ _ (Or.inr inside) (Or.inl rfl) 7 7
      rfl rfl⟩

end Interchange
