import Interchange.Proofs.Json.WrittenValues
import Interchange.Proofs.MessagePack.RoundTrip
import Interchange.Proofs.PackedBytes
/-!
What can be packed in a format, and what arrives of it. A format without a codec packs nothing;
in the others packing fails on nothing but lengths or on nothing but floats, and all that was
packed is unpacked as long as it does not nest too deep for the reader.
-/
namespace Interchange

namespace Codec

/-- What a codec can write of a value, its parts aside. -/
def Writes : Codec → Value → Prop
  | .messagePack => MessagePack.Sized
  | .json => Json.Finite

/-- How deep containers may nest in what a codec reads. -/
def maxDepth : Codec → Nat
  | .messagePack => MessagePack.maxDepth
  | .json => Json.maxDepth

/-- What a codec reads where a value was written. -/
def read : Codec → Value → Value
  | .messagePack, value => value.normalize
  | .json, value => (value.normalize.carried Json.byteText).refloat Json.reread

theorem encode_map (value : Value) :
    (Codecs.fresh.encode .messagePack value).1 =
      (MessagePack.encode value).mapError .messagePack := by
  rw [Codecs.encode, MessagePack.encode, Codecs.fresh]
  cases (MessagePack.Writer.encode value).run .fresh <;> rfl

theorem map_error_ok {α β γ : Type} {result : Except α γ} {change : α → β} {found : γ} :
    result.mapError change = .ok found ↔ result = .ok found := by
  cases result <;> simp [Except.mapError]

/-- A codec writes just the values whose parts it can write. -/
theorem encode_writes (codec : Codec) (value : Value) :
    (∃ bytes, (Codecs.fresh.encode codec value).1 = .ok bytes) ↔ value.Every codec.Writes := by
  cases codec with
  | messagePack =>
      simp only [encode_map, map_error_ok, MessagePack.encode_ok_iff, exists_and_left,
        exists_eq, and_true]
      rfl
  | json =>
      simp only [Codecs.encode, map_error_ok, Json.encode_ok_iff, exists_and_left, exists_eq,
        and_true]
      rfl

theorem decode_encode {codec : Codec} {value : Value} {bytes : List UInt8}
    (encoded : (Codecs.fresh.encode codec value).1 = .ok bytes)
    (distinct : value.Every Value.DistinctKeys) (shallow : value.height ≤ codec.maxDepth) :
    codec.decode bytes = .ok (codec.read value) := by
  cases codec with
  | messagePack =>
      rw [encode_map, map_error_ok, MessagePack.encode_ok_iff] at encoded
      obtain ⟨sized, rfl⟩ := encoded
      have within : value.height ≤ MessagePack.maxDepth := shallow
      have read := MessagePack.decode_image value sized distinct MessagePack.maxDepth
      rw [if_pos within] at read
      exact map_error_ok.mpr read
  | json =>
      rw [Codecs.encode, map_error_ok, Json.encode_ok_iff] at encoded
      obtain ⟨finite, rfl⟩ := encoded
      exact map_error_ok.mpr (Json.decode_finite value finite distinct shallow)

end Codec

theorem pack_ok_iff {value : Value} {format : ContentType} {bytes : List UInt8} :
    pack value format = .ok bytes ↔ ∃ codec, Codec.ofFormat? format = some codec ∧
      (Codecs.fresh.encode codec value).1 = .ok bytes := by
  rw [pack, Codecs.pack_result]
  cases Codec.ofFormat? format with
  | none => simp
  | some codec => simp [Codec.map_error_ok]

namespace ContentType

/-- How deep containers may nest in what is unpacked; a reserved type unpacks nothing. -/
def maxDepth (format : ContentType) : Nat := ((Codec.ofFormat? format).map Codec.maxDepth).getD 0

/-- What is unpacked where a value was packed. -/
def received (format : ContentType) (value : Value) : Value :=
  Codecs.convention format (((Codec.ofFormat? format).map (Codec.read · value)).getD value)

theorem codec_of_open {format : ContentType} (isOpen : format.isReserved = false) :
    ∃ codec, Codec.ofFormat? format = some codec := by
  cases format with
  | binaryMap => exact ⟨.messagePack, rfl⟩
  | json => exact ⟨.json, rfl⟩
  | xml => contradiction
  | plaintext => contradiction

end ContentType

/-- What was packed in a format is unpacked as it, where the format is allowed. -/
theorem unpack_packed {value : Value} {format : ContentType} {bytes : List UInt8}
    {allowed : List ContentType} (listed : format ∈ allowed) (packed : pack value format = .ok bytes)
    (distinct : value.Every Value.DistinctKeys) (shallow : value.height ≤ format.maxDepth) :
    unpack bytes format allowed = .ok (format.received value) := by
  obtain ⟨codec, known, encoded⟩ := pack_ok_iff.mp packed
  rw [ContentType.maxDepth, known] at shallow
  have decoded := Codec.decode_encode encoded distinct shallow
  rw [unpack, Codecs.unpack_listed _ listed, known, ContentType.received, known]
  simp only [decoded]
  rfl

/-- Deeper than its reader goes, nothing of a binary map is unpacked. -/
theorem unpack_deep {value : Value} {bytes : List UInt8} {allowed : List ContentType}
    (listed : .binaryMap ∈ allowed) (packed : pack value .binaryMap = .ok bytes)
    (distinct : value.Every Value.DistinctKeys) (deep : MessagePack.maxDepth < value.height) :
    unpack bytes .binaryMap allowed = .error
      (.undecodable bytes.length .binaryMap (.messagePack (.tooDeep MessagePack.maxDepth))) := by
  obtain ⟨codec, known, encoded⟩ := pack_ok_iff.mp packed
  obtain rfl : .messagePack = codec := Option.some.inj known
  rw [Codec.encode_map, Codec.map_error_ok, MessagePack.encode_ok_iff] at encoded
  obtain ⟨sized, rfl⟩ := encoded
  have refused := MessagePack.decode_image value sized distinct MessagePack.maxDepth
  rw [if_neg (Nat.not_le_of_gt deep)] at refused
  rw [unpack, Codecs.unpack_listed _ listed, known]
  simp only [Codec.decode, MessagePack.decode, refused, Except.mapError]

/-- A format that is not reserved packs every value without non-finite floats and oversized parts. -/
theorem pack_open {format : ContentType} (isOpen : format.isReserved = false) {value : Value}
    (finite : value.Every Json.Finite) (sized : value.Every MessagePack.Sized) :
    ∃ bytes, pack value format = .ok bytes := by
  obtain ⟨codec, known⟩ := ContentType.codec_of_open isOpen
  have writes : value.Every codec.Writes := by
    cases codec with
    | messagePack => exact sized
    | json => exact finite
  obtain ⟨bytes, encoded⟩ := (Codec.encode_writes codec value).mpr writes
  exact ⟨bytes, pack_ok_iff.mpr ⟨codec, known, encoded⟩⟩

end Interchange
