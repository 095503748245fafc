import Interchange.Packing
/-!
Packing and unpacking by format: what is decided before a codec is asked, and what it decides.
-/
namespace Interchange.Codecs

variable (codecs : Codecs) {bytes : List UInt8} {format : ContentType}
  {allowed : List ContentType}

theorem pack_result (value : Value) :
    (codecs.pack value format).1 =
      match Codec.ofFormat? format with
      | none => .error (.unsupported value.kind format)
      | some codec => (codecs.encode codec value).1.mapError .codec := by
  rw [pack]
  cases Codec.ofFormat? format with
  | none => rfl
  | some codec =>
      dsimp only
      rcases codecs.encode codec value with ⟨packed | fault, after⟩ <;> rfl

theorem unpack_unlisted (unlisted : format ∉ allowed) :
    codecs.unpack bytes format allowed = .error (.notAllowed format allowed) := by
  have misses : allowed.contains format = false := by simpa using unlisted
  rw [unpack, misses]
  rfl

theorem unpack_listed (listed : format ∈ allowed) :
    codecs.unpack bytes format allowed =
      match Codec.ofFormat? format with
      | none => .error (.unreadable bytes.length format)
      | some codec =>
        match codec.decode bytes with
        | .ok value => .ok (convention format value)
        | .error fault => .error (.undecodable bytes.length format fault) := by
  have contains : allowed.contains format = true := List.contains_iff_mem.mpr listed
  rw [unpack, contains]
  rfl

end Interchange.Codecs
