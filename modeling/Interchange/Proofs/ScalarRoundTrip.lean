import Interchange.Scalar.ScalarType
import Interchange.Proofs.DataUriRoundTrip
import Interchange.Proofs.ValueParts
/-!
Scalars come back from the values they are written as. A format may give bytes another form on the
way; all that is asked of the form is that readers of bytes open it again.
-/
namespace Interchange

namespace Value

/-! A value with every byte string in the form that a format gives it. -/
section Carried
variable (form : List UInt8 → Value)

mutual
def carried : Value → Value
  | .bytes content => form content
  | .array items => .array (carriedItems items)
  | .object entries => .object (carriedEntries entries)
  | other => other
termination_by structural value => value
def carriedItems : List Value → List Value
  | [] => []
  | item :: rest => carried item :: carriedItems rest
termination_by structural items => items
def carriedEntries : List (String × Value) → List (String × Value)
  | [] => []
  | (key, value) :: rest => (key, carried value) :: carriedEntries rest
termination_by structural entries => entries
end

theorem carried_items (items : List Value) :
    carriedItems form items = items.map (carried form) := by
  induction items with
  | nil => rfl
  | cons item rest ih => rw [carriedItems, ih, List.map_cons]

theorem carried_entries (entries : List (String × Value)) :
    carriedEntries form entries = entries.map fun entry => (entry.1, carried form entry.2) := by
  induction entries with
  | nil => rfl
  | cons entry rest ih =>
      obtain ⟨key, value⟩ := entry
      rw [carriedEntries, ih, List.map_cons]

theorem carried_array (items : List Value) :
    carried form (.array items) = .array (items.map (carried form)) := by
  rw [carried, carried_items]

theorem carried_object (entries : List (String × Value)) :
    carried form (.object entries) =
      .object (entries.map fun entry => (entry.1, carried form entry.2)) := by
  rw [carried, carried_entries]

/-- A form that readers of bytes open. -/
def Opened : Prop := ∀ content, (form content).asBinary? = some content

theorem opened_bytes : Opened .bytes := fun _ => rfl

theorem opened_text : Opened fun content => .str (DataUri.ofBytes content) :=
  DataUri.bytes_of_bytes

end Carried

theorem carried_unchanged (value : Value) : value.carried .bytes = value := by
  induction value using inside_induction with
  | step value ih =>
      cases value with
      | array items =>
          rw [carried_array, List.map_congr_left (fun item member => ih item (.item member)),
            List.map_id']
      | object entries =>
          have each : ∀ entry ∈ entries, (entry.1, entry.2.carried .bytes) = entry :=
            fun entry member => by rw [ih entry.2 (.entry member)]
          rw [carried_object, List.map_congr_left each, List.map_id']
      | _ => rfl

theorem signed_word (number : UInt64) (small : number.toNat < 2 ^ 63) :
    number.toInt64.toInt = number.toNat := by
  have wrapped : number.toInt64.toInt = Int.bmod number.toNat (2 ^ 64) :=
    BitVec.toInt_eq_toNat_bmod number.toBitVec
  rw [wrapped]
  exact Int.bmod_eq_of_le (by omega) (by omega)

end Value

namespace IntegerType

theorem residue_of_bounds (type : IntegerType) (number : Int) (lower : type.least ≤ number)
    (upper : number ≤ type.greatest) : type.residue number = number := by
  obtain ⟨signed, width⟩ := type
  cases signed <;> cases width <;>
    simp [least, greatest, residue, Width.bits, Int.bmod] at * <;> omega

theorem wrap_number (type : IntegerType) (number : type.Number) : type.wrap number.val = number := by
  obtain ⟨amount, lower, upper⟩ := number
  simp only [wrap, residue_of_bounds type amount lower upper]

/-- Signed numbers fit the signed word. -/
theorem signed_bounds (type : IntegerType) (signed : type.signed = true) (number : type.Number) :
    -2 ^ 63 ≤ number.val ∧ number.val < 2 ^ 63 := by
  obtain ⟨amount, lower, upper⟩ := number
  obtain ⟨flag, width⟩ := type
  simp only at signed
  subst signed
  cases width <;> simp [least, greatest, Width.bits] at lower upper ⊢ <;> omega

theorem unsigned_bounds (type : IntegerType) (unsigned : type.signed = false)
    (number : type.Number) : 0 ≤ number.val ∧ number.val < 2 ^ 64 := by
  obtain ⟨amount, lower, upper⟩ := number
  obtain ⟨flag, width⟩ := type
  simp only at unsigned
  subst unsigned
  cases width <;> simp [least, greatest, Width.bits] at lower upper ⊢ <;> omega

end IntegerType

namespace ScalarType

theorem read_unsigned (type : IntegerType) (number : UInt64) :
    readInteger type (.ofUnsigned number) = some (type.wrap number.toNat) := by
  rw [Value.ofUnsigned]
  by_cases small : number.toNat < 2 ^ 63
  · rw [if_pos small, readInteger, Value.signed_word number small]
  · rw [if_neg small, readInteger]

theorem read_integer (type : IntegerType) (number : type.Number) :
    readInteger type (ofInteger number) = some number := by
  rw [ofInteger]
  by_cases signed : type.signed = true
  · obtain ⟨lower, upper⟩ := type.signed_bounds signed number
    have same : (Int64.ofInt number.val).toInt = number.val := by
      rw [Int64.toInt_ofInt_of_le (by simpa using lower) (by simpa using upper)]
    rw [if_pos signed, readInteger, same, type.wrap_number]
  · obtain ⟨lower, upper⟩ := type.unsigned_bounds (by simpa using signed) number
    have same : ((UInt64.ofNat number.val.toNat).toNat : Int) = number.val := by
      rw [UInt64.toNat_ofNat']
      omega
    rw [if_neg signed, read_unsigned, same, type.wrap_number]

-- Types whose values are written in full and in a kind of their own.
def isExact : ScalarType → Bool
  | .value => false
  | .single => false
  | _ => true

theorem read_carried (form : List UInt8 → Value) (opened : Value.Opened form) (type : ScalarType)
    (exact : type.isExact = true) (scalar : type.Carrier) :
    type.read? ((type.write scalar).carried form) = some scalar := by
  cases type with
  | bool => rfl
  | str => rfl
  | bytes => exact opened scalar
  | identifier => rfl
  | value => simp [isExact] at exact
  | integer type =>
      have plain : (ofInteger scalar).carried form = ofInteger scalar := by
        rw [ofInteger, Value.ofUnsigned]
        split
        · rfl
        · split <;> rfl
      rw [write, plain]
      exact read_integer type scalar
  | single => simp [isExact] at exact
  | double => rfl

end ScalarType

end Interchange
