import Interchange.Json.Codec
import Interchange.Proofs.Json.RoundTrip
import Interchange.Proofs.NormalizedValues
import Interchange.Proofs.ScalarRoundTrip
/-!
The document that a value is written as, for every value. It is the one the encoder gives where all floats
are finite, and not where one is not. Read as a value it is the normal form with bytes as data
URIs and with floats reread.
-/
namespace Interchange

/-! A value with every float changed alike. -/
namespace Value

variable (change : Binary64 → Binary64)

def refloatStep : Value → Parts Value → Value
  | .float number, _ => .float (change number)
  | _, .items results => .array results
  | _, .entries results => .object results
  | value, .none => value

def refloat : Value → Value := fold (refloatStep change)

theorem refloat_array (items : List Value) :
    refloat change (.array items) = .array (items.map (refloat change)) := fold_array _ items

theorem refloat_object (entries : List (String × Value)) :
    refloat change (.object entries) =
      .object (entries.map fun entry => (entry.1, refloat change entry.2)) := fold_object _ entries

end Value

namespace Json

-- What bytes are written as.
def byteText (content : List UInt8) : Value := .str (DataUri.ofBytes content)

-- Floats have a JSON form.
def Finite : Value → Prop
  | .float number => number.isFinite
  | _ => True

instance : DecidablePred Finite
  | .float number => inferInstanceAs (Decidable (number.isFinite = true))
  | .null | .bool _ | .integer _ | .unsigned _ | .str _ | .bytes _ | .array _ | .object _ =>
    .isTrue trivial

-- Floats have a JSON form that is read back.
def Legible : Value → Prop
  | .float number => number.isFinite ∧ ReadsBack number
  | _ => True

namespace Tree

mutual
def written : Value → Tree
  | .null => .null
  | .bool flag => .bool flag
  | .integer signed => .number (.ofSigned signed)
  | .unsigned natural => .number (.natural natural)
  | .float float => .number (.float float)
  | .str text => .str text
  | .bytes content => .str (DataUri.ofBytes content)
  | .array items => .array (writtenItems items)
  | .object entries => .object (writtenEntries entries)
termination_by structural value => value
def writtenItems : List Value → List Tree
  | [] => []
  | item :: rest => written item :: writtenItems rest
termination_by structural items => items
def writtenEntries : List (String × Value) → List (String × Tree)
  | [] => []
  | (key, value) :: rest => (key, written value) :: writtenEntries rest
termination_by structural entries => entries
end

theorem written_items (items : List Value) : writtenItems items = items.map written := by
  induction items with
  | nil => rfl
  | cons item rest ih => rw [writtenItems, ih, List.map_cons]

theorem written_entries (entries : List (String × Value)) :
    writtenEntries entries = entries.map fun entry => (entry.1, written entry.2) := by
  induction entries with
  | nil => rfl
  | cons entry rest ih =>
      obtain ⟨key, value⟩ := entry
      rw [writtenEntries, ih, List.map_cons]

theorem of_items (items : List Value) (done : List Tree)
    (each : ∀ item ∈ items, ofValue item = .ok (written item)) :
    ofItems done items = .ok (done.reverse ++ items.map written) := by
  induction items generalizing done with
  | nil => simp [ofItems]
  | cons item rest ih =>
      obtain ⟨head, tail⟩ := List.forall_mem_cons.mp each
      simp only [ofItems, head]
      rw [ih _ tail, List.reverse_cons, List.append_assoc]
      rfl

theorem of_entries (entries : List (String × Value)) (done : List (String × Tree))
    (each : ∀ entry ∈ entries, ofValue entry.2 = .ok (written entry.2)) :
    ofEntries done entries =
      .ok (done.reverse ++ entries.map fun entry => (entry.1, written entry.2)) := by
  induction entries generalizing done with
  | nil => simp [ofEntries]
  | cons entry rest ih =>
      obtain ⟨key, value⟩ := entry
      obtain ⟨head, tail⟩ := List.forall_mem_cons.mp each
      simp only [ofEntries, head]
      rw [ih _ tail, List.reverse_cons, List.append_assoc]
      rfl

theorem of_finite (value : Value) : value.Every Finite → ofValue value = .ok (written value) := by
  induction value using Value.inside_induction with
  | step value ih =>
      intro finite
      cases value with
      | float number =>
          have here : number.isFinite = true := Value.every_here finite
          rw [ofValue, if_pos here, written]
      | array items =>
          rw [ofValue, of_items items [] fun item member =>
            ih item (.item member) (Value.every_item finite member), written, written_items]
          rfl
      | object entries =>
          rw [ofValue, of_entries entries [] fun entry member =>
            ih entry.2 (.entry member) (Value.every_entry finite member), written, written_entries]
          rfl
      | _ => rfl

theorem items_convert {items : List Value} {done trees : List Tree}
    (converted : ofItems done items = .ok trees) :
    ∀ item ∈ items, ∃ tree, ofValue item = .ok tree := by
  induction items generalizing done with
  | nil => exact List.forall_mem_nil _
  | cons item rest ih =>
      rw [ofItems] at converted
      cases head : ofValue item with
      | error float =>
          rw [head] at converted
          contradiction
      | ok tree =>
          rw [head] at converted
          exact List.forall_mem_cons.mpr ⟨⟨tree, head⟩, ih converted⟩

theorem entries_convert {entries : List (String × Value)} {done trees : List (String × Tree)}
    (converted : ofEntries done entries = .ok trees) :
    ∀ entry ∈ entries, ∃ tree, ofValue entry.2 = .ok tree := by
  induction entries generalizing done with
  | nil => exact List.forall_mem_nil _
  | cons entry rest ih =>
      obtain ⟨key, item⟩ := entry
      rw [ofEntries] at converted
      cases head : ofValue item with
      | error float =>
          rw [head] at converted
          contradiction
      | ok tree =>
          rw [head] at converted
          exact List.forall_mem_cons.mpr ⟨⟨tree, head⟩, ih converted⟩

/-- What has a document has finite floats only. -/
theorem finite_of (value : Value) : ∀ tree, ofValue value = .ok tree → value.Every Finite := by
  induction value using Value.inside_induction with
  | step value ih =>
      intro tree converted
      cases value with
      | float number =>
          refine (Value.every_scalar _ _ rfl).mpr ?_
          by_contra infinite
          have other : ¬ number.isFinite = true := infinite
          rw [ofValue, if_neg other] at converted
          contradiction
      | array items =>
          refine (Value.every_array _ _).mpr ⟨trivial, fun item member => ?_⟩
          cases parts : ofItems [] items with
          | error float =>
              rw [ofValue, parts] at converted
              contradiction
          | ok trees =>
              obtain ⟨part, found⟩ := items_convert parts item member
              exact ih item (.item member) part found
      | object entries =>
          refine (Value.every_object _ _).mpr ⟨trivial, fun entry member => ?_⟩
          cases parts : ofEntries [] entries with
          | error float =>
              rw [ofValue, parts] at converted
              contradiction
          | ok trees =>
              obtain ⟨part, found⟩ := entries_convert parts entry member
              exact ih entry.2 (.entry member) part found
      | _ => exact (Value.every_scalar _ _ rfl).mpr trivial

theorem to_items (items : List Tree) (done : List Value) :
    toItems done items = done.reverse ++ items.map toValue := by
  induction items generalizing done with
  | nil => simp [toItems]
  | cons item rest ih =>
      rw [toItems, ih, List.reverse_cons, List.append_assoc]
      rfl

theorem to_entries (entries : List (String × Tree)) (done : List (String × Value)) :
    toEntries done entries =
      done.reverse ++ entries.map fun entry => (entry.1, toValue entry.2) := by
  induction entries generalizing done with
  | nil => simp [toEntries]
  | cons entry rest ih =>
      obtain ⟨key, content⟩ := entry
      rw [toEntries, ih, List.reverse_cons, List.append_assoc]
      rfl

theorem signed_value (number : Int64) : (Number.ofSigned number).toValue = .integer number := by
  rw [Number.ofSigned]
  by_cases natural : 0 ≤ number.toInt
  · have wrapped : number.toInt = Int.bmod number.toUInt64.toNat (2 ^ 64) :=
      BitVec.toInt_eq_toNat_bmod number.toBitVec
    have below := number.toUInt64.toNat_lt
    have small : number.toUInt64.toNat < 2 ^ 63 := by
      rw [Int.bmod] at wrapped
      omega
    rw [if_pos natural, Number.toValue, Value.ofUnsigned, if_pos small, Int64.toInt64_toUInt64]
  · rw [if_neg natural]
    rfl

theorem written_value (value : Value) : (written value).toValue = value.normalize.carried byteText := by
  induction value using Value.inside_induction with
  | step value ih =>
      cases value with
      | integer number => exact signed_value number
      | unsigned number =>
          rw [written, toValue, Number.toValue, Value.normalize, Value.ofUnsigned]
          split <;> rfl
      | array items =>
          have each : ∀ item ∈ items, (written item).toValue = item.normalize.carried byteText :=
            fun item member => ih item (.item member)
          rw [written, written_items, toValue, to_items, Value.normalize, Value.normalize_items,
            Value.carried_array, List.map_map, List.map_map]
          exact congrArg Value.array (List.map_congr_left each)
      | object entries =>
          have each : ∀ entry ∈ entries, (entry.1, (written entry.2).toValue) =
              (entry.1, entry.2.normalize.carried byteText) :=
            fun entry member => by rw [ih entry.2 (.entry member)]
          rw [written, written_entries, toValue, to_entries, Value.normalize,
            Value.normalize_entries, Value.carried_object, List.map_map, List.map_map]
          exact congrArg Value.object (List.map_congr_left each)
      | _ => rfl

theorem signed_proper (number : Int64) : (Number.ofSigned number).Proper := by
  rw [Number.ofSigned]
  by_cases natural : 0 ≤ number.toInt
  · rw [if_pos natural]
    exact .natural _
  · rw [if_neg natural]
    exact .negative (by omega)

theorem written_readable (value : Value) :
    value.Every Finite → value.Every Value.DistinctKeys →
      ∀ budget, value.height ≤ budget → (written value).Readable budget := by
  induction value using Value.inside_induction with
  | step value ih =>
      intro finite distinct budget shallow
      cases value with
      | null => exact .null
      | bool flag => exact .bool flag
      | integer number => exact .number (signed_proper number)
      | unsigned number => exact .number (.natural number)
      | float number => exact .number (.float (Value.every_here finite))
      | str text => exact .str text
      | bytes content => exact .str _
      | array items =>
          obtain ⟨smaller, rfl⟩ := Nat.exists_eq_succ_of_ne_zero (Nat.ne_zero_of_lt shallow)
          have inner := (Value.height_items items smaller).mp (Nat.le_of_succ_le_succ shallow)
          rw [written, written_items]
          refine .array ?_
          intro part member
          obtain ⟨item, held, rfl⟩ := List.mem_map.mp member
          exact ih item (.item held) (Value.every_item finite held)
            (Value.every_item distinct held) smaller (inner item held)
      | object entries =>
          obtain ⟨smaller, rfl⟩ := Nat.exists_eq_succ_of_ne_zero (Nat.ne_zero_of_lt shallow)
          have inner := (Value.height_entries entries smaller).mp (Nat.le_of_succ_le_succ shallow)
          have keys := Value.every_here distinct
          rw [written, written_entries]
          refine .object ?_ ?_
          · rw [List.map_map]
            exact keys
          · intro part member
            obtain ⟨entry, held, rfl⟩ := List.mem_map.mp member
            exact ih entry.2 (.entry held) (Value.every_entry finite held)
              (Value.every_entry distinct held) smaller (inner entry held)

theorem number_reread (content : Number) :
    content.reread.toValue = content.toValue.refloat Json.reread := by
  cases content with
  | natural number =>
      change (Number.natural number).toValue = _
      rw [Number.toValue, Value.ofUnsigned]
      split <;> rfl
  | negative number => rfl
  | float number => rfl

theorem reread_value (tree : Tree) : tree.reread.toValue = tree.toValue.refloat Json.reread := by
  induction tree using part_induction with
  | step tree ih =>
      cases tree with
      | number content => exact number_reread content
      | array items =>
          have each : ∀ item ∈ items, item.reread.toValue = item.toValue.refloat Json.reread :=
            fun item member => ih item (.item member)
          rw [reread_array, toValue, to_items, toValue, to_items, List.reverse_nil,
            List.nil_append, List.nil_append, Value.refloat_array, List.map_map, List.map_map]
          exact congrArg Value.array (List.map_congr_left each)
      | object entries =>
          have each : ∀ entry ∈ entries, (entry.1, entry.2.reread.toValue) =
              (entry.1, entry.2.toValue.refloat Json.reread) :=
            fun entry member => by rw [ih entry.2 (.entry member)]
          rw [reread_object, toValue, to_entries, toValue, to_entries, List.reverse_nil,
            List.nil_append, List.nil_append, Value.refloat_object, List.map_map, List.map_map]
          exact congrArg Value.object (List.map_congr_left each)
      | _ => rfl

end Tree

/-- A value is written just if its floats are finite. -/
theorem encode_ok_iff (value : Value) (text : List UInt8) :
    encode value = .ok text ↔ value.Every Finite ∧ text = (Tree.written value).bytes := by
  constructor
  · intro encoded
    cases converted : Tree.ofValue value with
    | error float =>
        rw [encode, converted] at encoded
        contradiction
    | ok tree =>
        have finite := Tree.finite_of value tree converted
        rw [encode, Tree.of_finite value finite] at encoded
        exact ⟨finite, (Except.ok.inj encoded).symm⟩
  · rintro ⟨finite, rfl⟩
    rw [encode, Tree.of_finite value finite]

/-- What is written is read, in its normal form and with its floats reread. -/
theorem decode_finite (value : Value) (finite : value.Every Finite)
    (distinct : value.Every Value.DistinctKeys) (shallow : value.height ≤ maxDepth) :
    decode (Tree.written value).bytes =
      .ok ((value.normalize.carried byteText).refloat reread) := by
  rw [decode, parse_bytes _ (Tree.written_readable value finite distinct maxDepth shallow)]
  exact congrArg Except.ok ((Tree.reread_value _).trans
    (congrArg (Value.refloat reread) (Tree.written_value value)))

theorem legible_finite {value : Value} (legible : value.Every Legible) : value.Every Finite := by
  intro part within
  have here := legible part within
  cases part with
  | float number => exact here.1
  | _ => trivial

theorem carried_legible (value : Value) :
    value.Every Legible →
      (value.normalize.carried byteText).refloat reread = value.normalize.carried byteText := by
  induction value using Value.inside_induction with
  | step value ih =>
      intro legible
      cases value with
      | unsigned number =>
          rw [Value.normalize, Value.ofUnsigned]
          split <;> rfl
      | float number => exact congrArg Value.float (reads_back (Value.every_here legible).2)
      | array items =>
          have each : ∀ item ∈ items, (item.normalize.carried byteText).refloat reread =
              item.normalize.carried byteText :=
            fun item member => ih item (.item member) (Value.every_item legible member)
          rw [Value.normalize, Value.normalize_items, Value.carried_array, Value.refloat_array,
            List.map_map, List.map_map, List.map_map]
          exact congrArg Value.array (List.map_congr_left each)
      | object entries =>
          have each : ∀ entry ∈ entries,
              (entry.1, (entry.2.normalize.carried byteText).refloat reread) =
                (entry.1, entry.2.normalize.carried byteText) :=
            fun entry member => by rw [ih entry.2 (.entry member) (Value.every_entry legible member)]
          rw [Value.normalize, Value.normalize_entries, Value.carried_object,
            Value.refloat_object, List.map_map, List.map_map, List.map_map]
          exact congrArg Value.object (List.map_congr_left each)
      | _ => rfl

/-- Values whose floats are read back are written, and read back in their normal form. -/
theorem decode_written (value : Value) (legible : value.Every Legible)
    (distinct : value.Every Value.DistinctKeys) (shallow : value.height ≤ maxDepth) :
    encode value = .ok (Tree.written value).bytes ∧
      decode (Tree.written value).bytes = .ok (value.normalize.carried byteText) := by
  have finite := legible_finite legible
  constructor
  · exact (encode_ok_iff value _).mpr ⟨finite, rfl⟩
  · rw [decode_finite value finite distinct shallow, carried_legible value legible]

end Json

end Interchange
