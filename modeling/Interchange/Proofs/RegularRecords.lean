import Interchange.Proofs.EntityColumns
import Interchange.Proofs.NormalizedValues
/-!
What a wired entity is written as is regular: readers of numbers, of arrays and of maps give it back as
it stands.
-/
namespace Interchange

variable {Entity : Type}

-- A node that readers leave as it is and that repeats no key.
def Value.Regular (value : Value) : Prop := value.Settled ∧ value.DistinctKeys

theorem Value.regular_settled {value : Value} (regular : value.Every Regular) :
    value.Every Settled := fun part within => (regular part within).1

theorem Value.regular_distinct {value : Value} (regular : value.Every Regular) :
    value.Every DistinctKeys := fun part within => (regular part within).2

namespace ScalarType

theorem write_scalar {type : ScalarType} (exact : type.isExact = true) (scalar : type.Carrier) :
    (type.write scalar).isContainer = false ∧ (type.write scalar).isNull = false := by
  cases type with
  | value => simp [isExact] at exact
  | integer type =>
      simp only [write, ofInteger, Value.ofUnsigned]
      split
      · exact ⟨rfl, rfl⟩
      · split <;> exact ⟨rfl, rfl⟩
  | _ => exact ⟨rfl, rfl⟩

theorem write_regular {type : ScalarType} (exact : type.isExact = true) (scalar : type.Carrier) :
    (type.write scalar).Every Value.Regular := by
  rw [Value.every_scalar _ _ (write_scalar exact scalar).1]
  cases type with
  | value => simp [isExact] at exact
  | integer type =>
      simp only [write, ofInteger, Value.ofUnsigned]
      split
      · exact ⟨trivial, trivial⟩
      · split
        · exact ⟨trivial, trivial⟩
        · rename_i high
          exact ⟨Nat.not_lt.mp high, trivial⟩
  | _ => exact ⟨trivial, trivial⟩

end ScalarType

namespace Schema

variable {schema : Schema Entity} {options : Options}
  {columns : (entity : Entity) → List (Column schema entity)}

theorem image_present (record : Record) : (record.image options).isNull = false := by
  obtain ⟨name, keys, writes⟩ := record
  rfl

theorem null_regular : Value.null.Every Value.Regular :=
  (Value.every_scalar _ _ rfl).mpr ⟨trivial, trivial⟩

theorem items_regular (items : List Value) (present : ∀ item ∈ items, item.isNull = false)
    (each : ∀ item ∈ items, item.Every Value.Regular) :
    (Value.array items).Every Value.Regular :=
  (Value.every_array _ _).mpr ⟨⟨present, trivial⟩, each⟩

theorem list_regular (records : List Record)
    (each : ∀ record, (Content.list records).Holds record →
      (record.image options).Every Value.Regular) :
    ((Content.list records).image options).Every Value.Regular := by
  rw [Content.image, Content.image_items]
  apply items_regular
  · intro item member
    obtain ⟨record, -, rfl⟩ := List.mem_map.mp member
    exact image_present record
  · intro item member
    obtain ⟨record, held, rfl⟩ := List.mem_map.mp member
    exact each record (.item held)

theorem keyed_regular (records : List (String × Record)) (once : (records.map (·.1)).Nodup)
    (each : ∀ record, (Content.keyed records).Holds record →
      (record.image options).Every Value.Regular) :
    ((Content.keyed records).image options).Every Value.Regular := by
  rw [Content.image, Content.image_keyed, Value.every_object]
  constructor
  · refine ⟨trivial, ?_⟩
    rw [Value.DistinctKeys, List.map_map]
    exact once
  · intro entry member
    obtain ⟨⟨key, record⟩, held, rfl⟩ := List.mem_map.mp member
    exact each record (.entry held)

theorem content_regular {how : FieldRead Entity} (recovers : how.Recovers)
    (found : how.Result schema.Carrier)
    (once : ∀ records, schema.content how found = .keyed records → (records.map (·.1)).Nodup)
    (each : ∀ record, (schema.content how found).Holds record →
      (record.image options).Every Value.Regular) :
    ((schema.content how found).image options).Every Value.Regular := by
  cases recovers with
  | required exact => exact ScalarType.write_regular exact found
  | optional exact =>
      cases found with
      | none => exact null_regular
      | some scalar => exact ScalarType.write_regular exact scalar
  | scalarList exact =>
      apply items_regular
      · intro item member
        obtain ⟨scalar, -, rfl⟩ := List.mem_map.mp member
        exact (ScalarType.write_scalar exact scalar).2
      · intro item member
        obtain ⟨scalar, -, rfl⟩ := List.mem_map.mp member
        exact ScalarType.write_regular exact scalar
  | enumeration exact => exact ScalarType.write_regular exact _
  | optionalEnumeration exact =>
      cases found with
      | none => exact null_regular
      | some case => exact ScalarType.write_regular exact _
  | entity => exact each _ (.entity _)
  | optionalEntity =>
      cases found with
      | none => exact null_regular
      | some carrier => exact each _ (.entity _)
  | list => exact list_regular _ each
  | optionalList =>
      cases found with
      | none => exact null_regular
      | some carriers => exact list_regular _ each
  | keyed => exact keyed_regular _ (once _ rfl) each
  | optionalKeyed =>
      cases found with
      | none => exact null_regular
      | some carriers => exact keyed_regular _ (once _ rfl) each

theorem image_regular (record : Record) :
    ∀ entity carrier, record = schema.record entity carrier →
      schema.WiredThrough options columns entity → record.KeyedOnce →
      (record.image options).Every Value.Regular := by
  induction record using Record.held_induction with
  | step name keys writes ih =>
      intro entity carrier same wired keyed
      have here := wired entity (.here entity)
      rw [here.writes carrier] at same
      obtain ⟨rfl, rfl, rfl⟩ := Record.mk.inj same
      obtain ⟨once, inner⟩ := keyed
      rw [Record.image, Content.image_writes, Value.every_object]
      constructor
      · refine ⟨trivial, ?_⟩
        rw [Value.DistinctKeys, List.map_map, List.map_map]
        exact here.apart
      · intro entry inEntries
        obtain ⟨write, inWrites, rfl⟩ := List.mem_map.mp inEntries
        obtain ⟨column, member, rfl⟩ := List.mem_map.mp inWrites
        apply content_regular (here.recovers column member) _ (once _ inWrites)
        intro record holds
        obtain ⟨target, nested, leads, rfl⟩ :=
          content_holds (meets_of_suits (here.suits column member)) (column.field carrier) holds
        exact ih _ inWrites _ holds target nested rfl (wired_target wired member leads)
          (inner _ inWrites _ holds)

end Schema

end Interchange
