import Interchange.Proofs.Conformance
import Interchange.Proofs.FieldReads
import Interchange.Proofs.ScalarRoundTrip
import Interchange.Proofs.WrittenRecords
/-!
Entities that write what they read. A column is one field of a record with its declaration, its read and
its projection; an entity type is wired if its columns are its declared fields, if it writes each
of them once by the counterpart of its read, and if its reading puts the answers back together.
Main statement: a wired entity is read back from what it was written as, also when a format
gave bytes another form.
-/
namespace Interchange

variable {Entity : Type}

structure Column (schema : Schema Entity) (entity : Entity) where
  spec : FieldSpec Entity
  how : FieldRead Entity
  field : schema.Carrier entity → how.Result schema.Carrier

/-- What a field is written as, by the counterpart of its read. -/
def Schema.content (schema : Schema Entity) :
    (how : FieldRead Entity) → how.Result schema.Carrier → Content
  | .wireKey, key => .leaf (.str key)
  | .lookup, _ => .leaf .null
  | .required type, found => .scalar type found
  | .optional type, found => .optional type found
  | .scalarList type, found => .scalarList type found
  | .enumeration choices, case => .enumeration choices case
  | .optionalEnumeration choices, case => .optionalEnumeration choices case
  | .entity target, carrier => .entity (schema.record target carrier)
  | .optionalEntity target, carrier => .optionalEntity (carrier.map (schema.record target))
  | .list target, carriers => .list (carriers.map (schema.record target))
  | .optionalList target, carriers =>
    (carriers.map fun found => Content.list (found.map (schema.record target))).getD (.leaf .null)
  | .keyed target, carriers =>
    .keyed (carriers.map fun entry => (entry.1, schema.record target entry.2))
  | .optionalKeyed target, carriers =>
    (carriers.map fun found =>
      Content.keyed (found.map fun entry => (entry.1, schema.record target entry.2))).getD
        (.leaf .null)

-- Reads that lose nothing: scalars with a kind of their own, and cases that raw values name.
inductive FieldRead.Recovers : FieldRead Entity → Prop where
  | required {type : ScalarType} (exact : type.isExact = true) : Recovers (.required type)
  | optional {type : ScalarType} (exact : type.isExact = true) : Recovers (.optional type)
  | scalarList {type : ScalarType} (exact : type.isExact = true) : Recovers (.scalarList type)
  | enumeration {choices : Enumeration} (exact : choices.raw.isExact = true)
      (cases : ∀ case, choices.ofRaw? (choices.toRaw case) = some case) :
      Recovers (.enumeration choices)
  | optionalEnumeration {choices : Enumeration} (exact : choices.raw.isExact = true)
      (cases : ∀ case, choices.ofRaw? (choices.toRaw case) = some case) :
      Recovers (.optionalEnumeration choices)
  | entity (target : Entity) : Recovers (.entity target)
  | optionalEntity (target : Entity) : Recovers (.optionalEntity target)
  | list (target : Entity) : Recovers (.list target)
  | optionalList (target : Entity) : Recovers (.optionalList target)
  | keyed (target : Entity) : Recovers (.keyed target)
  | optionalKeyed (target : Entity) : Recovers (.optionalKeyed target)

/-- Answered with the fields of a carrier, a reading ends with that carrier. -/
inductive Reading.Rebuilds {schema : Schema Entity} {entity : Entity}
    (columns : List (Column schema entity)) (carrier : schema.Carrier entity) :
    Reading schema.Carrier (schema.Carrier entity) → Prop where
  | done : Rebuilds columns carrier (.done carrier)
  | read {column : Column schema entity}
      {next : Except Failure (column.how.Result schema.Carrier) →
        Reading schema.Carrier (schema.Carrier entity)}
      (member : column ∈ columns)
      (rest : Rebuilds columns carrier (next (.ok (column.field carrier)))) :
      Rebuilds columns carrier (.read column.spec.name column.how next)

namespace Schema

variable (schema : Schema Entity) (options : Options)
  (columns : (entity : Entity) → List (Column schema entity))

structure Wired (entity : Entity) : Prop where
  declared : ((columns entity).map (·.spec)).Perm (schema.fields entity)
  suits : ∀ column ∈ columns entity, column.spec.Suits column.how
  recovers : ∀ column ∈ columns entity, column.how.Recovers
  apart : ((columns entity).map fun column =>
    wireKey (schema.wireKeys entity) column.spec.name options).Nodup
  writes : ∀ carrier, schema.record entity carrier =
    .mk (schema.name entity) (schema.wireKeys entity)
      ((columns entity).map fun column =>
        (column.spec.name, schema.content column.how (column.field carrier)))
  rebuilds : ∀ carrier, (schema.reading entity).Rebuilds (columns entity) carrier

/-- Every entity type that is reached is wired. -/
def WiredThrough (entity : Entity) : Prop :=
  ∀ member, schema.Reaches entity member → schema.Wired options columns member

variable {schema options columns}

theorem wired_target {entity target : Entity} (wired : schema.WiredThrough options columns entity)
    {column : Column schema entity} (member : column ∈ columns entity)
    (leads : column.spec.shape.target? = some target) :
    schema.WiredThrough options columns target := by
  have declared : column.spec ∈ schema.fields entity :=
    (wired entity (.here entity)).declared.mem_iff.mp (List.mem_map_of_mem member)
  exact fun inner reached => wired inner (.inside declared leads reached)

/-! The records inside a column's content are those of nested carriers. -/
theorem content_holds {how : FieldRead Entity} {shape : Shape Entity}
    (meets : shape.Meets how) (found : how.Result schema.Carrier)
    {record : Record} (holds : (schema.content how found).Holds record) :
    ∃ target carrier, shape.target? = some target ∧ record = schema.record target carrier := by
  cases how with
  | entity target =>
      obtain rfl := meets_opening meets rfl
      cases holds with
      | entity => exact ⟨target, found, rfl, rfl⟩
  | optionalEntity target =>
      obtain rfl := meets_opening meets rfl
      cases found with
      | none => cases holds
      | some carrier =>
          cases holds with
          | entity => exact ⟨target, carrier, rfl, rfl⟩
  | list target =>
      obtain rfl := meets_opening meets rfl
      cases holds with
      | item member =>
          obtain ⟨carrier, -, rfl⟩ := List.mem_map.mp member
          exact ⟨target, carrier, rfl, rfl⟩
  | optionalList target =>
      obtain rfl := meets_opening meets rfl
      cases found with
      | none => cases holds
      | some carriers =>
          cases holds with
          | item member =>
              obtain ⟨carrier, -, rfl⟩ := List.mem_map.mp member
              exact ⟨target, carrier, rfl, rfl⟩
  | keyed target =>
      obtain rfl := meets_opening meets rfl
      cases holds with
      | entry member =>
          obtain ⟨⟨key, carrier⟩, -, same⟩ := List.mem_map.mp member
          obtain ⟨rfl, rfl⟩ := Prod.mk.inj same
          exact ⟨target, carrier, rfl, rfl⟩
  | optionalKeyed target =>
      obtain rfl := meets_opening meets rfl
      cases found with
      | none => cases holds
      | some carriers =>
          cases holds with
          | entry member =>
              obtain ⟨⟨key, carrier⟩, -, same⟩ := List.mem_map.mp member
              obtain ⟨rfl, rfl⟩ := Prod.mk.inj same
              exact ⟨target, carrier, rfl, rfl⟩
  | _ => cases holds

/-- Encoding a wired entity meets no repeated wire key at any depth. -/
theorem record_distinct (record : Record) :
    ∀ entity carrier, record = schema.record entity carrier →
      schema.WiredThrough options columns entity → record.Distinct options := by
  induction record using Record.held_induction with
  | step name keys writes ih =>
      intro entity carrier same wired
      have here := wired entity (.here entity)
      rw [here.writes carrier] at same
      obtain ⟨rfl, rfl, rfl⟩ := Record.mk.inj same
      constructor
      · rw [List.map_map]
        exact here.apart
      · intro write member record holds
        obtain ⟨column, inside, rfl⟩ := List.mem_map.mp member
        obtain ⟨target, nested, leads, rfl⟩ :=
          content_holds (meets_of_suits (here.suits column inside)) (column.field carrier) holds
        exact ih _ member _ holds target nested rfl (wired_target wired inside leads)

section Reading
variable (form : List UInt8 → Value)

/-- A record as a format carries it. -/
def onWire (options : Options) (record : Record) : Value := (record.image options).carried form

theorem on_wire_object (options : Options) (record : Record) :
    ∃ inner, onWire form options record = .object inner := by
  obtain ⟨name, keys, writes⟩ := record
  exact ⟨_, by rw [onWire, Record.image, Value.carried_object]⟩

/-- The entries that a wired entity is written as. -/
def entriesOf (schema : Schema Entity) (options : Options) {entity : Entity}
    (columns : List (Column schema entity)) (carrier : schema.Carrier entity) :
    List (String × Value) :=
  columns.map fun column =>
    (wireKey (schema.wireKeys entity) column.spec.name options,
      ((schema.content column.how (column.field carrier)).image options).carried form)

theorem on_wire_entries {entity : Entity} (wired : schema.Wired options columns entity)
    (carrier : schema.Carrier entity) :
    onWire form options (schema.record entity carrier) =
      .object (schema.entriesOf form options (columns entity) carrier) := by
  rw [onWire, wired.writes carrier, Record.image, Content.image_writes, Value.carried_object,
    List.map_map, List.map_map]
  rfl

theorem stored_column {entity : Entity} (wired : schema.Wired options columns entity)
    (carrier : schema.Carrier entity) {column : Column schema entity}
    (member : column ∈ columns entity) :
    schema.stored? options entity column.spec.name
        (schema.entriesOf form options (columns entity) carrier) =
      some (((schema.content column.how (column.field carrier)).image options).carried form) := by
  apply Value.lookup_of_mem
  · rw [entriesOf, List.map_map]
    exact wired.apart
  · exact List.mem_map_of_mem member

variable {form}

theorem written_present (opened : Value.Opened form) {type : ScalarType}
    (exact : type.isExact = true) (scalar : type.Carrier) :
    ((type.write scalar).carried form).isNull = false := by
  have read := type.read_carried form opened exact scalar
  cases absent : ((type.write scalar).carried form).isNull with
  | false => rfl
  | true =>
      have null : (type.write scalar).carried form = .null := by
        generalize (type.write scalar).carried form = value at absent
        cases value <;> simp_all [Value.isNull]
      have typed : type ≠ .value := by
        rintro rfl
        simp [ScalarType.isExact] at exact
      rw [null, null_unread typed] at read
      contradiction

/-! What is written for a field has the outer kind that its optional read asks for. -/
theorem case_fits (opened : Value.Opened form) {choices : Enumeration}
    (exact : choices.raw.isExact = true) (case : choices.Case) :
    Fields.isPresent ((choices.write case).carried form) = true := by
  rw [Fields.isPresent, Enumeration.write, written_present opened exact, Bool.not_false]

theorem entity_fits (options : Options) (record : Record) :
    Fields.isObject (onWire form options record) = true := by
  obtain ⟨inner, object⟩ := on_wire_object form options record
  rw [object, Fields.isObject]

theorem list_fits (options : Options) (records : List Record) :
    Fields.isArray (((Content.list records).image options).carried form) = true := by
  rw [Content.image, Value.carried_array, Fields.isArray]

theorem keyed_fits (options : Options) (records : List (String × Record)) :
    Fields.isObject (((Content.keyed records).image options).carried form) = true := by
  rw [Content.image, Value.carried_object, Fields.isObject]

section Fields
variable (schema : Schema Entity) (options : Options) (entity : Entity)
  (entries : List (String × Value)) (name : String)

theorem scalar_read (opened : Value.Opened form) {type : ScalarType}
    (exact : type.isExact = true) (scalar : type.Carrier) :
    (schema.fieldsOf options (schema.wireKeys entity) entries).scalar name type
      ((type.write scalar).carried form) = .ok scalar := by
  rw [Fields.scalar, type.read_carried form opened exact scalar]

theorem optional_read (opened : Value.Opened form) {type : ScalarType}
    (exact : type.isExact = true) (found : Option type.Carrier)
    (stored : schema.stored? options entity name entries =
      some (((Content.optional type found).image options).carried form)) :
    (schema.fieldsOf options (schema.wireKeys entity) entries).optional name type = found := by
  have part := Schema.fields_part schema options entity entries name
  rw [stored, Option.map_some] at part
  rw [Fields.optional]
  cases found with
  | none =>
      have looked : (schema.fieldsOf options (schema.wireKeys entity) entries).lookup name =
          .null := by
        rw [Fields.lookup, part]
        rfl
      rw [looked]
  | some scalar =>
      have present := written_present opened exact scalar
      have looked : (schema.fieldsOf options (schema.wireKeys entity) entries).lookup name =
          .present ((type.write scalar).carried form) := by
        rw [Fields.lookup, part]
        simp only [Schema.part_value]
        change (if ((type.write scalar).carried form).isNull then _ else _) = _
        rw [present]
        rfl
      rw [looked]
      exact type.read_carried form opened exact scalar

theorem scalar_list_read (opened : Value.Opened form) {type : ScalarType}
    (exact : type.isExact = true) (found : List type.Carrier) :
    (schema.fieldsOf options (schema.wireKeys entity) entries).scalarList name type
      (((Content.scalarList type found).image options).carried form) = .ok found := by
  have each : ∀ scalar ∈ found,
      (schema.fieldsOf options (schema.wireKeys entity) entries).scalar name type
        ((type.write scalar).carried form) = .ok scalar :=
    fun scalar _ => scalar_read schema options entity entries name opened exact scalar
  simp only [Content.scalarList, Content.image, Value.carried_array, Fields.scalarList,
    List.map_map]
  refine (congrArg (Fields.collectItems name 0 []) (List.map_congr_left each)).trans ?_
  exact Fields.collect_items_all name 0 [] found

theorem case_read (opened : Value.Opened form) {choices : Enumeration}
    (exact : choices.raw.isExact = true)
    (cases : ∀ case, choices.ofRaw? (choices.toRaw case) = some case) (case : choices.Case) :
    (schema.fieldsOf options (schema.wireKeys entity) entries).case name choices
      ((choices.write case).carried form) = .ok case := by
  rw [Fields.case, Enumeration.write, choices.raw.read_carried form opened exact]
  simp only [cases case]

theorem entity_read (target : Entity) (carrier : schema.Carrier target)
    (decoded : schema.decode options target
      (onWire form options (schema.record target carrier)) = .ok carrier) :
    (schema.fieldsOf options (schema.wireKeys entity) entries).entity name target
      (schema.part options (onWire form options (schema.record target carrier))) =
        .ok carrier := by
  obtain ⟨inner, object⟩ := on_wire_object form options (schema.record target carrier)
  rw [object] at decoded ⊢
  rw [Fields.entity, Schema.part_value]
  change Except.mapError _ (schema.decode options target (.object inner)) = _
  rw [decoded]
  rfl

theorem list_read (target : Entity) (carriers : List (schema.Carrier target))
    (decoded : ∀ carrier ∈ carriers, schema.decode options target
      (onWire form options (schema.record target carrier)) = .ok carrier) :
    (schema.fieldsOf options (schema.wireKeys entity) entries).list name target
      (schema.part options
        (((Content.list (carriers.map (schema.record target))).image options).carried form)) =
        .ok carriers := by
  rw [Content.image, Content.image_items, Value.carried_array, Fields.list, Schema.part_value]
  simp only [Schema.part_items, List.map_map]
  refine (congrArg (Fields.collectItems name 0 []) (List.map_congr_left decoded)).trans ?_
  exact Fields.collect_items_all name 0 [] carriers

theorem keyed_read (target : Entity) (carriers : List (String × schema.Carrier target))
    (decoded : ∀ entry ∈ carriers, schema.decode options target
      (onWire form options (schema.record target entry.2)) = .ok entry.2) :
    (schema.fieldsOf options (schema.wireKeys entity) entries).keyed name target
      (schema.part options (((Content.keyed (carriers.map fun entry =>
        (entry.1, schema.record target entry.2))).image options).carried form)) =
        .ok carriers := by
  have each : ∀ entry ∈ carriers,
      (entry.1, schema.decode options target
        (onWire form options (schema.record target entry.2))) = (entry.1, .ok entry.2) :=
    fun entry member => by rw [decoded entry member]
  rw [Content.image, Content.image_keyed, Value.carried_object, Fields.keyed, Schema.part_value]
  simp only [Schema.part_entries, List.map_map]
  refine (congrArg (Fields.collectEntries name []) (List.map_congr_left each)).trans ?_
  exact Fields.collect_entries_all name [] carriers

end Fields

/-- The read of a column gives the field that was written, if the nested records are read back. -/
theorem column_read {entity : Entity} {entries : List (String × Value)} {spec : FieldSpec Entity}
    {how : FieldRead Entity} (opened : Value.Opened form) (suits : spec.Suits how)
    (recovers : how.Recovers) (found : how.Result schema.Carrier)
    (stored : schema.stored? options entity spec.name entries =
      some (((schema.content how found).image options).carried form))
    (nested : ∀ target carrier, spec.shape.target? = some target →
      (schema.content how found).Holds (schema.record target carrier) →
      schema.decode options target (onWire form options (schema.record target carrier)) =
        .ok carrier) :
    (schema.fieldsOf options (schema.wireKeys entity) entries).read spec.name how =
      .ok found := by
  cases recovers with
  | required exact =>
      refine (demand_ok schema options entity entries spec.name _ found).mpr ⟨_, stored, ?_⟩
      rw [Schema.part_value]
      exact scalar_read schema options entity entries spec.name opened exact found
  | optional exact =>
      exact congrArg Except.ok
        (optional_read schema options entity entries spec.name opened exact found stored)
  | scalarList exact =>
      refine (demand_ok schema options entity entries spec.name _ found).mpr ⟨_, stored, ?_⟩
      rw [Schema.part_value]
      exact scalar_list_read schema options entity entries spec.name opened exact found
  | enumeration exact cases =>
      refine (demand_ok schema options entity entries spec.name _ found).mpr ⟨_, stored, ?_⟩
      rw [Schema.part_value]
      exact case_read schema options entity entries spec.name opened exact cases found
  | optionalEnumeration exact cases =>
      cases found with
      | none => exact offer_unfit schema options entity entries spec.name _ _ stored rfl
      | some case =>
          refine offer_found schema options entity entries spec.name _ _ stored
            (case_fits opened exact case) ?_
          rw [Schema.part_value]
          exact case_read schema options entity entries spec.name opened exact cases case
  | entity target =>
      cases suits with
      | entity =>
          refine (demand_ok schema options entity entries _ _ found).mpr ⟨_, stored, ?_⟩
          exact entity_read schema options entity entries _ target found
            (nested target found rfl (.entity _))
  | optionalEntity target =>
      cases suits with
      | optionalEntity =>
          cases found with
          | none => exact offer_unfit schema options entity entries _ _ _ stored rfl
          | some carrier =>
              refine offer_found schema options entity entries _ _ _ stored
                (entity_fits options _) ?_
              exact entity_read schema options entity entries _ target carrier
                (nested target carrier rfl (.entity _))
  | list target =>
      cases suits with
      | list =>
          refine (demand_ok schema options entity entries _ _ found).mpr ⟨_, stored, ?_⟩
          apply list_read
          intro carrier member
          exact nested target carrier rfl (.item (List.mem_map_of_mem member))
  | optionalList target =>
      cases suits with
      | optionalList =>
          cases found with
          | none => exact offer_unfit schema options entity entries _ _ _ stored rfl
          | some carriers =>
              refine offer_found schema options entity entries _ _ _ stored
                (list_fits options _) ?_
              apply list_read
              intro carrier member
              exact nested target carrier rfl (.item (List.mem_map_of_mem member))
  | keyed target =>
      cases suits with
      | keyed =>
          refine (demand_ok schema options entity entries _ _ found).mpr ⟨_, stored, ?_⟩
          apply keyed_read
          intro entry member
          exact nested target entry.2 rfl
            (.entry (List.mem_map_of_mem (f := fun entry => (entry.1, _)) member))
  | optionalKeyed target =>
      cases suits with
      | optionalKeyed =>
          cases found with
          | none => exact offer_unfit schema options entity entries _ _ _ stored rfl
          | some carriers =>
              refine offer_found schema options entity entries _ _ _ stored
                (keyed_fits options _) ?_
              apply keyed_read
              intro entry member
              exact nested target entry.2 rfl
                (.entry (List.mem_map_of_mem (f := fun entry => (entry.1, _)) member))

theorem rebuilds_run {entity : Entity} {columns : List (Column schema entity)}
    {carrier : schema.Carrier entity} (fields : Fields schema.Carrier)
    (answers : ∀ column ∈ columns,
      fields.read column.spec.name column.how = .ok (column.field carrier))
    {reading : Reading schema.Carrier (schema.Carrier entity)}
    (rebuilds : reading.Rebuilds columns carrier) : reading.run fields = .ok carrier := by
  induction rebuilds with
  | done => rfl
  | read member rest ih =>
      rw [Reading.run, answers _ member]
      exact ih

/-- A wired entity is read back from the map it was written as. -/
theorem decode_on_wire (opened : Value.Opened form) (record : Record) :
    ∀ entity carrier, record = schema.record entity carrier →
      schema.WiredThrough options columns entity →
      schema.decode options entity (onWire form options record) = .ok carrier := by
  induction record using Record.held_induction with
  | step name keys writes ih =>
      intro entity carrier same wired
      have here := wired entity (.here entity)
      have written := same.trans (here.writes carrier)
      obtain ⟨rfl, rfl, rfl⟩ := Record.mk.inj written
      rw [same, on_wire_entries form here carrier, Schema.decode_object]
      refine rebuilds_run _ ?_ (here.rebuilds carrier)
      intro column member
      apply column_read opened (here.suits column member) (here.recovers column member)
        (column.field carrier) (stored_column form here carrier member)
      intro target inner leads holds
      exact ih _ (List.mem_map_of_mem member) _ holds target inner rfl
        (wired_target wired member leads)

end Reading

end Schema

end Interchange
