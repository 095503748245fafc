import Interchange.Endpoint
import Interchange.Proofs.CleanReports
import Interchange.Proofs.Json.WrittenValues
import Interchange.Proofs.MessagePack.RoundTrip
import Interchange.Proofs.PackedBytes
import Interchange.Proofs.RegularRecords
/-!
Entities survive the wire. A wired entity that an endpoint packs is unpacked by the endpoint to the same
entity, in every format that has a codec and under every setting, if the validators accept what
arrives for them.
-/
namespace Interchange

theorem pack_map {value : Value} {bytes : List UInt8}
    (encoded : MessagePack.encode value = .ok bytes) : pack value .binaryMap = .ok bytes := by
  simp only [pack, Codecs.pack, Codec.ofFormat?, Codecs.encode, Codecs.fresh]
  unfold MessagePack.encode at encoded
  generalize (MessagePack.Writer.encode value).run .fresh = written at encoded ⊢
  cases written with
  | ok found writer =>
      cases encoded
      rfl
  | error fault writer => cases encoded

theorem pack_json {value : Value} {bytes : List UInt8} (encoded : Json.encode value = .ok bytes) :
    pack value .json = .ok bytes := by
  simp only [pack, Codecs.pack, Codec.ofFormat?, Codecs.encode, encoded]
  rfl

variable {Entity : Type} [DecidableEq Entity]

namespace Endpoint

variable {endpoint : Endpoint Entity} {schema : Schema Entity}
  {columns : (entity : Entity) → List (Column schema entity)}

/-- Behind the format, a wired entity passes validation and is built. -/
theorem decode_on_wire_form {form : List UInt8 → Value} (opened : Value.Opened form)
    {entity : Entity} (wired : schema.WiredThrough endpoint.options columns entity)
    (carrier : schema.Carrier entity) (locale : String)
    (welcomes : (endpoint.scope locale).Welcomes schema entity
      (Schema.onWire form endpoint.options (schema.record entity carrier))) :
    (endpoint.decode schema entity
      (Schema.onWire form endpoint.options (schema.record entity carrier)) locale).result =
        .ok carrier := by
  have clean := Scope.not_files_on_wire opened _ entity carrier rfl wired welcomes
  have built := Schema.decode_on_wire opened _ entity carrier rfl wired
  obtain ⟨inner, object⟩ :=
    Schema.on_wire_object form endpoint.options (schema.record entity carrier)
  have settings : (endpoint.scope locale).options = endpoint.options := rfl
  rw [settings] at clean
  rw [object] at clean built ⊢
  have empty := Report.isEmpty_of_not_files _
    (Scope.entity_report_wellformed (endpoint.scope locale) schema (.object inner) entity) clean
  rw [decode, validate, Scope.validate_object]
  simp only [empty, ↓reduceIte]
  rw [build, built]

omit [DecidableEq Entity] in
theorem pack_encoded {entity : Entity} {carrier : schema.Carrier entity} {value : Value}
    {format : ContentType} {bytes : List UInt8}
    (encoded : endpoint.encode schema entity carrier = .ok value)
    (packed : Interchange.pack value format = .ok bytes) :
    endpoint.pack schema entity carrier format = .ok bytes := by
  rw [pack, encoded]
  simp only [packed]
  rfl

/-- Bytes of an allowed format are unpacked to what the value they decode to is decoded to. -/
theorem unpack_decoded {bytes : List UInt8} {codec : Codec} {format : ContentType}
    {allowed : List ContentType} {value : Value} (listed : format ∈ allowed)
    (kind : Codec.ofFormat? format = some codec) (decoded : codec.decode bytes = .ok value)
    (entity : Entity) (locale : String) :
    endpoint.unpack schema entity bytes format allowed locale =
      endpoint.decode schema entity (Codecs.convention format value) locale := by
  rw [unpack, Interchange.unpack, Codecs.unpack_listed _ listed, kind]
  simp only [decoded]

/--
Packing a wired entity and unpacking the bytes gives the entity back: as a binary map if all lengths
fit 32 bits, as JSON if all floats are finite and read back from their own text.
-/
theorem unpack_pack (entity : Entity)
    (wired : schema.WiredThrough endpoint.options columns entity)
    (carrier : schema.Carrier entity) (keyed : (schema.record entity carrier).KeyedOnce)
    (allowed : List ContentType) (locale : String) :
    ∃ value, endpoint.encode schema entity carrier = .ok value ∧
      (.binaryMap ∈ allowed → value.Every MessagePack.Sized →
        value.height ≤ MessagePack.maxDepth →
        (endpoint.scope locale).Welcomes schema entity value →
        ∃ bytes, endpoint.pack schema entity carrier .binaryMap = .ok bytes ∧
          (endpoint.unpack schema entity bytes .binaryMap allowed locale).result = .ok carrier) ∧
      (.json ∈ allowed → value.Every Json.Legible → value.height ≤ Json.maxDepth →
        (endpoint.scope locale).Welcomes schema entity (value.carried Json.byteText) →
        ∃ bytes, endpoint.pack schema entity carrier .json = .ok bytes ∧
          (endpoint.unpack schema entity bytes .json allowed locale).result = .ok carrier) := by
  have regular := Schema.image_regular _ entity carrier rfl wired keyed
  have distinct := Value.regular_distinct regular
  have same := Value.normalize_settled _ (Value.regular_settled regular)
  have encoded : endpoint.encode schema entity carrier =
      .ok ((schema.record entity carrier).image endpoint.options) :=
    Record.encode_image _ _ (Schema.record_distinct _ entity carrier rfl wired)
  refine ⟨_, encoded, ?_, ?_⟩
  · intro listed sized shallow welcomes
    have written := MessagePack.encode_sized _ sized
    have read := MessagePack.decode_image _ sized distinct MessagePack.maxDepth
    rw [if_pos shallow, same] at read
    have decoded : Codec.messagePack.decode _ = .ok _ :=
      congrArg (Except.mapError CodecFault.messagePack) read
    have plain := Value.carried_unchanged
      ((schema.record entity carrier).image endpoint.options)
    refine ⟨_, pack_encoded encoded (pack_map written), ?_⟩
    rw [unpack_decoded listed rfl decoded, Codecs.convention, if_pos rfl,
      Value.strip_present _ (Value.settled_present (Value.regular_settled regular))]
    rw [← plain] at welcomes ⊢
    exact decode_on_wire_form Value.opened_bytes wired carrier locale welcomes
  · intro listed legible shallow welcomes
    obtain ⟨written, read⟩ := Json.decode_written _ legible distinct shallow
    rw [same] at read
    have decoded : Codec.json.decode _ = .ok _ := congrArg (Except.mapError CodecFault.json) read
    refine ⟨_, pack_encoded encoded (pack_json written), ?_⟩
    rw [unpack_decoded listed rfl decoded]
    exact decode_on_wire_form Value.opened_text wired carrier locale welcomes

end Endpoint

/-! A family of two entity types on which the round trip is tried. -/
inductive Depot where
  | parcel
  | stamp
  deriving DecidableEq

namespace Depot

structure Stamp where
  cents : IntegerType.Number ⟨false, .half⟩

structure Parcel where
  label : String
  content : List UInt8
  weight : Option Binary64
  stamps : List Stamp

def Carrier : Depot → Type
  | .parcel => Parcel
  | .stamp => Stamp

def keys : Depot → WireKeys
  | .parcel => [("label", "l")]
  | .stamp => []

def reading : (entity : Depot) → Reading Carrier (Carrier entity)
  | .parcel => do
    let label ← Reading.field "label" (.required .str)
    let content ← Reading.field "content" (.required .bytes)
    let weight ← Reading.field "weight" (.optional .double)
    let stamps ← Reading.field "stamps" (.list stamp)
    return ⟨label, content, weight, stamps⟩
  | .stamp => do
    let cents ← Reading.field "cents" (.required (.integer ⟨false, .half⟩))
    return ⟨cents⟩

def stampRecord (stamp : Stamp) : Record :=
  .mk "Stamp" [] [("cents", .scalar (.integer ⟨false, .half⟩) stamp.cents)]

def schema : Schema Depot where
  Carrier := Carrier
  name := fun
    | .parcel => "Parcel"
    | .stamp => "Stamp"
  wireKeys := keys
  fields := fun
    | .parcel =>
      [⟨"label", .str, .required⟩, ⟨"content", .bytes, .required⟩, ⟨"weight", .number, .optional⟩,
        ⟨"stamps", .entityList .stamp, .required⟩]
    | .stamp => [⟨"cents", .number, .required⟩]
  reading := reading
  record := fun
    | .parcel, (written : Parcel) => .mk "Parcel" (keys .parcel)
      [("label", .scalar .str written.label), ("content", .scalar .bytes written.content),
        ("weight", .optional .double written.weight),
        ("stamps", .list (written.stamps.map stampRecord))]
    | .stamp, written => stampRecord written

def columns : (entity : Depot) → List (Column schema entity)
  | .parcel =>
    [⟨⟨"label", .str, .required⟩, .required .str, Parcel.label⟩,
      ⟨⟨"content", .bytes, .required⟩, .required .bytes, Parcel.content⟩,
      ⟨⟨"weight", .number, .optional⟩, .optional .double, Parcel.weight⟩,
      ⟨⟨"stamps", .entityList .stamp, .required⟩, .list .stamp, Parcel.stamps⟩]
  | .stamp => [⟨⟨"cents", .number, .required⟩, .required (.integer ⟨false, .half⟩), Stamp.cents⟩]

theorem wired (options : Options) (entity : Depot) : schema.Wired options columns entity := by
  cases entity with
  | parcel =>
      constructor
      · exact List.Perm.refl _
      · simp only [columns, List.forall_mem_cons]
        exact ⟨.required .str, .required .bytes, .optional .double, .list "stamps" stamp, by simp⟩
      · simp only [columns, List.forall_mem_cons]
        exact ⟨.required rfl, .required rfl, .optional rfl, .list stamp, by simp⟩
      · obtain ⟨remap⟩ := options
        cases remap <;> decide
      · intro written
        rfl
      · intro written
        refine .read (List.Mem.head _) ?_
        refine .read (.tail _ (List.Mem.head _)) ?_
        refine .read (.tail _ (.tail _ (List.Mem.head _))) ?_
        refine .read (.tail _ (.tail _ (.tail _ (List.Mem.head _)))) ?_
        exact .done
  | stamp =>
      constructor
      · exact List.Perm.refl _
      · simp only [columns, List.forall_mem_cons]
        exact ⟨.required (.integer _), by simp⟩
      · simp only [columns, List.forall_mem_cons]
        exact ⟨.required rfl, by simp⟩
      · exact List.pairwise_singleton _ _
      · intro written
        rfl
      · intro written
        exact .read (List.Mem.head _) .done

-- Labels may not be empty; nothing else is asked.
def endpoint : Endpoint Depot where
  options := ⟨true⟩
  registry := ⟨[(parcel, [("label", fun value => ⟨0, if value.isNull then some "empty" else none⟩)])]⟩
  accept := [.binaryMap, .json]
  respondWith := .json
  locale := "en"

def tea : Parcel :=
  ⟨"tea", [0, 255], some ⟨0x3FF8000000000000⟩, [⟨80, by decide, by decide⟩]⟩

theorem label_welcomed (entries : List (String × Value)) (label : String)
    (found : entries.lookup "l" = some (.str label)) (locale : String) :
    (endpoint.scope locale).Welcomes schema parcel (.object entries) := by
  intro steps owner inner visit spec declared stored held looked check asked
  have validated : owner = parcel ∧ spec.name = "label" ∧
      check = fun value => ⟨0, if value.isNull then some "empty" else none⟩ := by
    simp only [Endpoint.scope, endpoint, Registry.get?, List.lookup_cons, List.lookup_nil] at asked
    split at asked
    · rename_i own
      simp only [Option.bind_some, List.lookup_cons, List.lookup_nil] at asked
      split at asked
      · rename_i same
        exact ⟨eq_of_beq own, eq_of_beq same, (Option.some.inj asked).symm⟩
      · contradiction
    · contradiction
  obtain ⟨rfl, name, rfl⟩ := validated
  cases visit with
  | here =>
      rw [name] at held
      obtain rfl := Option.some.inj (found.symm.trans held)
      rfl
  | inside field _ opens rest =>
      have leads := Shape.opens_target opens
      simp only [schema, List.mem_cons, List.not_mem_nil, or_false] at field
      rcases field with rfl | rfl | rfl | rfl <;> cases leads
      cases rest with
      | inside cents _ deeper _ =>
          obtain rfl := List.mem_singleton.mp cents
          cases deeper

def teaParts : List Value :=
  [.str "tea", .bytes [0, 255], .float ⟨0x3FF8000000000000⟩, .integer 80]

def teaValue : Value :=
  .object [("l", .str "tea"), ("content", .bytes [0, 255]),
    ("weight", .float ⟨0x3FF8000000000000⟩), ("stamps", .array [.object [("cents", .integer 80)]])]

theorem tea_image : endpoint.encode schema parcel tea = .ok teaValue := rfl

theorem tea_every (holds : Value → Prop) (leaves : ∀ leaf ∈ teaParts, holds leaf)
    (stamp : holds (.object [("cents", .integer 80)]))
    (stamps : holds (.array [.object [("cents", .integer 80)]])) (whole : holds teaValue) :
    teaValue.Every holds := by
  simp only [teaParts, List.forall_mem_cons] at leaves
  obtain ⟨label, content, weight, cents, -⟩ := leaves
  refine (Value.every_object _ _).mpr ⟨whole, ?_⟩
  simp only [List.forall_mem_cons]
  refine ⟨(Value.every_scalar _ _ rfl).mpr label, (Value.every_scalar _ _ rfl).mpr content,
    (Value.every_scalar _ _ rfl).mpr weight, (Value.every_array _ _).mpr ⟨stamps, ?_⟩, by simp⟩
  simp only [List.forall_mem_cons]
  refine ⟨(Value.every_object _ _).mpr ⟨stamp, ?_⟩, by simp⟩
  simp only [List.forall_mem_cons]
  exact ⟨(Value.every_scalar _ _ rfl).mpr cents, by simp⟩

theorem stamp_keyed (written : Stamp) : (stampRecord written).KeyedOnce := by
  constructor
  · intro write member records keyed
    obtain rfl := List.mem_singleton.mp member
    contradiction
  · intro write member record holds
    obtain rfl := List.mem_singleton.mp member
    cases holds

theorem parcel_keyed (written : Parcel) : (schema.record parcel written).KeyedOnce := by
  constructor
  · simp only [List.forall_mem_cons]
    refine ⟨?_, ?_, ?_, ?_, by simp⟩ <;> · intro records keyed; cases keyed
  · simp only [List.forall_mem_cons]
    refine ⟨?_, ?_, ?_, ?_, by simp⟩
    · intro record holds
      cases holds
    · intro record holds
      cases holds
    · intro record holds
      cases holds
    · intro record holds
      cases holds with
      | item member =>
          obtain ⟨written, -, rfl⟩ := List.mem_map.mp member
          exact stamp_keyed written

/-- A parcel with bytes, a fraction and a stamp, under remapped keys and a validator, comes back in
both formats. -/
theorem tea_unpacked :
    (∃ bytes, endpoint.pack schema parcel tea .binaryMap = .ok bytes ∧
      (endpoint.unpack schema parcel bytes .binaryMap [.binaryMap] "").result = .ok tea) ∧
    (∃ bytes, endpoint.pack schema parcel tea .json = .ok bytes ∧
      (endpoint.unpack schema parcel bytes .json [.json] "").result = .ok tea) := by
  have through : schema.WiredThrough endpoint.options columns parcel :=
    fun member _ => wired endpoint.options member
  have keyed := parcel_keyed tea
  obtain ⟨value, encoded, map, -⟩ :=
    Endpoint.unpack_pack parcel through tea keyed [.binaryMap] ""
  obtain ⟨other, encodedToo, -, json⟩ := Endpoint.unpack_pack parcel through tea keyed [.json] ""
  obtain rfl := Except.ok.inj (tea_image.symm.trans encoded)
  obtain rfl := Except.ok.inj (tea_image.symm.trans encodedToo)
  constructor
  · have sized : teaValue.Every MessagePack.Sized :=
      tea_every _ (by decide) (by decide) (by decide) (by decide)
    exact map (by decide) sized (by decide) (label_welcomed _ "tea" rfl "")
  · have legible : teaValue.Every Json.Legible := by
      refine tea_every _ ?_ trivial trivial trivial
      simp only [teaParts, List.forall_mem_cons]
      exact ⟨trivial, trivial, ⟨rfl, rfl⟩, trivial, by simp⟩
    exact json (by decide) legible (by decide) (label_welcomed _ "tea" rfl "")

end Depot
end Interchange
