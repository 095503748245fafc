import Interchange.Proofs.FailureCulprits
import Interchange.Proofs.KeylessReports
/-!
Remapping changes the keys of entities and nothing else. Reads of a renamed map under wire keys
answer as reads of the map under names, failures told apart by their wire keys at most, and
a reading that takes failures as they are then ends alike. Main statement: for entities that write
and read each field as it is declared, under wire keys that are told apart, encoding, validation and
building with remapping are those without, up to the renaming and the wire keys that are reported.
-/
namespace Interchange

variable {Entity : Type}

/-! Failures without their wire keys. -/
namespace Failure

def keyless : Failure → Failure
  | .field fault => .field { fault with wireKey := "" }
  | .nested name position source => .nested name position source.keyless
  | other => other

/-- The path of a failure and its descriptor without the wire key. -/
def keylessError (locale : String) (failure : Failure) : Option (String × Descriptor) :=
  (failure.fieldError locale).map fun error => (error.1, error.2.keyless)

theorem keyless_error_nested (name : String) (position : Option Position) (source : Failure)
    (locale : String) :
    (Failure.nested name position source).keylessError locale =
      some (match source.keylessError locale with
        | some error => (joinPath (Step.text ⟨name, position⟩) error.1, error.2)
        | none => (Step.text ⟨name, position⟩, ⟨.incompatible, none, "", none, locale⟩)) := by
  simp only [keylessError, fieldError]
  cases source.fieldError locale with
  | none => rfl
  | some error => rfl

/-- Failures that are equal but for wire keys are described alike. -/
theorem keyless_error (failure : Failure) (locale : String) :
    failure.keyless.keylessError locale = failure.keylessError locale := by
  induction failure with
  | nested name position source ih => rw [keyless, keyless_error_nested, keyless_error_nested, ih]
  | _ => rfl

end Failure

/-- Results that are equal, or failures that are equal but for their wire keys. -/
inductive Agree {α : Type} : Except Failure α → Except Failure α → Prop where
  | ok (found : α) : Agree (.ok found) (.ok found)
  | error {left right : Failure} (same : left.keyless = right.keyless) :
      Agree (.error left) (.error right)

namespace Agree
variable {α β : Type} {left right : Except Failure α}

theorem map (agree : Agree left right) (change : α → β) :
    Agree (left.map change) (right.map change) := by
  cases agree with
  | ok found => exact .ok _
  | error same => exact .error same

theorem nested (agree : Agree left right) (name : String) (position : Option Position) :
    Agree (left.mapError (.nested name position)) (right.mapError (.nested name position)) := by
  cases agree with
  | ok found => exact .ok found
  | error same => exact .error (by rw [Failure.keyless, Failure.keyless, same])

end Agree

namespace Fields
variable {α : Type}

theorem collect_items_agree (name : String) {left right : List (Except Failure α)}
    (each : List.Forall₂ Agree left right) (index : Nat) (done : List α) :
    Agree (collectItems name index done left) (collectItems name index done right) := by
  induction each generalizing index done with
  | nil => exact .ok _
  | cons first _ ih =>
      cases first with
      | ok found => exact ih _ _
      | error same => exact .error (by rw [Failure.keyless, Failure.keyless, same])

theorem collect_entries_agree (name : String) {left right : List (String × Except Failure α)}
    (each : List.Forall₂ (fun one other => one.1 = other.1 ∧ Agree one.2 other.2) left right)
    (done : List (String × α)) :
    Agree (collectEntries name done left) (collectEntries name done right) := by
  induction each generalizing done with
  | nil => exact .ok _
  | @cons one other _ _ first _ ih =>
      obtain ⟨key, result⟩ := one
      obtain ⟨keyToo, resultToo⟩ := other
      obtain ⟨rfl, first⟩ := first
      cases first with
      | ok found => exact ih _
      | error same => exact .error (by rw [Failure.keyless, Failure.keyless, same])

end Fields

/-- Readings that make the same reads of declared fields, each by a read that matches the field's
shape, and go on alike after answers that agree. -/
inductive Reading.Alike {Carrier : Entity → Type} {α : Type}
    (declared : List (FieldSpec Entity)) : Reading Carrier α → Reading Carrier α → Prop where
  | done (result : α) : Alike declared (.done result) (.done result)
  | fail {left right : Failure} (same : left.keyless = right.keyless) :
      Alike declared (.fail left) (.fail right)
  | read {spec : FieldSpec Entity} {how : FieldRead Entity}
      {left right : Except Failure (how.Result Carrier) → Reading Carrier α}
      (member : spec ∈ declared) (meets : spec.shape.Meets how)
      (next : ∀ one other, Agree one other → Alike declared (left one) (right other)) :
      Alike declared (.read spec.name how left) (.read spec.name how right)

/-- A reading of declared fields that treats failures alike whatever wire keys they name. -/
def Reading.ReadsFields {Carrier : Entity → Type} {α : Type} (declared : List (FieldSpec Entity))
    (reading : Reading Carrier α) : Prop :=
  reading.Alike declared reading

theorem alike_run {Carrier : Entity → Type} {α : Type} {declared : List (FieldSpec Entity)}
    {left right : Reading Carrier α} (alike : left.Alike declared right)
    (fields others : Fields Carrier)
    (agree : ∀ spec ∈ declared, ∀ how, spec.shape.Meets how →
      Agree (fields.read spec.name how) (others.read spec.name how)) :
    Agree (left.run fields) (right.run others) := by
  induction alike with
  | done result => exact .ok result
  | fail same => exact .error same
  | read member meets next ih => exact ih _ _ (agree _ member _ meets)

/-- Fields that are read one after the other, until the first failure. -/
theorem reads_field {Carrier : Entity → Type} {α : Type} {declared : List (FieldSpec Entity)}
    {spec : FieldSpec Entity} {how : FieldRead Entity}
    {follow : how.Result Carrier → Reading Carrier α} (member : spec ∈ declared)
    (meets : spec.shape.Meets how) (rest : ∀ found, (follow found).ReadsFields declared) :
    ((Reading.field spec.name how).bind follow).ReadsFields declared := by
  refine .read member meets ?_
  intro one other agree
  cases agree with
  | ok found => exact rest found
  | error same => exact .fail same

/-! Reads of two maps of which one has the renaming of what the other has. -/
section Reads
variable {schema : Schema Entity} {owner : Entity} {on off : List (String × Value)}
  {name : String} {shape : Shape Entity}

/-- The fields of a map, under wire keys or under names. -/
abbrev remappedFields (schema : Schema Entity) (owner : Entity) (remap : Bool)
    (entries : List (String × Value)) : Fields schema.Carrier :=
  schema.fieldsOf ⟨remap⟩ (schema.wireKeys owner) entries

variable (moved : schema.stored? ⟨true⟩ owner name on =
  (schema.stored? ⟨false⟩ owner name off).map (schema.renamed shape))

include moved in
theorem lookup_flat (closed : shape.target? = none) :
    (remappedFields schema owner true on).lookup name =
      (remappedFields schema owner false off).lookup name := by
  rw [Fields.lookup, Fields.lookup, Schema.fields_part, Schema.fields_part, moved]
  cases schema.stored? ⟨false⟩ owner name off with
  | none => rfl
  | some stored =>
      simp only [Option.map_some, Schema.part_value, schema.renamed_flat closed]

include moved in
theorem demand_agree {α : Type} {read readToo : Part schema.Carrier → Except Failure α}
    (each : ∀ stored, schema.stored? ⟨false⟩ owner name off = some stored →
      Agree (read (schema.part ⟨true⟩ (schema.renamed shape stored)))
        (readToo (schema.part ⟨false⟩ stored))) :
    Agree ((remappedFields schema owner true on).demand name read)
      ((remappedFields schema owner false off).demand name readToo) := by
  rw [Fields.demand, Fields.demand, Schema.fields_part, Schema.fields_part, moved]
  cases found : schema.stored? ⟨false⟩ owner name off with
  | none => exact .error rfl
  | some stored => exact each stored found

include moved in
theorem offer_agree {α : Type} {read readToo : Part schema.Carrier → Except Failure α}
    {fits : Value → Bool}
    (kept : ∀ stored, fits (schema.renamed shape stored) = fits stored)
    (each : ∀ stored, schema.stored? ⟨false⟩ owner name off = some stored →
      Agree (read (schema.part ⟨true⟩ (schema.renamed shape stored)))
        (readToo (schema.part ⟨false⟩ stored))) :
    Agree ((remappedFields schema owner true on).offer name fits read)
      ((remappedFields schema owner false off).offer name fits readToo) := by
  rw [Fields.offer, Fields.offer, Schema.fields_part, Schema.fields_part, moved]
  cases found : schema.stored? ⟨false⟩ owner name off with
  | none => exact .ok none
  | some stored =>
      simp only [Option.map_some, Schema.part_value, kept]
      cases fits stored with
      | true => exact (each stored found).map some
      | false => exact .ok none

theorem scalar_agree (type : ScalarType) (raw : Value) :
    Agree ((remappedFields schema owner true on).scalar name type raw)
      ((remappedFields schema owner false off).scalar name type raw) := by
  rw [Fields.scalar, Fields.scalar]
  cases type.read? raw with
  | some found => exact .ok found
  | none => exact .error rfl

theorem case_agree (choices : Enumeration) (raw : Value) :
    Agree ((remappedFields schema owner true on).case name choices raw)
      ((remappedFields schema owner false off).case name choices raw) := by
  rw [Fields.case, Fields.case]
  cases choices.raw.read? raw with
  | none => exact .error rfl
  | some found =>
      dsimp only
      cases choices.ofRaw? found with
      | some case => exact .ok case
      | none => exact .error rfl

theorem scalar_list_agree (type : ScalarType) (raw : Value) :
    Agree ((remappedFields schema owner true on).scalarList name type raw)
      ((remappedFields schema owner false off).scalarList name type raw) := by
  cases raw with
  | array items =>
      apply Fields.collect_items_agree
      rw [List.forall₂_map_left_iff, List.forall₂_map_right_iff, List.forall₂_same]
      exact fun item _ => scalar_agree type item
  | _ => exact .error rfl

section Opened
variable {target : Entity} {stored : Value}

theorem entity_agree (inner : ∀ position part, (Shape.entity target).Opens stored target position
      part → Agree (schema.decode ⟨true⟩ target (schema.renamed (.entity target) part))
        (schema.decode ⟨false⟩ target part)) :
    Agree ((remappedFields schema owner true on).entity name target
        (schema.part ⟨true⟩ (schema.renamed (.entity target) stored)))
      ((remappedFields schema owner false off).entity name target
        (schema.part ⟨false⟩ stored)) := by
  rw [Fields.entity, Fields.entity, Schema.part_value, Schema.part_value]
  cases stored with
  | object entries =>
      have agree := inner none _ (.whole target entries)
      rw [Schema.renamed_entity] at agree ⊢
      exact agree.nested name none
  | _ => exact .error rfl

theorem list_agree (inner : ∀ position part, (Shape.entityList target).Opens stored target
      position part → Agree (schema.decode ⟨true⟩ target (schema.renamed (.entity target) part))
        (schema.decode ⟨false⟩ target part)) :
    Agree ((remappedFields schema owner true on).list name target
        (schema.part ⟨true⟩ (schema.renamed (.entityList target) stored)))
      ((remappedFields schema owner false off).list name target
        (schema.part ⟨false⟩ stored)) := by
  rw [Fields.list, Fields.list, Schema.part_value, Schema.part_value]
  cases stored with
  | array items =>
      rw [Schema.renamed_list]
      simp only [Schema.part_items, List.map_map]
      apply Fields.collect_items_agree
      rw [List.forall₂_map_left_iff, List.forall₂_map_right_iff, List.forall₂_same]
      intro item member
      obtain ⟨index, held⟩ := List.getElem?_of_mem member
      exact inner _ item (.item target held)
  | _ => exact .error rfl

theorem keyed_agree (inner : ∀ position part, (Shape.entityMap target).Opens stored target
      position part → Agree (schema.decode ⟨true⟩ target (schema.renamed (.entity target) part))
        (schema.decode ⟨false⟩ target part)) :
    Agree ((remappedFields schema owner true on).keyed name target
        (schema.part ⟨true⟩ (schema.renamed (.entityMap target) stored)))
      ((remappedFields schema owner false off).keyed name target
        (schema.part ⟨false⟩ stored)) := by
  rw [Fields.keyed, Fields.keyed, Schema.part_value, Schema.part_value]
  cases stored with
  | object entries =>
      rw [Schema.renamed_map]
      simp only [Schema.part_entries, List.map_map]
      apply Fields.collect_entries_agree
      rw [List.forall₂_map_left_iff, List.forall₂_map_right_iff, List.forall₂_same]
      exact fun entry member => ⟨rfl, inner _ entry.2 (.entry target member)⟩
  | _ => exact .error rfl

end Opened

include moved in
/-- Reads that match the shape of a field agree if building the entities in it does. -/
theorem read_agree {how : FieldRead Entity} (meets : shape.Meets how)
    (inner : ∀ stored target position part,
      schema.stored? ⟨false⟩ owner name off = some stored →
      shape.Opens stored target position part →
      Agree (schema.decode ⟨true⟩ target (schema.renamed (.entity target) part))
        (schema.decode ⟨false⟩ target part)) :
    Agree ((remappedFields schema owner true on).read name how)
      ((remappedFields schema owner false off).read name how) := by
  cases how with
  | wireKey =>
      cases meets with
      | flat _ _ keyless => exact absurd rfl keyless
      | opened asks => cases asks
  | lookup =>
      rw [Fields.read, Fields.read, lookup_flat moved (meets_closed meets rfl)]
      exact .ok _
  | optional type =>
      rw [Fields.read, Fields.read, Fields.optional, Fields.optional,
        lookup_flat moved (meets_closed meets rfl)]
      exact .ok _
  | required type =>
      refine demand_agree moved fun stored _ => ?_
      rw [Schema.part_value, Schema.part_value, schema.renamed_flat (meets_closed meets rfl)]
      exact scalar_agree type stored
  | scalarList type =>
      refine demand_agree moved fun stored _ => ?_
      rw [Schema.part_value, Schema.part_value, schema.renamed_flat (meets_closed meets rfl)]
      exact scalar_list_agree type stored
  | enumeration choices =>
      refine demand_agree moved fun stored _ => ?_
      rw [Schema.part_value, Schema.part_value, schema.renamed_flat (meets_closed meets rfl)]
      exact case_agree choices stored
  | optionalEnumeration choices =>
      refine offer_agree moved (fun stored => ?_) fun stored _ => ?_
      · rw [schema.renamed_flat (meets_closed meets rfl)]
      · rw [Schema.part_value, Schema.part_value, schema.renamed_flat (meets_closed meets rfl)]
        exact case_agree choices stored
  | entity target =>
      obtain rfl := meets_opening meets rfl
      exact demand_agree moved fun stored found =>
        entity_agree fun position part => inner stored target position part found
  | optionalEntity target =>
      obtain rfl := meets_opening meets rfl
      exact offer_agree moved (schema.renamed_fits Fields.object_kind _) fun stored found =>
        entity_agree fun position part => inner stored target position part found
  | list target =>
      obtain rfl := meets_opening meets rfl
      exact demand_agree moved fun stored found =>
        list_agree fun position part => inner stored target position part found
  | optionalList target =>
      obtain rfl := meets_opening meets rfl
      exact offer_agree moved (schema.renamed_fits Fields.array_kind _) fun stored found =>
        list_agree fun position part => inner stored target position part found
  | keyed target =>
      obtain rfl := meets_opening meets rfl
      exact demand_agree moved fun stored found =>
        keyed_agree fun position part => inner stored target position part found
  | optionalKeyed target =>
      obtain rfl := meets_opening meets rfl
      exact offer_agree moved (schema.renamed_fits Fields.object_kind _) fun stored found =>
        keyed_agree fun position part => inner stored target position part found

end Reads

namespace Schema

variable {schema : Schema Entity}

/-- A type whose fields are written and read as they are declared, under keys of their own. -/
structure FieldByField (schema : Schema Entity) (entity : Entity) : Prop where
  apart : schema.KeysApart entity
  writes : schema.WritesFields entity
  reads : (schema.reading entity).ReadsFields (schema.fields entity)

/-- Building agrees on a value with declared names only and on its renaming. -/
theorem decode_agree (value : Value) :
    ∀ entity, (∀ member, schema.Reaches entity member → schema.FieldByField member) →
      schema.OnlyDeclared entity value →
      Agree (schema.decode ⟨true⟩ entity (schema.renamed (.entity entity) value))
        (schema.decode ⟨false⟩ entity value) := by
  induction value using Value.map_induction with
  | other value scalar =>
      intro entity _ _
      have refused : (Shape.entity entity).accepts value = false := by
        simp [Shape.accepts, scalar]
      rw [schema.renamed_refused refused, decode_other _ _ _ _ scalar,
        decode_other _ _ _ _ scalar]
      exact .error rfl
  | map entries ih =>
      intro entity direct only
      have here := direct entity (.here entity)
      rw [renamed_entity, decode_object, decode_object]
      refine alike_run here.reads _ _ fun spec declared how meets => ?_
      refine read_agree (stored_renamed here.apart declared (only_declared_here only)) meets ?_
      intro stored target position part found opens
      exact ih part (Shape.opens_within opens (stored_inside found)) target
        (fun member reaches =>
          direct member (.inside declared (Shape.opens_target opens) reaches))
        (only_declared_inside only declared found opens)

end Schema

/-- Remapping renames what is encoded, and what is renamed is validated and built as the value
itself is: with the same reports but for wire keys, the same entities, and failures at the same
paths with the same descriptors but for wire keys. -/
theorem remapping_renames [DecidableEq Entity] (schema : Schema Entity) (entity : Entity)
    (direct : ∀ member, schema.Reaches entity member → schema.FieldByField member) :
    (∀ carrier, ∃ value, schema.encode ⟨false⟩ entity carrier = .ok value ∧
      schema.encode ⟨true⟩ entity carrier = .ok (schema.renamed (.entity entity) value)) ∧
    ∀ value, schema.OnlyDeclared entity value →
      (∀ locale,
        (Scope.validate ⟨⟨true⟩, .empty, locale⟩ schema entity
            (schema.renamed (.entity entity) value)).map (fun checked => checked.1.keyless) =
          (Scope.validate ⟨⟨false⟩, .empty, locale⟩ schema entity value).map
            fun checked => checked.1.keyless) ∧
      ((∃ carrier,
          schema.decode ⟨true⟩ entity (schema.renamed (.entity entity) value) = .ok carrier ∧
          schema.decode ⟨false⟩ entity value = .ok carrier) ∨
        ∃ failure plain,
          schema.decode ⟨true⟩ entity (schema.renamed (.entity entity) value) = .error failure ∧
          schema.decode ⟨false⟩ entity value = .error plain ∧
          ∀ locale, failure.keylessError locale = plain.keylessError locale) := by
  constructor
  · intro carrier
    obtain ⟨distinct, image⟩ := Schema.record_renamed (schema.record entity carrier) entity
      carrier rfl fun member reaches => ⟨(direct member reaches).apart, (direct member reaches).writes⟩
    refine ⟨_, Record.encode_image _ _ (distinct _), ?_⟩
    rw [← image]
    exact Record.encode_image _ _ (distinct _)
  · intro value only
    constructor
    · intro locale
      exact Scope.validate_alike (fun member reaches => (direct member reaches).apart) only
    · have agree := Schema.decode_agree value entity direct only
      generalize schema.decode ⟨true⟩ entity _ = one at agree ⊢
      generalize schema.decode ⟨false⟩ entity value = other at agree ⊢
      cases agree with
      | ok carrier => exact Or.inl ⟨carrier, rfl, rfl⟩
      | @error left right same =>
          refine Or.inr ⟨left, right, rfl, rfl, fun locale => ?_⟩
          rw [← left.keyless_error, ← right.keyless_error, same]

/-! Two types with the same two names, each the other's wire key, one of them in a collection under
keys of its own. -/
inductive Transit where
  | route
  | leg
  deriving DecidableEq

namespace Transit

structure Leg where
  start : String
  stop : String

structure Route where
  start : String
  stop : String
  legs : List (String × Leg)

abbrev Carrier : Transit → Type
  | .route => Route
  | .leg => Leg

def crossed : WireKeys := [("start", "stop"), ("stop", "start")]

def reading : (entity : Transit) → Reading Carrier (Carrier entity)
  | .route => do
    let start ← Reading.field "start" (.required .str)
    let stop ← Reading.field "stop" (.required .str)
    let legs ← Reading.field "legs" (.keyed leg)
    return ⟨start, stop, legs⟩
  | .leg => do
    let start ← Reading.field "start" (.required .str)
    let stop ← Reading.field "stop" (.required .str)
    return ⟨start, stop⟩

def legRecord (leg : Leg) : Record :=
  .mk "Leg" crossed [("start", .scalar .str leg.start), ("stop", .scalar .str leg.stop)]

def schema : Schema Transit where
  Carrier := Carrier
  name := fun
    | .route => "Route"
    | .leg => "Leg"
  wireKeys := fun _ => crossed
  fields := fun
    | .route =>
      [⟨"start", .str, .required⟩, ⟨"stop", .str, .required⟩, ⟨"legs", .entityMap leg, .required⟩]
    | .leg => [⟨"start", .str, .required⟩, ⟨"stop", .str, .required⟩]
  reading := reading
  record := fun
    | .route, (written : Route) => .mk "Route" crossed
      [("start", .scalar .str written.start), ("stop", .scalar .str written.stop),
        ("legs", .keyed (written.legs.map fun entry => (entry.1, legRecord entry.2)))]
    | .leg, written => legRecord written

theorem field_by_field (entity : Transit) : schema.FieldByField entity := by
  cases entity with
  | route =>
      constructor
      · decide
      · intro written
        refine ⟨_, rfl, by simp, ?_⟩
        simp only [List.forall_mem_cons]
        refine ⟨⟨_, List.Mem.head _, _, written.start, meets_of_suits (.required .str), rfl⟩,
          ⟨_, .tail _ (List.Mem.head _), _, written.stop, meets_of_suits (.required .str), rfl⟩,
          ⟨_, .tail _ (.tail _ (List.Mem.head _)), _, written.legs,
            meets_of_suits (.keyed "legs" leg), rfl⟩, by simp⟩
      · refine reads_field (List.Mem.head _) (meets_of_suits (.required .str)) fun start => ?_
        refine reads_field (.tail _ (List.Mem.head _)) (meets_of_suits (.required .str))
          fun stop => ?_
        refine reads_field (.tail _ (.tail _ (List.Mem.head _)))
          (meets_of_suits (.keyed "legs" leg)) fun legs => ?_
        exact .done _
  | leg =>
      constructor
      · decide
      · intro written
        refine ⟨_, rfl, by simp, ?_⟩
        simp only [List.forall_mem_cons]
        exact ⟨⟨_, List.Mem.head _, _, written.start, meets_of_suits (.required .str), rfl⟩,
          ⟨_, .tail _ (List.Mem.head _), _, written.stop, meets_of_suits (.required .str), rfl⟩,
          by simp⟩
      · refine reads_field (List.Mem.head _) (meets_of_suits (.required .str)) fun start => ?_
        refine reads_field (.tail _ (List.Mem.head _)) (meets_of_suits (.required .str))
          fun stop => ?_
        exact .done _

theorem named_fields {owner : Transit} {entries : List (String × Value)}
    (same : entries.map (·.1) = (schema.fields owner).map (·.name)) :
    ∀ entry ∈ entries, ∃ spec ∈ schema.fields owner, spec.name = entry.1 := by
  intro entry member
  have inside : entry.1 ∈ entries.map (·.1) := List.mem_map_of_mem member
  rw [same] at inside
  exact List.mem_map.mp inside

-- The leg stands under a key that is also the name of a field, and stops at a number.
def trip : Value :=
  .object [("start", .str "A"), ("stop", .str "B"),
    ("legs", .object [("start", .object [("start", .str "A"), ("stop", .integer 5)])])]

def crossedTrip : Value :=
  .object [("stop", .str "A"), ("start", .str "B"),
    ("legs", .object [("start", .object [("stop", .str "A"), ("start", .integer 5)])])]

theorem trip_declared : schema.OnlyDeclared route trip := by
  intro steps owner entries visit
  cases visit with
  | here => exact named_fields rfl
  | inside declared found opens rest =>
      have leads := Shape.opens_target opens
      simp only [schema, List.mem_cons, List.not_mem_nil, or_false] at declared
      rcases declared with rfl | rfl | rfl
      · cases leads
      · cases leads
      · obtain rfl := Option.some.inj found
        cases opens with
        | entry _ held =>
            obtain ⟨rfl, rfl⟩ := Prod.mk.inj (List.mem_singleton.mp held)
            cases rest with
            | here => exact named_fields rfl
            | inside declared _ opens _ =>
                have leads := Shape.opens_target opens
                simp only [schema, List.mem_cons, List.not_mem_nil, or_false] at declared
                rcases declared with rfl | rfl <;> cases leads

/-- A route is written crosswise under remapped keys, and the fault of a leg is found in both
forms at one path. -/
theorem crossed_route :
    (∀ member, schema.Reaches route member → schema.FieldByField member) ∧
    schema.encode ⟨true⟩ route (⟨"A", "B", [("start", ⟨"A", "C"⟩)]⟩ : Route) =
      .ok (schema.renamed (.entity route) (.object [("start", .str "A"), ("stop", .str "B"),
        ("legs", .object [("start", .object [("start", .str "A"), ("stop", .str "C")])])])) ∧
    schema.OnlyDeclared route trip ∧ schema.renamed (.entity route) trip = crossedTrip ∧
    (Scope.validate ⟨⟨true⟩, .empty, "en"⟩ schema route crossedTrip).map
        (fun checked => checked.1.keyless) =
      (Scope.validate ⟨⟨false⟩, .empty, "en"⟩ schema route trip).map
        (fun checked => checked.1.keyless) ∧
    ∃ failure plain, schema.decode ⟨true⟩ route crossedTrip = .error failure ∧
      schema.decode ⟨false⟩ route trip = .error plain ∧
      ∀ locale, failure.keylessError locale = plain.keylessError locale := by
  have direct : ∀ member, schema.Reaches route member → schema.FieldByField member :=
    fun member _ => field_by_field member
  have renamed : schema.renamed (.entity route) trip = crossedTrip := by rfl
  obtain ⟨encoded, rest⟩ := remapping_renames schema route direct
  obtain ⟨validated, built⟩ := rest trip trip_declared
  obtain ⟨value, plain, crossed⟩ := encoded (⟨"A", "B", [("start", ⟨"A", "C"⟩)]⟩ : Route)
  obtain rfl := Except.ok.inj (plain.symm.trans rfl)
  rw [renamed] at validated built
  refine ⟨direct, crossed, trip_declared, renamed, validated "en", ?_⟩
  rcases built with ⟨carrier, ended, -⟩ | failed
  · cases ended
  · exact failed

end Transit

end Interchange
