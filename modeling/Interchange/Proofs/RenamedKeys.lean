import Mathlib.Data.List.Nodup
import Interchange.Proofs.Conformance
import Interchange.Proofs.FindingRules
import Interchange.Proofs.EntityColumns
/-!
Remapped keys as a renaming. In the map of an entity, every declared field moves to its wire key;
the renaming follows the fields that hold entities, whole, in lists or under the keys of a
collection, and leaves everything else as it is. Main statements: what a renamed map has stored
under a wire key is the renaming of what the map has under the name, and an entity that writes
each field once encodes with remapping to the renaming of what it encodes to without.
-/
namespace Interchange

variable {Entity : Type}

theorem Value.null_kind (value : Value) : value.isNull = decide (value.kind = .null) := by
  cases value <;> rfl

theorem Fields.object_kind (value : Value) : isObject value = decide (value.kind = .object) := by
  cases value <;> rfl

theorem Fields.array_kind (value : Value) : isArray value = decide (value.kind = .array) := by
  cases value <;> rfl

namespace Schema

variable (schema : Schema Entity)

def declared? (owner : Entity) (name : String) : Option (FieldSpec Entity) :=
  (schema.fields owner).find? (·.name = name)

/-- An entry of a map of an entity: a declared name gives way to its wire key. -/
def renamedEntry (owner : Entity) (entry : String × (Shape Entity → Value)) : String × Value :=
  match schema.declared? owner entry.1 with
  | some spec => (wireKey (schema.wireKeys owner) entry.1 ⟨true⟩, entry.2 spec.shape)
  | none => (entry.1, entry.2 .any)

def rename (value : Value) (parts : Value.Parts (Shape Entity → Value)) (shape : Shape Entity) :
    Value :=
  match shape, parts with
  | .entity owner, .entries entries => .object (entries.map (schema.renamedEntry owner))
  | .entityList target, .items items => .array (items.map fun item => item (.entity target))
  | .entityMap target, .entries entries =>
    .object (entries.map fun entry => (entry.1, entry.2 (.entity target)))
  | _, _ => value

/-- A value of a shape with the declared names in it renamed to wire keys. -/
def renamed (shape : Shape Entity) (value : Value) : Value := value.fold schema.rename shape

theorem renamed_entity (owner : Entity) (entries : List (String × Value)) :
    schema.renamed (.entity owner) (.object entries) =
      .object (entries.map fun entry =>
        schema.renamedEntry owner (entry.1, fun shape => schema.renamed shape entry.2)) := by
  rw [renamed, Value.fold_object, rename, List.map_map]
  rfl

theorem renamed_list (target : Entity) (items : List Value) :
    schema.renamed (.entityList target) (.array items) =
      .array (items.map (schema.renamed (.entity target))) := by
  rw [renamed, Value.fold_array, rename, List.map_map]
  rfl

theorem renamed_map (target : Entity) (entries : List (String × Value)) :
    schema.renamed (.entityMap target) (.object entries) =
      .object (entries.map fun entry => (entry.1, schema.renamed (.entity target) entry.2)) := by
  rw [renamed, Value.fold_object, rename, List.map_map]
  rfl

theorem renamed_flat {shape : Shape Entity} (closed : shape.target? = none) (value : Value) :
    schema.renamed shape value = value := by
  cases shape with
  | entity => cases closed
  | entityList => cases closed
  | entityMap => cases closed
  | _ => cases value <;> rfl

/-- Where a shape is not met, there is nothing to rename. -/
theorem renamed_refused {shape : Shape Entity} {value : Value}
    (refused : shape.accepts value = false) : schema.renamed shape value = value := by
  cases shape with
  | entity => cases value <;> first | rfl | cases refused
  | entityList => cases value <;> first | rfl | cases refused
  | entityMap => cases value <;> first | rfl | cases refused
  | _ => exact schema.renamed_flat rfl value

theorem renamed_kind (shape : Shape Entity) (value : Value) :
    (schema.renamed shape value).kind = value.kind := by
  cases shape with
  | entity => cases value <;> rfl
  | entityList => cases value <;> rfl
  | entityMap => cases value <;> rfl
  | _ => rw [schema.renamed_flat rfl value]

theorem renamed_fits {fits : Value → Bool} {kind : Value.Kind}
    (judges : ∀ value, fits value = decide (value.kind = kind)) (shape : Shape Entity)
    (value : Value) : fits (schema.renamed shape value) = fits value := by
  rw [judges, judges, schema.renamed_kind]

/-- The wire keys of an entity's fields are told apart. -/
def KeysApart (owner : Entity) : Prop :=
  ((schema.fields owner).map fun spec =>
    wireKey (schema.wireKeys owner) spec.name ⟨true⟩).Nodup

instance (owner : Entity) : Decidable (schema.KeysApart owner) :=
  inferInstanceAs (Decidable (List.Nodup _))

/-- Maps that are read as entities have no keys but names of declared fields. -/
def OnlyDeclared (entity : Entity) (value : Value) : Prop :=
  ∀ steps owner entries, schema.Visits ⟨false⟩ entity value steps owner entries →
    ∀ entry ∈ entries, ∃ spec ∈ schema.fields owner, spec.name = entry.1

variable {schema} {owner : Entity} {entries : List (String × Value)} {spec : FieldSpec Entity}

theorem same_of_keys (apart : schema.KeysApart owner) {other : FieldSpec Entity}
    (declared : spec ∈ schema.fields owner) (declaredToo : other ∈ schema.fields owner)
    (same : wireKey (schema.wireKeys owner) spec.name ⟨true⟩ =
      wireKey (schema.wireKeys owner) other.name ⟨true⟩) : spec = other :=
  List.inj_on_of_nodup_map apart declared declaredToo same

theorem declared_unique (apart : schema.KeysApart owner) (declared : spec ∈ schema.fields owner) :
    schema.declared? owner spec.name = some spec := by
  rw [declared?]
  cases found : (schema.fields owner).find? (·.name = spec.name) with
  | none => simpa using List.find?_eq_none.mp found spec declared
  | some other =>
      have named : other.name = spec.name := by simpa using List.find?_some found
      rw [same_of_keys apart (List.mem_of_find?_eq_some found) declared (by rw [named])]

theorem renamed_entry (apart : schema.KeysApart owner) (declared : spec ∈ schema.fields owner)
    (part : Shape Entity → Value) :
    schema.renamedEntry owner (spec.name, part) =
      (wireKey (schema.wireKeys owner) spec.name ⟨true⟩, part spec.shape) := by
  rw [renamedEntry, declared_unique apart declared]

/-- Under the wire key of a field stands the renaming of what stood under its name. -/
theorem stored_renamed (apart : schema.KeysApart owner) (declared : spec ∈ schema.fields owner)
    (only : ∀ entry ∈ entries, ∃ spec ∈ schema.fields owner, spec.name = entry.1) :
    schema.stored? ⟨true⟩ owner spec.name (entries.map fun entry =>
        schema.renamedEntry owner (entry.1, fun shape => schema.renamed shape entry.2)) =
      (schema.stored? ⟨false⟩ owner spec.name entries).map (schema.renamed spec.shape) := by
  rw [stored?, stored?]
  have named : wireKey (schema.wireKeys owner) spec.name ⟨false⟩ = spec.name := rfl
  rw [named]
  induction entries with
  | nil => rfl
  | cons entry rest ih =>
      obtain ⟨⟨other, declaredToo, key⟩, later⟩ := List.forall_mem_cons.mp only
      rw [List.map_cons, ← key, renamed_entry apart declaredToo, List.lookup_cons]
      obtain ⟨name, value⟩ := entry
      subst key
      by_cases same : spec = other
      · subst same
        simp
      · have apartKeys : wireKey (schema.wireKeys owner) spec.name ⟨true⟩ ≠
            wireKey (schema.wireKeys owner) other.name ⟨true⟩ :=
          fun equal => same (same_of_keys apart declared declaredToo equal)
        have apartNames : spec.name ≠ other.name := fun equal => apartKeys (by rw [equal])
        rw [beq_eq_false_iff_ne.mpr apartKeys, List.lookup_cons,
          beq_eq_false_iff_ne.mpr apartNames]
        exact ih later

theorem only_declared_here (only : schema.OnlyDeclared owner (.object entries)) :
    ∀ entry ∈ entries, ∃ spec ∈ schema.fields owner, spec.name = entry.1 :=
  only [] owner entries (.here owner entries)

theorem only_declared_inside (only : schema.OnlyDeclared owner (.object entries))
    (declared : spec ∈ schema.fields owner) {stored part : Value} {target : Entity}
    {position : Option Position}
    (found : schema.stored? ⟨false⟩ owner spec.name entries = some stored)
    (opens : spec.shape.Opens stored target position part) : schema.OnlyDeclared target part :=
  fun _ _ _ visit => only _ _ _ (.inside declared found opens visit)

/-! What is written: one entry for each field, under its name or under its wire key. -/

/-- Every write is of a declared field, by the counterpart of a read that matches its shape, and no
field is written twice. -/
def WritesFields (schema : Schema Entity) (owner : Entity) : Prop :=
  ∀ carrier, ∃ writes, schema.record owner carrier =
      .mk (schema.name owner) (schema.wireKeys owner) writes ∧
    (writes.map (·.1)).Nodup ∧
    ∀ write ∈ writes, ∃ spec ∈ schema.fields owner, ∃ how found, spec.shape.Meets how ∧
      write = (spec.name, schema.content how found)

theorem list_renamed (records : List Record) (target : Entity)
    (each : ∀ record ∈ records, record.image ⟨true⟩ =
      schema.renamed (.entity target) (record.image ⟨false⟩)) :
    (Content.list records).image ⟨true⟩ =
      schema.renamed (.entityList target) ((Content.list records).image ⟨false⟩) := by
  rw [Content.image, Content.image, Content.image_items, Content.image_items, renamed_list,
    List.map_map, List.map_congr_left each]
  rfl

theorem keyed_renamed (records : List (String × Record)) (target : Entity)
    (each : ∀ entry ∈ records, entry.2.image ⟨true⟩ =
      schema.renamed (.entity target) (entry.2.image ⟨false⟩)) :
    (Content.keyed records).image ⟨true⟩ =
      schema.renamed (.entityMap target) ((Content.keyed records).image ⟨false⟩) := by
  rw [Content.image, Content.image, Content.image_keyed, Content.image_keyed, renamed_map,
    List.map_map]
  exact congrArg Value.object
    (List.map_congr_left fun entry member => congrArg (Prod.mk entry.1) (each entry member))

/-- A content is renamed as its records are. -/
theorem content_renamed {shape : Shape Entity} {how : FieldRead Entity} (meets : shape.Meets how)
    (found : how.Result schema.Carrier)
    (inner : ∀ record, (schema.content how found).Holds record →
      ∀ target, shape.target? = some target →
        record.image ⟨true⟩ = schema.renamed (.entity target) (record.image ⟨false⟩)) :
    (schema.content how found).image ⟨true⟩ =
      schema.renamed shape ((schema.content how found).image ⟨false⟩) := by
  cases how with
  | entity target =>
      obtain rfl := meets_opening meets rfl
      exact inner _ (.entity _) target rfl
  | optionalEntity target =>
      obtain rfl := meets_opening meets rfl
      cases found with
      | none => rfl
      | some carrier => exact inner _ (.entity _) target rfl
  | list target =>
      obtain rfl := meets_opening meets rfl
      exact list_renamed _ target fun record member => inner record (.item member) target rfl
  | optionalList target =>
      obtain rfl := meets_opening meets rfl
      cases found with
      | none => rfl
      | some carriers =>
          exact list_renamed _ target fun record member => inner record (.item member) target rfl
  | keyed target =>
      obtain rfl := meets_opening meets rfl
      exact keyed_renamed _ target fun entry member => inner entry.2 (.entry member) target rfl
  | optionalKeyed target =>
      obtain rfl := meets_opening meets rfl
      cases found with
      | none => rfl
      | some carriers =>
          exact keyed_renamed _ target fun entry member =>
            inner entry.2 (.entry member) target rfl
  | _ =>
      cases meets with
      | flat closed => exact (schema.renamed_flat closed _).symm
      | opened asks => cases asks

/-- Names of declared fields are told apart by their wire keys. -/
theorem written_apart (apart : schema.KeysApart owner) {writes : List (String × Content)}
    (once : (writes.map (·.1)).Nodup)
    (declared : ∀ write ∈ writes, ∃ spec ∈ schema.fields owner, spec.name = write.1)
    (options : Options) :
    (writes.map fun write => wireKey (schema.wireKeys owner) write.1 options).Nodup := by
  obtain ⟨remap⟩ := options
  cases remap with
  | false => exact once
  | true =>
      have keys : ((writes.map (·.1)).map fun name =>
          wireKey (schema.wireKeys owner) name ⟨true⟩).Nodup := by
        apply List.Nodup.map_on _ once
        intro name member other memberToo same
        obtain ⟨write, inside, rfl⟩ := List.mem_map.mp member
        obtain ⟨writeToo, insideToo, rfl⟩ := List.mem_map.mp memberToo
        obtain ⟨spec, inFields, name⟩ := declared write inside
        obtain ⟨specToo, inFieldsToo, nameToo⟩ := declared writeToo insideToo
        rw [← name, ← nameToo] at same ⊢
        rw [same_of_keys apart inFields inFieldsToo same]
      rwa [List.map_map] at keys

/-- Encoding meets no repeated key, with or without remapping, and remapping renames its image. -/
theorem record_renamed (record : Record) :
    ∀ owner carrier, record = schema.record owner carrier →
      (∀ member, schema.Reaches owner member → schema.KeysApart member ∧
        schema.WritesFields member) →
      (∀ options, record.Distinct options) ∧
        record.image ⟨true⟩ = schema.renamed (.entity owner) (record.image ⟨false⟩) := by
  induction record using Record.held_induction with
  | step name keys writes ih =>
      intro owner carrier same reached
      obtain ⟨apart, whole⟩ := reached owner (.here owner)
      obtain ⟨written, record, once, each⟩ := whole carrier
      rw [record] at same
      obtain ⟨rfl, rfl, rfl⟩ := Record.mk.inj same
      have inner : ∀ write ∈ writes, ∀ spec ∈ schema.fields owner, ∀ how found,
          spec.shape.Meets how → write.2 = schema.content how found →
          ∀ nested, write.2.Holds nested → ∀ target, spec.shape.target? = some target →
            (∀ options, nested.Distinct options) ∧
              nested.image ⟨true⟩ = schema.renamed (.entity target) (nested.image ⟨false⟩) := by
        intro write member spec declared how found meets content nested holds target leads
        obtain ⟨other, carrier, leadsToo, rfl⟩ := content_holds meets found (content ▸ holds)
        obtain rfl := Option.some.inj (leads.symm.trans leadsToo)
        exact ih write member _ holds target carrier rfl
          fun deeper reaches => reached deeper (.inside declared leads reaches)
      constructor
      · intro options
        refine .mk (written_apart apart once (fun write member => ?_) options) ?_
        · obtain ⟨spec, declared, how, found, meets, rfl⟩ := each write member
          exact ⟨spec, declared, rfl⟩
        · intro write member nested holds
          obtain ⟨spec, declared, how, found, meets, rfl⟩ := each write member
          obtain ⟨target, carrier, leads, -⟩ := content_holds meets found holds
          exact (inner _ member spec declared how found meets rfl nested holds target leads).1
            options
      · rw [Record.image, Record.image, Content.image_writes, Content.image_writes,
          renamed_entity, List.map_map]
        refine congrArg Value.object (List.map_congr_left fun write member => ?_)
        obtain ⟨spec, declared, how, found, meets, rfl⟩ := each write member
        have content := content_renamed meets found fun nested holds target leads =>
          (inner _ member spec declared how found meets rfl nested holds target leads).2
        rw [content]
        exact (renamed_entry apart declared fun shape =>
          schema.renamed shape ((schema.content how found).image ⟨false⟩)).symm

end Schema

end Interchange
