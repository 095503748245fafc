import Interchange.Proofs.Conformance
import Interchange.Validation.Check
/-!
What a suiting read of a field comes to. A read that fails has one of few causes, each tied to the shape
of the field; a read that ends well leaves no such cause anywhere in the stored value. Both are
said about values, without the prepared parts that readings work on.
-/
namespace Interchange

variable {Entity : Type}

namespace Fields

theorem collect_items_error {α : Type} (name : String) (index : Nat) (collected : List α)
    (results : List (Except Failure α)) (failure : Failure)
    (failed : collectItems name index collected results = .error failure) :
    ∃ place source, results[place]? = some (.error source) ∧
      failure = .nested name (some (.index (index + place))) source := by
  induction results generalizing index collected with
  | nil => simp [collectItems] at failed
  | cons first rest ih =>
      cases first with
      | ok item =>
          rw [collectItems] at failed
          obtain ⟨place, source, held, rfl⟩ := ih (index + 1) (item :: collected) failed
          exact ⟨place + 1, source, by simpa using held, by rw [Nat.add_assoc, Nat.add_comm 1]⟩
      | error source =>
          simp only [collectItems, Except.error.injEq] at failed
          exact ⟨0, source, rfl, failed.symm⟩

theorem collect_items_ok {α : Type} (name : String) (index : Nat) (collected found : List α)
    (results : List (Except Failure α))
    (ended : collectItems name index collected results = .ok found) :
    ∀ result ∈ results, ∃ item, result = .ok item := by
  induction results generalizing index collected with
  | nil => simp
  | cons first rest ih =>
      cases first with
      | ok item =>
          rw [collectItems] at ended
          intro result member
          rcases List.mem_cons.mp member with rfl | member
          · exact ⟨item, rfl⟩
          · exact ih (index + 1) (item :: collected) ended result member
      | error source => simp [collectItems] at ended

theorem collect_items_all {α : Type} (name : String) (index : Nat) (collected items : List α) :
    collectItems name index collected (items.map .ok) = .ok (collected.reverse ++ items) := by
  induction items generalizing index collected with
  | nil => simp [collectItems]
  | cons item rest ih =>
      rw [List.map_cons, collectItems, ih]
      simp

theorem collect_entries_error {α : Type} (name : String) (collected : List (String × α))
    (results : List (String × Except Failure α)) (failure : Failure)
    (failed : collectEntries name collected results = .error failure) :
    ∃ key source, (key, .error source) ∈ results ∧
      failure = .nested name (some (.key key)) source := by
  induction results generalizing collected with
  | nil => simp [collectEntries] at failed
  | cons first rest ih =>
      obtain ⟨key, result⟩ := first
      cases result with
      | ok item =>
          rw [collectEntries] at failed
          obtain ⟨place, source, held, rfl⟩ := ih ((key, item) :: collected) failed
          exact ⟨place, source, List.mem_cons_of_mem _ held, rfl⟩
      | error source =>
          simp only [collectEntries, Except.error.injEq] at failed
          exact ⟨key, source, List.mem_cons_self, failed.symm⟩

theorem collect_entries_ok {α : Type} (name : String) (collected found : List (String × α))
    (results : List (String × Except Failure α))
    (ended : collectEntries name collected results = .ok found) :
    ∀ entry ∈ results, ∃ item, entry.2 = .ok item := by
  induction results generalizing collected with
  | nil => simp
  | cons first rest ih =>
      obtain ⟨key, result⟩ := first
      cases result with
      | ok item =>
          rw [collectEntries] at ended
          intro entry member
          rcases List.mem_cons.mp member with rfl | member
          · exact ⟨item, rfl⟩
          · exact ih ((key, item) :: collected) ended entry member
      | error source => simp [collectEntries] at ended

theorem collect_entries_all {α : Type} (name : String) (collected entries : List (String × α)) :
    collectEntries name collected (entries.map fun entry => (entry.1, .ok entry.2)) =
      .ok (collected.reverse ++ entries) := by
  induction entries generalizing collected with
  | nil => simp [collectEntries]
  | cons entry rest ih =>
      rw [List.map_cons, collectEntries, ih]
      simp

end Fields

namespace Schema

variable (schema : Schema Entity) (options : Options)

theorem part_value (value : Value) : (schema.part options value).value = value := by
  cases value <;> rfl

theorem decode_object (entity : Entity) (entries : List (String × Value)) :
    schema.decode options entity (.object entries) =
      (schema.reading entity).run
        (schema.fieldsOf options (schema.wireKeys entity) entries) := by
  rw [decode, part, Value.fold_object, fieldsOf, Value.fold_entries]
  rfl

theorem decode_other (entity : Entity) (value : Value) (scalar : value.asObject? = none) :
    schema.decode options entity value = .error (.notAMap (schema.name entity) value.kind) := by
  cases value with
  | object entries => simp [Value.asObject?] at scalar
  | _ => rfl

theorem part_items (items : List Value) (target : Entity) :
    (schema.part options (.array items)).asItems target =
      items.map (schema.decode options target) := by
  rw [part, Value.fold_array]
  simp only [prepare, List.map_map]
  rfl

theorem part_entries (entries : List (String × Value)) (target : Entity) :
    (schema.part options (.object entries)).asEntries target =
      entries.map fun entry => (entry.1, schema.decode options target entry.2) := by
  rw [part, Value.fold_object]
  simp only [prepare, List.map_map]
  rfl

theorem fields_part (entity : Entity) (entries : List (String × Value)) (name : String) :
    (schema.fieldsOf options (schema.wireKeys entity) entries).part? name =
      (schema.stored? options entity name entries).map (schema.part options) := by
  rw [Fields.part?, fieldsOf, Value.fold_entries]
  exact Value.lookup_map_values _ _ _

end Schema

theorem carries_refused {shape : Shape Entity} {type : ScalarType}
    (carries : shape.Carries type) (value : Value) (refused : type.read? value = none) :
    shape.accepts value = false := by
  cases carries <;> cases value <;>
    simp_all [Shape.accepts, ScalarType.read?, ScalarType.readInteger, ScalarType.readSingle,
      Value.asBool?, Value.asText?, Value.asBinary?, Value.asDouble?, Value.isNumber]

-- Shapes with a type of their own, so that a null never counts as a value.
def Shape.isTyped : Shape Entity → Bool
  | .any => false
  | .list => false
  | .map => false
  | _ => true

theorem carries_accepted {shape : Shape Entity} {type : ScalarType}
    (carries : shape.Carries type) (typed : shape.isTyped = true) (value : Value)
    (accepted : shape.accepts value = false) : type.read? value = none := by
  cases carries <;> cases value <;>
    simp_all [Shape.isTyped, Shape.accepts, ScalarType.read?, ScalarType.readInteger,
      ScalarType.readSingle, Value.asBool?, Value.asText?, Value.asBinary?, Value.asDouble?,
      Value.isNumber]

theorem accepts_entity (target : Entity) (stored : Value) :
    (Shape.entity target).accepts stored = Fields.isObject stored := by
  cases stored <;> rfl

theorem accepts_list (target : Entity) (stored : Value) :
    (Shape.entityList target).accepts stored = Fields.isArray stored := by
  cases stored <;> rfl

theorem accepts_keyed (target : Entity) (stored : Value) :
    (Shape.entityMap target).accepts stored = Fields.isObject stored := by
  cases stored <;> rfl

theorem null_unread {type : ScalarType} (typed : type ≠ .value) : type.read? .null = none := by
  cases type <;> simp_all [ScalarType.read?, ScalarType.readInteger, ScalarType.readSingle,
    Value.asBool?, Value.asText?, Value.asBinary?, Value.asDouble?]

section Reads
variable (schema : Schema Entity) (options : Options)

/-- Why the read of a field fails, given what is stored under its wire key. -/
inductive ReadFault (spec : FieldSpec Entity) (key : String) :
    Option Value → Failure → Prop where
  | missing (needed : spec.isOptional = false) :
      ReadFault spec key none (.field ⟨spec.name, key, none, .missing⟩)
  | refused {stored : Value} {expected : String} (needed : spec.isOptional = false)
      (refused : spec.shape.accepts stored = false) :
      ReadFault spec key (some stored)
        (.field ⟨spec.name, key, some stored, .incompatible expected⟩)
  | wrongRaw {stored : Value} {choices : Enumeration} {expected : String}
      (judged : spec.shape = .enumeration choices) (present : stored.isNull = false)
      (wrong : choices.raw.read? stored = none) :
      ReadFault spec key (some stored)
        (.field ⟨spec.name, key, some stored, .incompatible expected⟩)
  | unknownCase {stored : Value} {choices : Enumeration} {raw : choices.raw.Carrier}
      (judged : spec.shape = .enumeration choices) (present : stored.isNull = false)
      (read : choices.raw.read? stored = some raw) (unknown : choices.ofRaw? raw = none) :
      ReadFault spec key (some stored)
        (.field ⟨spec.name, key, some stored, .unknownCase⟩)
  | element {items : List Value} {type : ScalarType} {index : Nat} {item : Value}
      (needed : spec.isOptional = false) (judged : spec.shape = .listOf type)
      (held : items[index]? = some item) (refused : type.read? item = none) :
      ReadFault spec key (some (.array items))
        (.nested spec.name (some (.index index))
          (.field ⟨spec.name, key, some item, .incompatible type.expected⟩))
  | nested {stored part : Value} {target : Entity} {position : Option Position}
      {source : Failure} (opens : spec.shape.Opens stored target position part)
      (failed : schema.decode options target part = .error source) :
      ReadFault spec key (some stored) (.nested spec.name position source)

/-- The ways in which a value that is read as entities fails: by its outer shape, or inside. -/
def OpenFault (shape : Shape Entity) (name key : String) (stored : Value) (failure : Failure) :
    Prop :=
  (shape.accepts stored = false ∧
    ∃ expected, failure = .field ⟨name, key, some stored, .incompatible expected⟩) ∨
  ∃ target position part source, shape.Opens stored target position part ∧
    schema.decode options target part = .error source ∧ failure = .nested name position source

variable (entity : Entity) (entries : List (String × Value)) (name : String)

/-- A demanded field is read well just if something is stored for it that is. -/
theorem demand_ok {α : Type} (read : Part schema.Carrier → Except Failure α) (found : α) :
    (schema.fieldsOf options (schema.wireKeys entity) entries).demand name read = .ok found ↔
      ∃ stored, schema.stored? options entity name entries = some stored ∧
        read (schema.part options stored) = .ok found := by
  rw [Fields.demand, Schema.fields_part]
  cases schema.stored? options entity name entries <;> simp

theorem demand_error {α : Type} (read : Part schema.Carrier → Except Failure α)
    (failure : Failure)
    (failed : (schema.fieldsOf options (schema.wireKeys entity) entries).demand name read =
      .error failure) :
    (schema.stored? options entity name entries = none ∧ failure = .field
      ⟨name, wireKey (schema.wireKeys entity) name options, none, .missing⟩) ∨
    ∃ stored, schema.stored? options entity name entries = some stored ∧
      read (schema.part options stored) = .error failure := by
  rw [Fields.demand, Schema.fields_part] at failed
  cases held : schema.stored? options entity name entries with
  | none =>
      simp only [held, Option.map_none, Except.error.injEq] at failed
      exact Or.inl ⟨rfl, failed.symm⟩
  | some stored =>
      simp only [held, Option.map_some] at failed
      exact Or.inr ⟨stored, rfl, failed⟩

section Offers
variable {α : Type} (fits : Value → Bool) (read : Part schema.Carrier → Except Failure α)

theorem offer_fit {stored : Value}
    (held : schema.stored? options entity name entries = some stored)
    (fit : fits stored = true) :
    (schema.fieldsOf options (schema.wireKeys entity) entries).offer name fits read =
      (read (schema.part options stored)).map some := by
  rw [Fields.offer, Schema.fields_part, held]
  simp only [Option.map_some, Schema.part_value, fit, ↓reduceIte]

theorem offer_found {stored : Value} {found : α}
    (held : schema.stored? options entity name entries = some stored)
    (fit : fits stored = true) (ended : read (schema.part options stored) = .ok found) :
    (schema.fieldsOf options (schema.wireKeys entity) entries).offer name fits read =
      .ok (some found) := by
  rw [offer_fit schema options entity entries name fits read held fit, ended]
  rfl

theorem offer_unfit {stored : Value}
    (held : schema.stored? options entity name entries = some stored)
    (unfit : fits stored = false) :
    (schema.fieldsOf options (schema.wireKeys entity) entries).offer name fits read =
      .ok none := by
  rw [Fields.offer, Schema.fields_part, held]
  simp only [Option.map_some, Schema.part_value, unfit, Bool.false_eq_true, ↓reduceIte]

theorem offer_error (failure : Failure)
    (failed : (schema.fieldsOf options (schema.wireKeys entity) entries).offer name fits read =
      .error failure) :
    ∃ stored, schema.stored? options entity name entries = some stored ∧ fits stored = true ∧
      read (schema.part options stored) = .error failure := by
  cases held : schema.stored? options entity name entries with
  | none => simp [Fields.offer, Schema.fields_part, held] at failed
  | some stored =>
      cases fit : fits stored with
      | false => simp [offer_unfit schema options entity entries name fits read held fit] at failed
      | true =>
          rw [offer_fit schema options entity entries name fits read held fit] at failed
          cases ended : read (schema.part options stored) with
          | ok found => simp [ended, Except.map] at failed
          | error source =>
              simp only [ended, Except.map, Except.error.injEq] at failed
              exact ⟨stored, rfl, fit, ended.trans (congrArg Except.error failed)⟩

end Offers

theorem scalar_error (type : ScalarType) (stored : Value) (failure : Failure)
    (failed : (schema.fieldsOf options (schema.wireKeys entity) entries).scalar name type stored =
      .error failure) :
    type.read? stored = none ∧ failure = .field
      ⟨name, wireKey (schema.wireKeys entity) name options, some stored,
        .incompatible type.expected⟩ := by
  rw [Fields.scalar] at failed
  cases read : type.read? stored with
  | some found => simp [read] at failed
  | none =>
      simp only [read, Except.error.injEq] at failed
      exact ⟨rfl, failed.symm⟩

theorem case_error (choices : Enumeration) (stored : Value) (failure : Failure)
    (failed : (schema.fieldsOf options (schema.wireKeys entity) entries).case name choices stored =
      .error failure) :
    (choices.raw.read? stored = none ∧ failure = .field
      ⟨name, wireKey (schema.wireKeys entity) name options, some stored,
        .incompatible choices.raw.expected⟩) ∨
    (∃ raw, choices.raw.read? stored = some raw ∧ choices.ofRaw? raw = none ∧ failure = .field
      ⟨name, wireKey (schema.wireKeys entity) name options, some stored, .unknownCase⟩) := by
  rw [Fields.case] at failed
  cases read : choices.raw.read? stored with
  | none =>
      simp only [read, Except.error.injEq] at failed
      exact Or.inl ⟨rfl, failed.symm⟩
  | some raw =>
      simp only [read] at failed
      cases named : choices.ofRaw? raw with
      | some case => simp [named] at failed
      | none =>
          simp only [named, Except.error.injEq] at failed
          exact Or.inr ⟨raw, rfl, named, failed.symm⟩

theorem scalar_list_error (type : ScalarType) (stored : Value) (failure : Failure)
    (failed : (schema.fieldsOf options (schema.wireKeys entity) entries).scalarList name type
      stored = .error failure) :
    ((Shape.listOf type : Shape Entity).accepts stored = false ∧ ∃ expected, failure = .field
      ⟨name, wireKey (schema.wireKeys entity) name options, some stored,
        .incompatible expected⟩) ∨
    (∃ items index item, stored = .array items ∧ items[index]? = some item ∧
      type.read? item = none ∧ failure = .nested name (some (.index index)) (.field
        ⟨name, wireKey (schema.wireKeys entity) name options, some item,
          .incompatible type.expected⟩)) := by
  cases stored with
  | array items =>
      rw [Fields.scalarList] at failed
      obtain ⟨index, source, held, rfl⟩ := Fields.collect_items_error name 0 [] _ failure failed
      rw [List.getElem?_map] at held
      obtain ⟨item, inside, failedItem⟩ := Option.map_eq_some_iff.mp held
      obtain ⟨refused, rfl⟩ := scalar_error schema options entity entries name type item source
        failedItem
      exact Or.inr ⟨items, index, item, rfl, inside, refused, by rw [Nat.zero_add]⟩
  | _ =>
      simp only [Fields.scalarList, Except.error.injEq] at failed
      exact Or.inl ⟨rfl, _, failed.symm⟩

theorem entity_error (target : Entity) (stored : Value) (failure : Failure)
    (failed : (schema.fieldsOf options (schema.wireKeys entity) entries).entity name target
      (schema.part options stored) = .error failure) :
    OpenFault schema options (.entity target) name
      (wireKey (schema.wireKeys entity) name options) stored failure := by
  rw [Fields.entity, Schema.part_value] at failed
  cases stored with
  | object inner =>
      cases built : schema.decode options target (.object inner) with
      | ok found =>
          change Except.mapError _ (schema.decode options target (.object inner)) = _ at failed
          rw [built] at failed
          cases failed
      | error source =>
          change Except.mapError _ (schema.decode options target (.object inner)) = _ at failed
          rw [built] at failed
          cases failed
          exact Or.inr ⟨target, none, _, source, .whole target inner, built, rfl⟩
  | _ =>
      simp only [Except.error.injEq] at failed
      exact Or.inl ⟨rfl, _, failed.symm⟩

theorem list_error (target : Entity) (stored : Value) (failure : Failure)
    (failed : (schema.fieldsOf options (schema.wireKeys entity) entries).list name target
      (schema.part options stored) = .error failure) :
    OpenFault schema options (.entityList target) name
      (wireKey (schema.wireKeys entity) name options) stored failure := by
  rw [Fields.list, Schema.part_value] at failed
  cases stored with
  | array items =>
      simp only [Schema.part_items] at failed
      obtain ⟨index, source, held, rfl⟩ := Fields.collect_items_error name 0 [] _ failure failed
      rw [List.getElem?_map] at held
      obtain ⟨item, inside, failedItem⟩ := Option.map_eq_some_iff.mp held
      exact Or.inr ⟨target, some (.index index), item, source, .item target inside, failedItem,
        by rw [Nat.zero_add]⟩
  | _ =>
      simp only [Except.error.injEq] at failed
      exact Or.inl ⟨rfl, _, failed.symm⟩

theorem keyed_error (target : Entity) (stored : Value) (failure : Failure)
    (failed : (schema.fieldsOf options (schema.wireKeys entity) entries).keyed name target
      (schema.part options stored) = .error failure) :
    OpenFault schema options (.entityMap target) name
      (wireKey (schema.wireKeys entity) name options) stored failure := by
  rw [Fields.keyed, Schema.part_value] at failed
  cases stored with
  | object inner =>
      simp only [Schema.part_entries] at failed
      obtain ⟨key, source, held, rfl⟩ := Fields.collect_entries_error name [] _ failure failed
      obtain ⟨⟨key, item⟩, inside, same⟩ := List.mem_map.mp held
      obtain ⟨rfl, failedItem⟩ := Prod.mk.inj same
      exact Or.inr ⟨target, some (.key key), item, source, .entry target inside, failedItem, rfl⟩
  | _ =>
      simp only [Except.error.injEq] at failed
      exact Or.inl ⟨rfl, _, failed.symm⟩

end Reads

section Faults
variable (schema : Schema Entity) (options : Options)

section Causes
variable {schema options} {spec : FieldSpec Entity} {key : String} {stored : Value}
  {failure : Failure}

theorem open_fault_needed (needed : spec.isOptional = false)
    (fault : OpenFault schema options spec.shape spec.name key stored failure) :
    ReadFault schema options spec key (some stored) failure := by
  rcases fault with ⟨refused, expected, rfl⟩ | ⟨target, position, part, source, opens, failed, rfl⟩
  · exact .refused needed refused
  · exact .nested opens failed

theorem open_fault_accepted (accepted : spec.shape.accepts stored = true)
    (fault : OpenFault schema options spec.shape spec.name key stored failure) :
    ReadFault schema options spec key (some stored) failure := by
  rcases fault with ⟨refused, -⟩ | ⟨target, position, part, source, opens, failed, rfl⟩
  · rw [accepted] at refused
    contradiction
  · exact .nested opens failed

end Causes

variable (entity : Entity) (entries : List (String × Value))

theorem case_fault {spec : FieldSpec Entity} {choices : Enumeration}
    (judged : spec.shape = .enumeration choices) {stored : Value}
    (present : stored.isNull = false) {failure : Failure}
    (failed : (schema.fieldsOf options (schema.wireKeys entity) entries).case spec.name choices
      stored = .error failure) :
    ReadFault schema options spec (wireKey (schema.wireKeys entity) spec.name options)
      (some stored) failure := by
  rcases case_error schema options entity entries spec.name choices stored failure failed with
    ⟨wrong, rfl⟩ | ⟨raw, read, unknown, rfl⟩
  · exact .wrongRaw judged present wrong
  · exact .unknownCase judged present read unknown

theorem demanded_fault {α : Type} {spec : FieldSpec Entity} (needed : spec.isOptional = false)
    (read : Part schema.Carrier → Except Failure α)
    (cause : ∀ stored failure, read (schema.part options stored) = .error failure →
      ReadFault schema options spec (wireKey (schema.wireKeys entity) spec.name options)
        (some stored) failure)
    {failure : Failure}
    (failed : (schema.fieldsOf options (schema.wireKeys entity) entries).demand spec.name read =
      .error failure) :
    ReadFault schema options spec (wireKey (schema.wireKeys entity) spec.name options)
      (schema.stored? options entity spec.name entries) failure := by
  rcases demand_error schema options entity entries spec.name read failure failed with
    ⟨absent, rfl⟩ | ⟨stored, held, failed⟩
  · rw [absent]
    exact .missing needed
  · rw [held]
    exact cause stored failure failed

theorem offered_fault {α : Type} {spec : FieldSpec Entity} (fits : Value → Bool)
    (read : Part schema.Carrier → Except Failure α)
    (cause : ∀ stored failure, fits stored = true →
      read (schema.part options stored) = .error failure →
      ReadFault schema options spec (wireKey (schema.wireKeys entity) spec.name options)
        (some stored) failure)
    {failure : Failure}
    (failed : (schema.fieldsOf options (schema.wireKeys entity) entries).offer spec.name fits
      read = .error failure) :
    ReadFault schema options spec (wireKey (schema.wireKeys entity) spec.name options)
      (schema.stored? options entity spec.name entries) failure := by
  obtain ⟨stored, held, fit, failed⟩ :=
    offer_error schema options entity entries spec.name fits read failure failed
  rw [held]
  exact cause stored failure fit failed

/-- A suiting read fails for one of the causes that the declaration of its field admits. -/
theorem read_fault {spec : FieldSpec Entity} {how : FieldRead Entity} (suits : spec.Suits how)
    {failure : Failure}
    (failed : (schema.fieldsOf options (schema.wireKeys entity) entries).read spec.name how =
      .error failure) :
    ReadFault schema options spec (wireKey (schema.wireKeys entity) spec.name options)
      (schema.stored? options entity spec.name entries) failure := by
  cases suits with
  | @required name shape type carries =>
      refine demanded_fault schema options entity entries rfl _ ?_ failed
      intro stored failure failed
      rw [Schema.part_value] at failed
      obtain ⟨unread, rfl⟩ :=
        scalar_error schema options entity entries name type stored failure failed
      exact .refused rfl (carries_refused carries stored unread)
  | optional carries => simp [Fields.read] at failed
  | scalarList name type =>
      refine demanded_fault schema options entity entries rfl _ ?_ failed
      intro stored failure failed
      rw [Schema.part_value] at failed
      rcases scalar_list_error schema options entity entries name type stored failure failed with
        ⟨refused, expected, rfl⟩ | ⟨items, index, item, rfl, held, unread, rfl⟩
      · exact .refused rfl refused
      · exact .element rfl rfl held unread
  | @enumeration name choices typed =>
      refine demanded_fault schema options entity entries rfl _ ?_ failed
      intro stored failure failed
      rw [Schema.part_value] at failed
      cases absent : stored.isNull with
      | true =>
          obtain rfl : stored = .null := by cases stored <;> simp_all [Value.isNull]
          rcases case_error schema options entity entries name choices .null failure failed with
            ⟨-, rfl⟩ | ⟨raw, read, -, -⟩
          · exact .refused rfl rfl
          · rw [null_unread typed] at read
            contradiction
      | false => exact case_fault schema options entity entries rfl absent failed
  | optionalEnumeration =>
      refine offered_fault schema options entity entries Fields.isPresent _ ?_ failed
      intro stored failure fit failed
      rw [Schema.part_value] at failed
      exact case_fault schema options entity entries rfl (by simpa [Fields.isPresent] using fit)
        failed
  | entity name target =>
      refine demanded_fault schema options entity entries rfl _ ?_ failed
      intro stored failure failed
      apply open_fault_needed rfl
      exact entity_error schema options entity entries name target stored failure failed
  | optionalEntity name target =>
      refine offered_fault schema options entity entries Fields.isObject _ ?_ failed
      intro stored failure fit failed
      apply open_fault_accepted ((accepts_entity target stored).trans fit)
      exact entity_error schema options entity entries name target stored failure failed
  | list name target =>
      refine demanded_fault schema options entity entries rfl _ ?_ failed
      intro stored failure failed
      apply open_fault_needed rfl
      exact list_error schema options entity entries name target stored failure failed
  | optionalList name target =>
      refine offered_fault schema options entity entries Fields.isArray _ ?_ failed
      intro stored failure fit failed
      apply open_fault_accepted ((accepts_list target stored).trans fit)
      exact list_error schema options entity entries name target stored failure failed
  | keyed name target =>
      refine demanded_fault schema options entity entries rfl _ ?_ failed
      intro stored failure failed
      apply open_fault_needed rfl
      exact keyed_error schema options entity entries name target stored failure failed
  | optionalKeyed name target =>
      refine offered_fault schema options entity entries Fields.isObject _ ?_ failed
      intro stored failure fit failed
      apply open_fault_accepted ((accepts_keyed target stored).trans fit)
      exact keyed_error schema options entity entries name target stored failure failed

end Faults

/-! The other way round: a read that ends well leaves none of these causes. -/
section WellRead
variable (schema : Schema Entity) (options : Options)

def OpensWell (shape : Shape Entity) (stored : Value) : Prop :=
  shape.accepts stored = true ∧ ∀ target position part,
    shape.Opens stored target position part →
      ∃ found, schema.decode options target part = .ok found

structure WellRead (spec : FieldSpec Entity) (stored : Option Value) : Prop where
  present : stored = none → spec.isOptional = true
  outer : ∀ value, stored = some value → spec.shape.accepts value = false →
    spec.isOptional = true
  named : ∀ value choices, stored = some value → spec.shape = .enumeration choices →
    value.isNull = false →
      ∃ raw case, choices.raw.read? value = some raw ∧ choices.ofRaw? raw = some case
  elements : ∀ items type, stored = some (.array items) → spec.shape = .listOf type →
    ∀ item ∈ items, ∃ found, type.read? item = some found
  opened : ∀ value target position part, stored = some value →
    spec.shape.Opens value target position part →
      ∃ found, schema.decode options target part = .ok found

variable (entity : Entity) (entries : List (String × Value)) (name : String)

theorem entity_ok (target : Entity) (stored : Value) (found : schema.Carrier target)
    (ended : (schema.fieldsOf options (schema.wireKeys entity) entries).entity name target
      (schema.part options stored) = .ok found) :
    OpensWell schema options (.entity target) stored := by
  rw [Fields.entity, Schema.part_value] at ended
  cases stored with
  | object inner =>
      refine ⟨rfl, ?_⟩
      intro member position part opens
      cases opens
      cases built : schema.decode options target (.object inner) with
      | ok found => exact ⟨found, rfl⟩
      | error source =>
          change Except.mapError _ (schema.decode options target (.object inner)) = _ at ended
          rw [built] at ended
          cases ended
  | _ => simp at ended

theorem list_ok (target : Entity) (stored : Value) (found : List (schema.Carrier target))
    (ended : (schema.fieldsOf options (schema.wireKeys entity) entries).list name target
      (schema.part options stored) = .ok found) :
    OpensWell schema options (.entityList target) stored := by
  rw [Fields.list, Schema.part_value] at ended
  cases stored with
  | array items =>
      simp only [Schema.part_items] at ended
      have each := Fields.collect_items_ok name 0 [] found _ ended
      refine ⟨rfl, ?_⟩
      intro member position part opens
      cases opens with
      | item _ held => exact each _ (List.mem_map_of_mem (List.mem_of_getElem? held))
  | _ => simp at ended

theorem keyed_ok (target : Entity) (stored : Value)
    (found : List (String × schema.Carrier target))
    (ended : (schema.fieldsOf options (schema.wireKeys entity) entries).keyed name target
      (schema.part options stored) = .ok found) :
    OpensWell schema options (.entityMap target) stored := by
  rw [Fields.keyed, Schema.part_value] at ended
  cases stored with
  | object inner =>
      simp only [Schema.part_entries] at ended
      have each := Fields.collect_entries_ok name [] found _ ended
      refine ⟨rfl, ?_⟩
      intro member position part opens
      cases opens with
      | entry _ held => exact each _ (List.mem_map_of_mem held)
  | _ => simp at ended

theorem case_ok (choices : Enumeration) (stored : Value) (found : choices.Case)
    (ended : (schema.fieldsOf options (schema.wireKeys entity) entries).case name choices stored =
      .ok found) :
    ∃ raw, choices.raw.read? stored = some raw ∧ choices.ofRaw? raw = some found := by
  rw [Fields.case] at ended
  cases read : choices.raw.read? stored with
  | none => simp [read] at ended
  | some raw =>
      cases named : choices.ofRaw? raw with
      | none => simp [read, named] at ended
      | some case =>
          simp only [read, named, Except.ok.injEq] at ended
          exact ⟨raw, rfl, by rw [named, ended]⟩

theorem scalar_list_ok (type : ScalarType) (stored : Value) (found : List type.Carrier)
    (ended : (schema.fieldsOf options (schema.wireKeys entity) entries).scalarList name type
      stored = .ok found) :
    ∃ items, stored = .array items ∧ ∀ item ∈ items, ∃ raw, type.read? item = some raw := by
  cases stored with
  | array items =>
      rw [Fields.scalarList] at ended
      have each := Fields.collect_items_ok name 0 [] found _ ended
      refine ⟨items, rfl, ?_⟩
      intro item held
      obtain ⟨carried, read⟩ := each _ (List.mem_map_of_mem held)
      rw [Fields.scalar] at read
      cases result : type.read? item with
      | some raw => exact ⟨raw, rfl⟩
      | none => simp [result] at read
  | _ => simp [Fields.scalarList] at ended

/-- A field that opens its value is well read if the value is fit to be opened, or passed over. -/
theorem opened_well_read {spec : FieldSpec Entity} {stored : Option Value} {target : Entity}
    (leads : spec.shape.target? = some target) (present : stored = none → spec.isOptional = true)
    (fit : ∀ value, stored = some value → spec.shape.accepts value = true →
      OpensWell schema options spec.shape value)
    (unfit : ∀ value, stored = some value → spec.shape.accepts value = false →
      spec.isOptional = true) :
    WellRead schema options spec stored where
  present := present
  outer := unfit
  named := by
    intro value choices _ judged
    simp [judged, Shape.target?] at leads
  elements := by
    intro items type _ judged
    simp [judged, Shape.target?] at leads
  opened := by
    intro value member position part held opens
    have accepted : spec.shape.accepts value = true := by
      generalize spec.shape = shape at opens
      cases opens <;> rfl
    exact (fit value held accepted).2 member position part opens

theorem demanded_well_read {α : Type} {spec : FieldSpec Entity} {target : Entity}
    (leads : spec.shape.target? = some target) (read : Part schema.Carrier → Except Failure α)
    (opens : ∀ stored found, read (schema.part options stored) = .ok found →
      OpensWell schema options spec.shape stored) {found : α}
    (ended : (schema.fieldsOf options (schema.wireKeys entity) entries).demand spec.name read =
      .ok found) :
    WellRead schema options spec (schema.stored? options entity spec.name entries) := by
  obtain ⟨stored, held, read⟩ :=
    (demand_ok schema options entity entries spec.name read found).mp ended
  have well := opens stored found read
  rw [held]
  apply opened_well_read schema options leads
  · simp
  · rintro _ ⟨⟩ _
    exact well
  · rintro _ ⟨⟩ refused
    rw [well.1] at refused
    contradiction

theorem offered_well_read {α : Type} {spec : FieldSpec Entity} {target : Entity}
    (leads : spec.shape.target? = some target) (spare : spec.isOptional = true)
    (fits : Value → Bool) (same : ∀ stored, spec.shape.accepts stored = fits stored)
    (read : Part schema.Carrier → Except Failure α)
    (opens : ∀ stored found, read (schema.part options stored) = .ok found →
      OpensWell schema options spec.shape stored) {found : Option α}
    (ended : (schema.fieldsOf options (schema.wireKeys entity) entries).offer spec.name fits
      read = .ok found) :
    WellRead schema options spec (schema.stored? options entity spec.name entries) := by
  apply opened_well_read schema options leads (fun _ => spare)
  · intro stored held accepted
    rw [offer_fit schema options entity entries spec.name fits read held
      ((same stored).symm.trans accepted)] at ended
    cases result : read (schema.part options stored) with
    | ok built => exact opens stored built result
    | error source => simp [result, Except.map] at ended
  · exact fun _ _ _ => spare

/-- A field with one scalar is well read if the scalar is, or passed over. -/
theorem plain_well_read {spec : FieldSpec Entity} {stored : Option Value} {type : ScalarType}
    (carries : spec.shape.Carries type) (present : stored = none → spec.isOptional = true)
    (outer : ∀ value, stored = some value → spec.shape.accepts value = false →
      spec.isOptional = true) :
    WellRead schema options spec stored where
  present := present
  outer := outer
  named := by
    intro value choices _ judged
    rw [judged] at carries
    cases carries
  elements := by
    intro items type _ judged
    rw [judged] at carries
    cases carries
  opened := by
    intro value target position part _ opens
    generalize spec.shape = shape at carries opens
    cases opens <;> cases carries

theorem enumeration_well_read {spec : FieldSpec Entity} {stored : Option Value}
    (choices : Enumeration) (judged : spec.shape = .enumeration choices)
    (present : stored = none → spec.isOptional = true)
    (outer : ∀ value, stored = some value → spec.shape.accepts value = false →
      spec.isOptional = true)
    (named : ∀ value, stored = some value → value.isNull = false →
      ∃ raw case, choices.raw.read? value = some raw ∧ choices.ofRaw? raw = some case) :
    WellRead schema options spec stored where
  present := present
  outer := outer
  named := by
    intro value other held same filled
    obtain rfl : choices = other := Shape.enumeration.inj (judged.symm.trans same)
    exact named value held filled
  elements := by
    intro items type _ same
    rw [judged] at same
    cases same
  opened := by
    intro value target position part _ opens
    rw [judged] at opens
    cases opens

theorem scalar_list_well_read {spec : FieldSpec Entity} {type : ScalarType}
    (judged : spec.shape = .listOf type) (items : List Value)
    (each : ∀ item ∈ items, ∃ found, type.read? item = some found) :
    WellRead schema options spec (some (.array items)) where
  present := by simp
  outer := by
    rintro _ ⟨⟩ refused
    simp [judged, Shape.accepts, Value.asArray?] at refused
  named := by
    intro value choices _ same
    rw [judged] at same
    cases same
  elements := by
    rintro _ other ⟨⟩ same
    obtain rfl : type = other := Shape.listOf.inj (judged.symm.trans same)
    exact each
  opened := by
    intro value target position part _ opens
    rw [judged] at opens
    cases opens

/-- A suiting read that ends well leaves nothing wrong, but for what an optional field forgives. -/
theorem well_read {spec : FieldSpec Entity} {how : FieldRead Entity} (suits : spec.Suits how)
    (typed : spec.shape.isTyped = true) {found : how.Result schema.Carrier}
    (ended : (schema.fieldsOf options (schema.wireKeys entity) entries).read spec.name how =
      .ok found) :
    WellRead schema options spec (schema.stored? options entity spec.name entries) := by
  cases suits with
  | @required name shape type carries =>
      obtain ⟨stored, held, read⟩ :=
        (demand_ok schema options entity entries name _ found).mp ended
      rw [Schema.part_value] at read
      rw [held]
      refine plain_well_read schema options carries (by simp) ?_
      rintro _ ⟨⟩ refused
      have unread := carries_accepted carries typed stored refused
      simp [Fields.scalar, unread] at read
  | optional carries =>
      exact plain_well_read schema options carries (fun _ => rfl) (fun _ _ _ => rfl)
  | scalarList name type =>
      obtain ⟨stored, held, read⟩ :=
        (demand_ok schema options entity entries name _ found).mp ended
      rw [Schema.part_value] at read
      rw [held]
      obtain ⟨items, rfl, each⟩ :=
        scalar_list_ok schema options entity entries name type stored found read
      exact scalar_list_well_read schema options rfl items each
  | @enumeration name choices distinct =>
      obtain ⟨stored, held, read⟩ :=
        (demand_ok schema options entity entries name _ found).mp ended
      rw [Schema.part_value] at read
      rw [held]
      obtain ⟨raw, read, named⟩ :=
        case_ok schema options entity entries name choices stored found read
      apply enumeration_well_read schema options choices rfl
      · simp
      · rintro _ ⟨⟩ refused
        have absent : stored = .null := by
          cases stored <;> simp_all [Shape.accepts, Value.isNull]
        rw [absent, null_unread distinct] at read
        contradiction
      · rintro _ ⟨⟩ _
        exact ⟨raw, found, read, named⟩
  | @optionalEnumeration name choices distinct =>
      apply enumeration_well_read schema options choices rfl (fun _ => rfl)
        (fun _ _ _ => rfl)
      intro stored held filled
      rw [Fields.read, offer_fit schema options entity entries name Fields.isPresent _ held
        (by rw [Fields.isPresent, filled]; rfl)] at ended
      simp only [Schema.part_value] at ended
      cases result : (schema.fieldsOf options (schema.wireKeys entity) entries).case name
          choices stored with
      | ok case =>
          obtain ⟨raw, read, named⟩ :=
            case_ok schema options entity entries name choices stored case result
          exact ⟨raw, case, read, named⟩
      | error source => simp [result, Except.map] at ended
  | entity name target =>
      exact demanded_well_read schema options entity entries rfl _
        (entity_ok schema options entity entries name target) ended
  | optionalEntity name target =>
      exact offered_well_read schema options entity entries rfl rfl Fields.isObject
        (accepts_entity target) _ (entity_ok schema options entity entries name target) ended
  | list name target =>
      exact demanded_well_read schema options entity entries rfl _
        (list_ok schema options entity entries name target) ended
  | optionalList name target =>
      exact offered_well_read schema options entity entries rfl rfl Fields.isArray
        (accepts_list target) _ (list_ok schema options entity entries name target) ended
  | keyed name target =>
      exact demanded_well_read schema options entity entries rfl _
        (keyed_ok schema options entity entries name target) ended
  | optionalKeyed name target =>
      exact offered_well_read schema options entity entries rfl rfl Fields.isObject
        (accepts_keyed target) _ (keyed_ok schema options entity entries name target) ended

end WellRead

end Interchange
