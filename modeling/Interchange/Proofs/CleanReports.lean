import Interchange.Proofs.EntityColumns
import Interchange.Proofs.WellReadFindings
/-!
Validation finds nothing in a map that a wired entity was written as, whatever form bytes were given,
as long as the validators that are asked on the way accept what they are shown.
-/
namespace Interchange

variable {Entity : Type}

theorem carries_exact_typed {shape : Shape Entity} {type : ScalarType}
    (carries : shape.Carries type) (exact : type.isExact = true) : shape.isTyped = true := by
  cases carries <;> first | rfl | simp [ScalarType.isExact] at exact

namespace Schema

variable {schema : Schema Entity} {options : Options} {form : List UInt8 → Value}
  {columns : (entity : Entity) → List (Column schema entity)}

theorem recovers_typed {spec : FieldSpec Entity} {how : FieldRead Entity}
    (suits : spec.Suits how) (recovers : how.Recovers) : spec.shape.isTyped = true := by
  cases recovers with
  | required exact =>
      cases suits with
      | required carries => exact carries_exact_typed carries exact
  | optional exact =>
      cases suits with
      | optional carries => exact carries_exact_typed carries exact
  | _ =>
      cases suits
      rfl

/-- A written scalar has the outer kind that its shape asks for. -/
theorem written_accepted (opened : Value.Opened form) {shape : Shape Entity} {type : ScalarType}
    (carries : shape.Carries type) (exact : type.isExact = true) (scalar : type.Carrier) :
    shape.accepts ((type.write scalar).carried form) = true := by
  have read := type.read_carried form opened exact scalar
  cases accepted : shape.accepts ((type.write scalar).carried form) with
  | true => rfl
  | false =>
      rw [carries_accepted carries (carries_exact_typed carries exact) _ accepted] at read
      contradiction

theorem content_accepted (options : Options) (opened : Value.Opened form)
    {spec : FieldSpec Entity} {how : FieldRead Entity} (suits : spec.Suits how) (recovers : how.Recovers)
    (found : how.Result schema.Carrier) :
    let stored := ((schema.content how found).image options).carried form
    (stored.isNull && spec.isOptional) = true ∨ spec.shape.accepts stored = true := by
  cases recovers with
  | required exact =>
      cases suits with
      | required carries => exact Or.inr (written_accepted opened carries exact found)
  | optional exact =>
      cases suits with
      | optional carries =>
          cases found with
          | none => exact Or.inl rfl
          | some scalar => exact Or.inr (written_accepted opened carries exact scalar)
  | scalarList =>
      cases suits with
      | scalarList =>
          refine Or.inr ?_
          simp only [Schema.content, Content.scalarList, Content.image, Value.carried_array]
          rfl
  | enumeration exact =>
      cases suits with
      | enumeration => exact Or.inr (case_fits opened exact found)
  | optionalEnumeration exact =>
      cases suits with
      | optionalEnumeration =>
          cases found with
          | none => exact Or.inl rfl
          | some case => exact Or.inr (case_fits opened exact case)
  | entity target =>
      cases suits with
      | entity => exact Or.inr ((accepts_entity target _).trans (entity_fits options _))
  | optionalEntity target =>
      cases suits with
      | optionalEntity =>
          cases found with
          | none => exact Or.inl rfl
          | some carrier =>
              exact Or.inr ((accepts_entity target _).trans (entity_fits options _))
  | list target =>
      cases suits with
      | list => exact Or.inr ((accepts_list target _).trans (list_fits options _))
  | optionalList target =>
      cases suits with
      | optionalList =>
          cases found with
          | none => exact Or.inl rfl
          | some carriers => exact Or.inr ((accepts_list target _).trans (list_fits options _))
  | keyed target =>
      cases suits with
      | keyed => exact Or.inr ((accepts_keyed target _).trans (keyed_fits options _))
  | optionalKeyed target =>
      cases suits with
      | optionalKeyed =>
          cases found with
          | none => exact Or.inl rfl
          | some carriers => exact Or.inr ((accepts_keyed target _).trans (keyed_fits options _))

theorem opens_list {target member : Entity} {carriers : List (schema.Carrier target)}
    {position : Option Position} {part : Value}
    (opens : (Shape.entityList target).Opens
      (((Content.list (carriers.map (schema.record target))).image options).carried form)
      member position part) :
    ∃ carrier : schema.Carrier member, part = onWire form options (schema.record member carrier) ∧
      (Content.list (carriers.map (schema.record target))).Holds (schema.record member carrier) := by
  rw [Content.image, Content.image_items, Value.carried_array, List.map_map, List.map_map] at opens
  cases opens with
  | item _ held =>
      obtain ⟨carrier, member, rfl⟩ := List.mem_map.mp (List.mem_of_getElem? held)
      exact ⟨carrier, rfl, .item (List.mem_map_of_mem member)⟩

theorem opens_keyed {target member : Entity} {carriers : List (String × schema.Carrier target)}
    {position : Option Position} {part : Value}
    (opens : (Shape.entityMap target).Opens
      (((Content.keyed (carriers.map fun entry =>
        (entry.1, schema.record target entry.2))).image options).carried form)
      member position part) :
    ∃ carrier : schema.Carrier member, part = onWire form options (schema.record member carrier) ∧
      (Content.keyed (carriers.map fun entry =>
        (entry.1, schema.record target entry.2))).Holds (schema.record member carrier) := by
  rw [Content.image, Content.image_keyed, Value.carried_object, List.map_map, List.map_map] at opens
  cases opens with
  | entry _ held =>
      obtain ⟨⟨key, carrier⟩, member, same⟩ := List.mem_map.mp held
      obtain ⟨rfl, rfl⟩ := Prod.mk.inj same
      exact ⟨carrier, rfl,
        .entry (List.mem_map_of_mem (f := fun entry => (entry.1, _)) member)⟩

theorem opens_entity {target member : Entity} {found : schema.Carrier target}
    {position : Option Position} {part : Value}
    (opens : (Shape.entity target).Opens (onWire form options (schema.record target found))
      member position part) :
    ∃ carrier : schema.Carrier member, part = onWire form options (schema.record member carrier) ∧
      (Content.entity (schema.record target found)).Holds (schema.record member carrier) := by
  generalize object : onWire form options (schema.record target found) = stored at opens
  cases opens with
  | whole => exact ⟨found, object.symm, .entity _⟩

/-- What a written field opens is itself a written entity, held by the field's content. -/
theorem content_opens {spec : FieldSpec Entity} {how : FieldRead Entity}
    (suits : spec.Suits how) (found : how.Result schema.Carrier) {member : Entity}
    {position : Option Position} {part : Value}
    (opens : spec.shape.Opens (((schema.content how found).image options).carried form) member
      position part) :
    ∃ carrier : schema.Carrier member, part = onWire form options (schema.record member carrier) ∧
      (schema.content how found).Holds (schema.record member carrier) := by
  cases suits with
  | required carries =>
      generalize Value.carried form _ = stored at opens
      cases opens <;> cases carries
  | optional carries =>
      generalize Value.carried form _ = stored at opens
      cases opens <;> cases carries
  | scalarList => cases opens
  | enumeration => cases opens
  | optionalEnumeration => cases opens
  | entity => exact opens_entity opens
  | optionalEntity =>
      cases found with
      | none => cases opens
      | some carrier => exact opens_entity opens
  | list => exact opens_list opens
  | optionalList =>
      cases found with
      | none => cases opens
      | some carriers => exact opens_list opens
  | keyed => exact opens_keyed opens
  | optionalKeyed =>
      cases found with
      | none => cases opens
      | some carriers => exact opens_keyed opens

end Schema

namespace Scope

variable [DecidableEq Entity] (scope : Scope Entity)

/-- Every validator accepts what is stored for its field, wherever in the value it is shown it. -/
def Welcomes (schema : Schema Entity) (entity : Entity) (value : Value) : Prop :=
  ∀ steps owner entries, schema.Visits scope.options entity value steps owner entries →
    ∀ spec ∈ schema.fields owner, ∀ stored,
      schema.stored? scope.options owner spec.name entries = some stored →
      (stored.isNull && spec.isOptional) = false →
      ∀ check, scope.registry.get? owner spec.name = some check → (check stored).code = none

variable {scope} {schema : Schema Entity} {form : List UInt8 → Value}
  {columns : (entity : Entity) → List (Column schema entity)}

theorem welcomes_inside {entity target : Entity} {entries : List (String × Value)}
    {spec : FieldSpec Entity} {stored part : Value} {position : Option Position}
    (welcomes : scope.Welcomes schema entity (.object entries))
    (declared : spec ∈ schema.fields entity)
    (found : schema.stored? scope.options entity spec.name entries = some stored)
    (opens : spec.shape.Opens stored target position part) :
    scope.Welcomes schema target part :=
  fun steps owner inner visit => welcomes (⟨spec.name, position⟩ :: steps) owner inner
    (.inside declared found opens visit)

/-- No place of a written entity is reported. -/
theorem not_files_on_wire (opened : Value.Opened form) (record : Record) :
    ∀ entity carrier, record = schema.record entity carrier →
      schema.WiredThrough scope.options columns entity →
      scope.Welcomes schema entity (Schema.onWire form scope.options record) →
      ∀ path descriptor, ¬ (scope.entityReport schema entity
        (Schema.onWire form scope.options record)).Files path descriptor := by
  induction record using Record.held_induction with
  | step name keys writes ih =>
      intro entity carrier same wired welcomes path descriptor files
      have here := wired entity (.here entity)
      have written := same.trans (here.writes carrier)
      obtain ⟨rfl, rfl, rfl⟩ := Record.mk.inj written
      rw [same, Schema.on_wire_entries form here carrier] at files welcomes
      obtain ⟨spec, declared, filed⟩ := (files_entity scope schema entity _ _ _).mp files
      have finding := (files_field scope schema entity spec _ _ _).mp filed
      obtain ⟨column, member, rfl⟩ := List.mem_map.mp (here.declared.mem_iff.mpr declared)
      have suits := here.suits column member
      have recovers := here.recovers column member
      have stored := Schema.stored_column form here carrier member
      have read := Schema.column_read opened suits recovers (column.field carrier) stored
        fun target inner leads holds => Schema.decode_on_wire opened _ target inner rfl
          (Schema.wired_target wired member leads)
      have well := well_read schema scope.options entity _ suits
        (Schema.recovers_typed suits recovers) read
      obtain ⟨value, held, remaining⟩ := well_read_remaining well finding
      have same := Option.some.inj (stored.symm.trans held)
      cases remaining with
      | rejected looked asked refused =>
          have accepted := welcomes [] entity _ (.here entity _) column.spec declared value held
            looked _ asked
          rw [accepted] at refused
          contradiction
      | forgiven spare present misshapen =>
          have fits := Schema.content_accepted scope.options opened suits recovers
            (column.field carrier)
          rw [same] at fits
          simp [misshapen, present] at fits
      | nested opens ended filed =>
          rw [← same] at opens
          obtain ⟨inner, part, holds⟩ := Schema.content_opens suits (column.field carrier) opens
          have entered := welcomes_inside welcomes declared stored opens
          rw [part] at filed entered
          exact ih _ (List.mem_map_of_mem member) _ holds _ inner rfl
            (Schema.wired_target wired member (Shape.opens_target opens)) entered _ _ filed

end Scope

end Interchange
