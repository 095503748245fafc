import Interchange.Validation.Check
import Interchange.Proofs.JoinedUnits
import Interchange.Proofs.NestedPlaces
/-!
What the check of a field files. `FieldFinding` lists the causes: absence, a value of the wrong outer
shape, a raw value without a case, an element, something inside a nested entity, and the
verdict of a validator on a value with no failure of its own. Main statement: a field files exactly
its findings, and an entity files what its fields do.
-/
namespace Interchange

variable {Entity : Type}

namespace Value

theorem array_of_asArray (value : Value) (list : value.asArray?.isSome = true) :
    ∃ items, value = .array items := by
  cases value with
  | array items => exact ⟨items, rfl⟩
  | _ => simp [asArray?] at list

theorem object_of_asObject (value : Value) (map : value.asObject?.isSome = true) :
    ∃ entries, value = .object entries := by
  cases value with
  | object entries => exact ⟨entries, rfl⟩
  | _ => simp [asObject?] at map

end Value

-- Shapes that are satisfied by their outermost test.
def Shape.isPlain : Shape Entity → Bool
  | .enumeration _ => false
  | .listOf _ => false
  | .entity _ => false
  | .entityList _ => false
  | .entityMap _ => false
  | _ => true

namespace Outcome

theorem files_of_report (inner : Report) (site : Site) (path : String)
    (descriptor : Descriptor) :
    ((ofReport inner).report site).Files path descriptor ↔
      ∃ within, inner.Files within descriptor ∧ path = joinPath site.path within := by
  unfold ofReport
  split
  · rename_i clean
    have nothing := Report.not_files_of_isEmpty inner clean
    constructor
    · intro filed
      exact absurd filed (Report.files_empty path descriptor)
    · rintro ⟨within, filed, -⟩
      exact absurd filed (nothing within descriptor)
  · have absorbed := Report.files_absorb site.path inner .empty path descriptor
    simp only [Report.files_empty, false_or] at absorbed
    exact absorbed

/-- The outcome after the validator's turn, which comes only to a value without failures. -/
def judged (validator : Option Validator) (value : Value) (outcome : Outcome) : Outcome :=
  if outcome.isFailure then outcome
  else
    match validator.bind fun check => (check value).code with
    | some code => .rejected code
    | none => .valid

end Outcome

namespace Scope

variable (scope : Scope Entity)

theorem consult_outcome (owner : Option Entity) (field : String) (validator : Option Validator)
    (value : Value) (outcome : Outcome) :
    (consult owner field validator value outcome).outcome = outcome.judged validator value := by
  unfold consult Outcome.judged
  split
  · rfl
  · cases validator with
    | none => rfl
    | some check =>
        rw [Work.outcome_call, Work.outcome_waiting, Option.bind_some]
        cases (check value).code with
        | none => rfl
        | some code => rfl

variable [DecidableEq Entity] (schema : Schema Entity)

theorem inspect_value (value : Value) : (scope.inspect schema value).value = value := by
  cases value <;> rfl

theorem inspect_object (entries : List (String × Value)) (target : Entity) :
    (scope.inspect schema (.object entries)).asEntity target =
      scope.fieldUnits schema target
        (entries.map fun entry => (entry.1, scope.inspect schema entry.2)) := by
  rw [inspect, Value.fold_object]
  rfl

theorem inspect_other (value : Value) (target : Entity) (scalar : value.asObject? = none) :
    (scope.inspect schema value).asEntity target = [] := by
  cases value with
  | object entries => simp [Value.asObject?] at scalar
  | _ => rfl

/-- The report of a value read as an entity. -/
def entityReport (target : Entity) (value : Value) : Report :=
  (joinUnits ((scope.inspect schema value).asEntity target)).1

/-- What presence and shape make of a stored value, before any validator of the field itself. -/
def shapeOutcome (shape : Shape Entity) (key : String) (stored : Value) : Outcome :=
  match scope.demand shape key (scope.inspect schema stored) with
  | .settled outcome => outcome
  | .inside units => .ofReport (joinUnits units).1

def fieldOutcome (spec : FieldSpec Entity) (key : String) (validator : Option Validator) :
    Option Value → Outcome
  | none => if spec.isOptional then .skip else .missing
  | some stored =>
    if stored.isNull && spec.isOptional then .skip
    else (scope.shapeOutcome schema spec.shape key stored).judged validator stored

theorem check_field_outcome (owner : Option Entity) (spec : FieldSpec Entity) (key : String)
    (validator : Option Validator) (stored : Option Value) :
    (scope.checkField owner spec key (stored.map (scope.inspect schema)) validator).outcome =
      scope.fieldOutcome schema spec key validator stored := by
  cases stored with
  | none => rfl
  | some value =>
      simp only [Option.map_some, checkField, inspect_value, fieldOutcome, shapeOutcome]
      by_cases skipped : (value.isNull && spec.isOptional) = true
      · simp [skipped]
      · simp only [skipped]
        cases scope.demand spec.shape key (scope.inspect schema value) with
        | settled outcome => exact consult_outcome _ _ _ _ _
        | inside units =>
            simp only [Bool.false_eq_true, ↓reduceIte, Work.outcome_join]
            exact consult_outcome _ _ _ _ _

def fieldSite (entity : Entity) (spec : FieldSpec Entity)
    (entries : List (String × Value)) : Site :=
  ⟨spec.name, wireKey (schema.wireKeys entity) spec.name scope.options,
    schema.stored? scope.options entity spec.name entries, scope.locale⟩

/-- The report of one declared field of a map. -/
def fieldReport (entity : Entity) (spec : FieldSpec Entity) (entries : List (String × Value)) :
    Report :=
  let site := scope.fieldSite schema entity spec entries
  (scope.fieldOutcome schema spec site.wireKey (scope.registry.get? entity spec.name)
    site.raw).report site

/-- The units of a map, field by field, with what is stored under the fields' keys. -/
theorem field_units_object (entity : Entity) (entries : List (String × Value)) :
    (scope.inspect schema (.object entries)).asEntity entity =
      (schema.fields entity).map fun spec =>
        (scope.fieldSite schema entity spec entries,
          scope.checkField (some entity) spec
            (wireKey (schema.wireKeys entity) spec.name scope.options)
            ((schema.stored? scope.options entity spec.name entries).map (scope.inspect schema))
            (scope.registry.get? entity spec.name)) := by
  have unchanged : (fun inspected : Inspection Entity => inspected.value) ∘
      (fun value => scope.inspect schema value) = id := by
    funext value
    exact inspect_value scope schema value
  rw [inspect_object, fieldUnits]
  refine List.map_congr_left fun spec _ => ?_
  simp only [Value.lookup_map_values, Option.map_map, unchanged, Option.map_id, id]
  rfl

theorem files_entity (entity : Entity) (entries : List (String × Value)) (path : String)
    (descriptor : Descriptor) :
    (scope.entityReport schema entity (.object entries)).Files path descriptor ↔
      ∃ spec ∈ schema.fields entity,
        (scope.fieldReport schema entity spec entries).Files path descriptor := by
  rw [entityReport, files_join, field_units_object]
  simp only [List.mem_map]
  constructor
  · rintro ⟨unit, ⟨spec, declared, rfl⟩, filed⟩
    rw [check_field_outcome] at filed
    exact ⟨spec, declared, filed⟩
  · rintro ⟨spec, declared, filed⟩
    refine ⟨_, ⟨spec, declared, rfl⟩, ?_⟩
    rw [check_field_outcome]
    exact filed

theorem not_files_other (target : Entity) (value : Value) (scalar : value.asObject? = none)
    (path : String) (descriptor : Descriptor) :
    ¬ (scope.entityReport schema target value).Files path descriptor := by
  rw [entityReport, files_join, inspect_other scope schema value target scalar]
  simp

theorem validate_object (entity : Entity) (entries : List (String × Value)) :
    scope.validate schema entity (.object entries) =
      .ok (scope.entityReport schema entity (.object entries),
        (joinUnits ((scope.inspect schema (.object entries)).asEntity entity)).2) := rfl

/-! Elements: scalars on their own, everything else as an entity. -/

omit [DecidableEq Entity] in
theorem files_scalar_units (type : ScalarType) (key : String) (items : List Value)
    (within : String) (descriptor : Descriptor) :
    (joinUnits (scope.scalarUnits type key items)).1.Files within descriptor ↔
      ∃ index item, items[index]? = some item ∧ type.read? item = none ∧
        within = (Position.index index).text ∧
        descriptor = ⟨.incompatible, none, key, some item, scope.locale⟩ := by
  rw [files_join, scalarUnits]
  simp only [List.mem_mapIdx]
  constructor
  · rintro ⟨unit, ⟨index, inside, rfl⟩, filed⟩
    refine ⟨index, items[index], List.getElem?_eq_getElem inside, ?_⟩
    cases read : type.read? items[index] with
    | some found =>
        simp only [Work.outcome_done, read, Option.isSome_some, ↓reduceIte] at filed
        exact absurd filed (Report.files_empty _ _)
    | none =>
        simp only [Work.outcome_done, read, Option.isSome_none, Bool.false_eq_true,
          ↓reduceIte] at filed
        exact ⟨rfl, (Report.files_single _ _ _ _).mp filed⟩
  · rintro ⟨index, item, held, refused, rfl, rfl⟩
    obtain ⟨inside, rfl⟩ := List.getElem?_eq_some_iff.mp held
    refine ⟨_, ⟨index, inside, rfl⟩, ?_⟩
    simp only [Work.outcome_done, refused, Option.isSome_none, Bool.false_eq_true, ↓reduceIte]
    exact (Report.files_single _ _ _ _).mpr ⟨rfl, rfl⟩

/-- What the check of an element finds: what is filed inside it, or that it is no map. -/
def ElementFinding (target : Entity) (key : String) (position : Position) (item : Value)
    (within : String) (descriptor : Descriptor) : Prop :=
  (∃ inner, (scope.entityReport schema target item).Files inner descriptor ∧
    within = joinPath position.text inner) ∨
  (item.asObject? = none ∧ within = position.text ∧
    descriptor = ⟨.incompatible, none, key, some item, scope.locale⟩)

theorem files_element (target : Entity) (key : String) (position : Position) (item : Value)
    (within : String) (descriptor : Descriptor) :
    let unit := scope.elementUnit target key position (scope.inspect schema item)
    (unit.2.outcome.report unit.1).Files within descriptor ↔
      scope.ElementFinding schema target key position item within descriptor := by
  intro unit
  cases object : item.asObject? with
  | some entries =>
      obtain rfl : item = .object entries := by
        cases item <;> simp_all [Value.asObject?]
      have ended : unit.2.outcome =
          .ofReport (scope.entityReport schema target (.object entries)) := by
        simp only [unit, elementUnit, inspect_value, Work.outcome_join, Work.outcome_done]
        rfl
      rw [ended, Outcome.files_of_report]
      simp [unit, elementUnit, ElementFinding, Value.asObject?]
  | none =>
      have ended : unit.2.outcome = .incompatible := by
        cases item <;> simp_all [unit, elementUnit, inspect_value, Value.asObject?]
      have nothing := not_files_other scope schema target item object
      rw [ended, Outcome.report, Report.files_single]
      simp [unit, elementUnit, inspect_value, nothing, ElementFinding, object]

/-- What the shape of a field finds wrong with a stored value. -/
inductive ShapeFinding (name : String) (shape : Shape Entity) (key : String) :
    Value → String → Descriptor → Prop where
  | refused {stored : Value} (refused : shape.accepts stored = false) :
      ShapeFinding name shape key stored name
        ⟨.incompatible, none, key, some stored, scope.locale⟩
  | wrongRaw {stored : Value} {choices : Enumeration} (judged : shape = .enumeration choices)
      (present : stored.isNull = false) (wrong : choices.raw.read? stored = none) :
      ShapeFinding name shape key stored name
        ⟨.incompatible, none, key, some stored, scope.locale⟩
  | unknownCase {stored : Value} {choices : Enumeration} {raw : choices.raw.Carrier}
      (judged : shape = .enumeration choices) (present : stored.isNull = false)
      (read : choices.raw.read? stored = some raw) (unknown : choices.ofRaw? raw = none) :
      ShapeFinding name shape key stored name
        ⟨.unknownCase, none, key, some stored, scope.locale⟩
  | element {items : List Value} {type : ScalarType} {index : Nat} {item : Value}
      (judged : shape = .listOf type) (held : items[index]? = some item)
      (refused : type.read? item = none) :
      ShapeFinding name shape key (.array items) (Step.text ⟨name, some (.index index)⟩)
        ⟨.incompatible, none, key, some item, scope.locale⟩
  | notAMap {stored part : Value} {target : Entity} {position : Option Position}
      (opens : shape.Opens stored target position part) (scalar : part.asObject? = none) :
      ShapeFinding name shape key stored (Step.text ⟨name, position⟩)
        ⟨.incompatible, none, key, some part, scope.locale⟩
  | nested {stored part : Value} {target : Entity} {position : Option Position}
      {within : String} {descriptor : Descriptor}
      (opens : shape.Opens stored target position part)
      (filed : (scope.entityReport schema target part).Files within descriptor) :
      ShapeFinding name shape key stored (joinPath (Step.text ⟨name, position⟩) within)
        descriptor

theorem shape_refused (shape : Shape Entity) (key : String) (stored : Value)
    (refused : shape.accepts stored = false) :
    scope.shapeOutcome schema shape key stored = .incompatible := by
  simp [shapeOutcome, demand, inspect_value, refused]

/-! What an accepted value comes to, shape by shape. -/

theorem shape_outcome_enumeration (choices : Enumeration) (key : String) (stored : Value)
    (present : stored.isNull = false) :
    scope.shapeOutcome schema (.enumeration choices) key stored = choices.check stored := by
  simp [shapeOutcome, demand, inspect_value, Shape.accepts, present]

theorem shape_outcome_list_of (type : ScalarType) (key : String) (items : List Value) :
    scope.shapeOutcome schema (.listOf type) key (.array items) =
      .ofReport (joinUnits (scope.scalarUnits type key items)).1 := by
  simp [shapeOutcome, demand, inspect_value, Shape.accepts, Value.asArray?]

theorem shape_outcome_entity (target : Entity) (key : String) (entries : List (String × Value)) :
    scope.shapeOutcome schema (.entity target) key (.object entries) =
      .ofReport (scope.entityReport schema target (.object entries)) := by
  simp [shapeOutcome, demand, inspect_value, Shape.accepts, Value.asObject?, entityReport]

theorem shape_outcome_list (target : Entity) (key : String) (items : List Value) :
    scope.shapeOutcome schema (.entityList target) key (.array items) =
      .ofReport (joinUnits ((scope.inspect schema (.array items)).elements target key)).1 := by
  simp [shapeOutcome, demand, inspect_value, Shape.accepts, Value.asArray?]

theorem shape_outcome_map (target : Entity) (key : String) (entries : List (String × Value)) :
    scope.shapeOutcome schema (.entityMap target) key (.object entries) =
      .ofReport (joinUnits ((scope.inspect schema (.object entries)).elements target key)).1 := by
  simp [shapeOutcome, demand, inspect_value, Shape.accepts, Value.asObject?]

theorem files_opened_list (target : Entity) (key : String) (items : List Value) (within : String)
    (descriptor : Descriptor) :
    (joinUnits ((scope.inspect schema (.array items)).elements target key)).1.Files within
        descriptor ↔
      ∃ position part, (Shape.entityList target).Opens (.array items) target (some position) part ∧
        scope.ElementFinding schema target key position part within descriptor := by
  rw [inspect, Value.fold_array, files_join]
  simp only [prepare, List.mem_mapIdx, List.length_map, List.getElem_map]
  constructor
  · rintro ⟨unit, ⟨index, inside, rfl⟩, filed⟩
    exact ⟨_, _, .item target (List.getElem?_eq_getElem inside),
      (files_element scope schema target key _ _ within descriptor).mp filed⟩
  · rintro ⟨position, part, opens, found⟩
    cases opens with
    | item _ held =>
        obtain ⟨inside, rfl⟩ := List.getElem?_eq_some_iff.mp held
        exact ⟨_, ⟨_, inside, rfl⟩,
          (files_element scope schema target key _ _ within descriptor).mpr found⟩

theorem files_opened_map (target : Entity) (key : String) (entries : List (String × Value))
    (within : String) (descriptor : Descriptor) :
    (joinUnits ((scope.inspect schema (.object entries)).elements target key)).1.Files within
        descriptor ↔
      ∃ position part, (Shape.entityMap target).Opens (.object entries) target (some position) part ∧
        scope.ElementFinding schema target key position part within descriptor := by
  rw [inspect, Value.fold_object, files_join]
  simp only [prepare, List.map_map, List.mem_map]
  constructor
  · rintro ⟨unit, ⟨⟨name, item⟩, held, rfl⟩, filed⟩
    exact ⟨_, _, .entry target held,
      (files_element scope schema target key _ _ within descriptor).mp filed⟩
  · rintro ⟨position, part, opens, found⟩
    cases opens with
    | entry _ held =>
        exact ⟨_, ⟨_, held, rfl⟩,
          (files_element scope schema target key _ _ within descriptor).mpr found⟩

/-- An element found wrong inside a field, with its position and the field's name in one path. -/
theorem opened_finding {name : String} {shape : Shape Entity} {key : String}
    {stored part : Value} {target : Entity} {position : Position} {within : String}
    {descriptor : Descriptor} (opens : shape.Opens stored target (some position) part)
    (found : scope.ElementFinding schema target key position part within descriptor) :
    scope.ShapeFinding schema name shape key stored (joinPath name within) descriptor := by
  rcases found with ⟨inner, filed, rfl⟩ | ⟨scalar, rfl, rfl⟩
  · rw [join_join_position, ← step_text_position]
    exact .nested opens filed
  · rw [join_position_alone, ← step_text_position]
    exact .notAMap opens scalar

/-- Behind the outermost test, only shapes that look inside a value find anything. -/
theorem accepted_finding {name : String} {shape : Shape Entity} {key : String} {stored : Value}
    {path : String} {descriptor : Descriptor} (accepted : shape.accepts stored = true)
    (finding : scope.ShapeFinding schema name shape key stored path descriptor) :
    (∃ choices, shape = .enumeration choices) ∨ (∃ type, shape = .listOf type) ∨
      ∃ target, shape.target? = some target := by
  cases finding with
  | refused refused =>
      rw [accepted] at refused
      contradiction
  | wrongRaw judged => exact Or.inl ⟨_, judged⟩
  | unknownCase judged => exact Or.inl ⟨_, judged⟩
  | element judged => exact Or.inr (Or.inl ⟨_, judged⟩)
  | notAMap opens => exact Or.inr (Or.inr ⟨_, Shape.opens_target opens⟩)
  | nested opens => exact Or.inr (Or.inr ⟨_, Shape.opens_target opens⟩)

theorem files_shape_plain (name : String) (shape : Shape Entity) (key : String) (stored : Value)
    (path : String) (descriptor : Descriptor) (accepted : shape.accepts stored = true)
    (plain : shape.isPlain = true) :
    ((scope.shapeOutcome schema shape key stored).report
        ⟨name, key, some stored, scope.locale⟩).Files path descriptor ↔
      scope.ShapeFinding schema name shape key stored path descriptor := by
  have passes : scope.shapeOutcome schema shape key stored = .valid := by
    cases shape <;> simp_all [Shape.isPlain, shapeOutcome, demand, inspect_value]
  rw [passes, Outcome.report]
  constructor
  · intro filed
    exact absurd filed (Report.files_empty path descriptor)
  · intro finding
    rcases accepted_finding scope schema accepted finding with
      ⟨choices, rfl⟩ | ⟨type, rfl⟩ | ⟨target, leads⟩
    · simp [Shape.isPlain] at plain
    · simp [Shape.isPlain] at plain
    · cases shape <;> simp [Shape.isPlain, Shape.target?] at plain leads

theorem files_shape_enumeration (name : String) (choices : Enumeration) (key : String)
    (stored : Value) (path : String) (descriptor : Descriptor) (present : stored.isNull = false) :
    ((scope.shapeOutcome schema (.enumeration choices) key stored).report
        ⟨name, key, some stored, scope.locale⟩).Files path descriptor ↔
      scope.ShapeFinding schema name (.enumeration choices) key stored path descriptor := by
  rw [scope.shape_outcome_enumeration schema choices key stored present, Enumeration.check]
  constructor
  · intro filed
    cases read : choices.raw.read? stored with
    | none =>
        simp only [read, Outcome.report, Report.files_single] at filed
        obtain ⟨rfl, rfl⟩ := filed
        exact .wrongRaw rfl present read
    | some raw =>
        simp only [read] at filed
        cases named : choices.ofRaw? raw with
        | some case =>
            simp only [named, Option.isSome_some, ↓reduceIte] at filed
            exact absurd filed (Report.files_empty path descriptor)
        | none =>
            simp only [named, Option.isSome_none, Bool.false_eq_true, ↓reduceIte,
              Outcome.report, Report.files_single] at filed
            obtain ⟨rfl, rfl⟩ := filed
            exact .unknownCase rfl present read named
  · intro finding
    cases finding with
    | refused refused => simp [Shape.accepts, present] at refused
    | wrongRaw judged _ wrong =>
        cases judged
        simp [wrong, Outcome.report, Report.files_single]
    | unknownCase judged _ read unknown =>
        cases judged
        simp [read, unknown, Outcome.report, Report.files_single]
    | element judged => cases judged
    | notAMap opens => cases opens
    | nested opens => cases opens

theorem files_shape_list_of (name : String) (type : ScalarType) (key : String)
    (items : List Value) (path : String) (descriptor : Descriptor) :
    ((scope.shapeOutcome schema (.listOf type) key (.array items)).report
        ⟨name, key, some (.array items), scope.locale⟩).Files path descriptor ↔
      scope.ShapeFinding schema name (.listOf type) key (.array items) path descriptor := by
  rw [shape_outcome_list_of, Outcome.files_of_report]
  constructor
  · rintro ⟨within, filed, rfl⟩
    obtain ⟨index, item, held, refused, rfl, rfl⟩ :=
      (files_scalar_units scope type key items within descriptor).mp filed
    rw [join_position_alone, ← step_text_position]
    exact .element rfl held refused
  · intro finding
    cases finding with
    | refused refused => simp [Shape.accepts, Value.asArray?] at refused
    | wrongRaw judged => cases judged
    | unknownCase judged => cases judged
    | element judged held refused =>
        cases judged
        exact ⟨_, (files_scalar_units scope type key items _ _).mpr
          ⟨_, _, held, refused, rfl, rfl⟩, by rw [step_text_position, join_position_alone]⟩
    | notAMap opens => cases opens
    | nested opens => cases opens

theorem files_shape_entity (name : String) (target : Entity) (key : String)
    (entries : List (String × Value)) (path : String) (descriptor : Descriptor) :
    ((scope.shapeOutcome schema (.entity target) key (.object entries)).report
        ⟨name, key, some (.object entries), scope.locale⟩).Files path descriptor ↔
      scope.ShapeFinding schema name (.entity target) key (.object entries) path
        descriptor := by
  rw [shape_outcome_entity, Outcome.files_of_report]
  constructor
  · rintro ⟨within, filed, rfl⟩
    have nested : scope.ShapeFinding schema name (.entity target) key (.object entries)
        (joinPath (Step.text ⟨name, none⟩) within) descriptor :=
      .nested (.whole target entries) filed
    rwa [step_text_whole] at nested
  · intro finding
    cases finding with
    | refused refused => simp [Shape.accepts, Value.asObject?] at refused
    | wrongRaw judged => cases judged
    | unknownCase judged => cases judged
    | notAMap opens scalar =>
        cases opens
        simp [Value.asObject?] at scalar
    | nested opens filed =>
        cases opens
        exact ⟨_, filed, by rw [step_text_whole]⟩

/-- A shape of many entities finds what the checks of its elements find. -/
theorem files_shape_elements (name : String) {shape : Shape Entity} {target : Entity}
    (many : shape = .entityList target ∨ shape = .entityMap target) (key : String)
    (stored : Value) (accepted : shape.accepts stored = true) {report : Report}
    (joined : scope.shapeOutcome schema shape key stored = .ofReport report) (path : String)
    (descriptor : Descriptor)
    (elements : ∀ within, report.Files within descriptor ↔
      ∃ position part, shape.Opens stored target (some position) part ∧
        scope.ElementFinding schema target key position part within descriptor) :
    ((scope.shapeOutcome schema shape key stored).report
        ⟨name, key, some stored, scope.locale⟩).Files path descriptor ↔
      scope.ShapeFinding schema name shape key stored path descriptor := by
  rw [joined, Outcome.files_of_report]
  simp only [elements]
  -- A part is opened at a position of the only type of entity that the shape names.
  have placed : ∀ {member : Entity} {position : Option Position} {part : Value},
      shape.Opens stored member position part →
        member = target ∧ ∃ place, position = some place := by
    intro member position part opens
    rcases many with rfl | rfl
    · cases opens
      exact ⟨rfl, _, rfl⟩
    · cases opens
      exact ⟨rfl, _, rfl⟩
  constructor
  · rintro ⟨within, ⟨position, part, opens, found⟩, rfl⟩
    exact opened_finding scope schema opens found
  · intro finding
    cases finding with
    | refused refused =>
        rw [accepted] at refused
        contradiction
    | wrongRaw judged => rcases many with rfl | rfl <;> cases judged
    | unknownCase judged => rcases many with rfl | rfl <;> cases judged
    | element judged => rcases many with rfl | rfl <;> cases judged
    | notAMap opens scalar =>
        obtain ⟨rfl, place, rfl⟩ := placed opens
        exact ⟨_, ⟨place, _, opens, Or.inr ⟨scalar, rfl, rfl⟩⟩,
          by rw [step_text_position, join_position_alone]⟩
    | nested opens filed =>
        obtain ⟨rfl, place, rfl⟩ := placed opens
        exact ⟨_, ⟨place, _, opens, Or.inl ⟨_, filed, rfl⟩⟩,
          by rw [step_text_position, join_join_position]⟩

theorem files_shape_list (name : String) (target : Entity) (key : String) (items : List Value)
    (path : String) (descriptor : Descriptor) :
    ((scope.shapeOutcome schema (.entityList target) key (.array items)).report
        ⟨name, key, some (.array items), scope.locale⟩).Files path descriptor ↔
      scope.ShapeFinding schema name (.entityList target) key (.array items) path
        descriptor := by
  exact files_shape_elements scope schema name (Or.inl rfl) key _ rfl
    (scope.shape_outcome_list schema target key items) path descriptor
    fun within => files_opened_list scope schema target key items within descriptor

theorem files_shape_map (name : String) (target : Entity) (key : String)
    (entries : List (String × Value)) (path : String) (descriptor : Descriptor) :
    ((scope.shapeOutcome schema (.entityMap target) key (.object entries)).report
        ⟨name, key, some (.object entries), scope.locale⟩).Files path descriptor ↔
      scope.ShapeFinding schema name (.entityMap target) key (.object entries) path
        descriptor := by
  exact files_shape_elements scope schema name (Or.inr rfl) key _ rfl
    (scope.shape_outcome_map schema target key entries) path descriptor
    fun within => files_opened_map scope schema target key entries within descriptor

theorem files_shape (name : String) (shape : Shape Entity) (key : String) (stored : Value)
    (path : String) (descriptor : Descriptor) :
    ((scope.shapeOutcome schema shape key stored).report
        ⟨name, key, some stored, scope.locale⟩).Files path descriptor ↔
      scope.ShapeFinding schema name shape key stored path descriptor := by
  cases accepted : shape.accepts stored with
  | false =>
      rw [shape_refused scope schema shape key stored accepted, Outcome.report,
        Report.files_single]
      constructor
      · rintro ⟨rfl, rfl⟩
        exact .refused accepted
      · intro finding
        cases finding with
        | refused => exact ⟨rfl, rfl⟩
        | wrongRaw judged present =>
            subst judged
            simp [Shape.accepts, present] at accepted
        | unknownCase judged present =>
            subst judged
            simp [Shape.accepts, present] at accepted
        | element judged =>
            subst judged
            simp [Shape.accepts, Value.asArray?] at accepted
        | notAMap opens =>
            cases opens <;> simp [Shape.accepts, Value.asArray?, Value.asObject?] at accepted
        | nested opens =>
            cases opens <;> simp [Shape.accepts, Value.asArray?, Value.asObject?] at accepted
  | true =>
      cases shape with
      | enumeration choices =>
          have present : stored.isNull = false := by simpa [Shape.accepts] using accepted
          exact files_shape_enumeration scope schema name choices key stored path descriptor present
      | listOf type =>
          obtain ⟨items, rfl⟩ := Value.array_of_asArray stored accepted
          exact files_shape_list_of scope schema name type key items path descriptor
      | entity target =>
          obtain ⟨entries, rfl⟩ := Value.object_of_asObject stored accepted
          exact files_shape_entity scope schema name target key entries path descriptor
      | entityList target =>
          obtain ⟨items, rfl⟩ := Value.array_of_asArray stored accepted
          exact files_shape_list scope schema name target key items path descriptor
      | entityMap target =>
          obtain ⟨entries, rfl⟩ := Value.object_of_asObject stored accepted
          exact files_shape_map scope schema name target key entries path descriptor
      | _ => exact files_shape_plain scope schema name _ key stored path descriptor accepted rfl

/-- What the check of a field finds: absence, whatever its shape finds, or a rejection. -/
inductive FieldFinding (spec : FieldSpec Entity) (key : String)
    (validator : Option Validator) : Option Value → String → Descriptor → Prop where
  | missing (needed : spec.isOptional = false) :
      FieldFinding spec key validator none spec.name ⟨.missing, none, key, none, scope.locale⟩
  | shape {stored : Value} {path : String} {descriptor : Descriptor}
      (looked : (stored.isNull && spec.isOptional) = false)
      (finding : scope.ShapeFinding schema spec.name spec.shape key stored path descriptor) :
      FieldFinding spec key validator (some stored) path descriptor
  | rejected {stored : Value} {check : Validator} {code : String}
      (looked : (stored.isNull && spec.isOptional) = false)
      (clean : (scope.shapeOutcome schema spec.shape key stored).isFailure = false)
      (asked : validator = some check) (refused : (check stored).code = some code) :
      FieldFinding spec key validator (some stored) spec.name
        ⟨.rejected, some code, key, some stored, scope.locale⟩

theorem not_files_passing (outcome : Outcome) (site : Site) (passes : outcome.isFailure = false)
    (path : String) (descriptor : Descriptor) :
    ¬ (outcome.report site).Files path descriptor := by
  cases outcome with
  | valid => exact Report.files_empty path descriptor
  | skip => exact Report.files_empty path descriptor
  | _ => simp [Outcome.isFailure] at passes

theorem files_judged (spec : FieldSpec Entity) (key : String) (validator : Option Validator)
    (stored : Value) (looked : (stored.isNull && spec.isOptional) = false) (path : String)
    (descriptor : Descriptor) :
    (((scope.shapeOutcome schema spec.shape key stored).judged validator stored).report
        ⟨spec.name, key, some stored, scope.locale⟩).Files path descriptor ↔
      scope.FieldFinding schema spec key validator (some stored) path descriptor := by
  have shapes := files_shape scope schema spec.name spec.shape key stored path descriptor
  cases failed : (scope.shapeOutcome schema spec.shape key stored).isFailure with
  | true =>
      simp only [Outcome.judged, failed, ↓reduceIte]
      rw [shapes]
      constructor
      · exact .shape looked
      · intro finding
        cases finding with
        | shape _ finding => exact finding
        | rejected _ clean =>
            rw [failed] at clean
            contradiction
  | false =>
      have nothing := not_files_passing _ ⟨spec.name, key, some stored, scope.locale⟩ failed
        path descriptor
      simp only [Outcome.judged, failed, Bool.false_eq_true, ↓reduceIte]
      constructor
      · intro filed
        cases asked : validator with
        | none =>
            simp only [asked, Option.bind_none] at filed
            exact absurd filed (Report.files_empty path descriptor)
        | some check =>
            cases verdict : (check stored).code with
            | none =>
                simp only [asked, Option.bind_some, verdict] at filed
                exact absurd filed (Report.files_empty path descriptor)
            | some code =>
                simp only [asked, Option.bind_some, verdict, Outcome.report,
                  Report.files_single] at filed
                obtain ⟨rfl, rfl⟩ := filed
                exact .rejected looked failed rfl verdict
      · intro finding
        cases finding with
        | shape _ finding => exact absurd (shapes.mpr finding) nothing
        | rejected _ _ asked refused =>
            simp [asked, refused, Outcome.report, Report.files_single]

theorem files_field (entity : Entity) (spec : FieldSpec Entity)
    (entries : List (String × Value)) (path : String) (descriptor : Descriptor) :
    (scope.fieldReport schema entity spec entries).Files path descriptor ↔
      scope.FieldFinding schema spec (wireKey (schema.wireKeys entity) spec.name scope.options)
        (scope.registry.get? entity spec.name)
        (schema.stored? scope.options entity spec.name entries) path descriptor := by
  simp only [fieldReport, fieldSite]
  cases schema.stored? scope.options entity spec.name entries with
  | none =>
      rw [fieldOutcome]
      cases spare : spec.isOptional with
      | true =>
          constructor
          · intro filed
            exact absurd filed (Report.files_empty path descriptor)
          · intro finding
            cases finding with
            | missing needed => simp [spare] at needed
      | false =>
          simp only [Bool.false_eq_true, ↓reduceIte, Outcome.report, Report.files_single]
          constructor
          · rintro ⟨rfl, rfl⟩
            exact .missing spare
          · intro finding
            cases finding with
            | missing => exact ⟨rfl, rfl⟩
  | some stored =>
      rw [fieldOutcome]
      cases skipped : stored.isNull && spec.isOptional with
      | true =>
          constructor
          · intro filed
            exact absurd filed (Report.files_empty path descriptor)
          · intro finding
            cases finding with
            | shape looked => simp [skipped] at looked
            | rejected looked => simp [skipped] at looked
      | false =>
          simp only [Bool.false_eq_true, ↓reduceIte]
          exact files_judged scope schema spec _ _ stored skipped path descriptor

theorem element_sound (target : Entity) (key : String) (position : Position) (item : Value)
    (inner : (scope.entityReport schema target item).WellFormed) :
    (scope.elementUnit target key position (scope.inspect schema item)).2.outcome.Sound := by
  cases object : item.asObject? with
  | some entries =>
      obtain ⟨entries, rfl⟩ := Value.object_of_asObject item (by simp [object])
      have ended := of_report_sound _ inner
      simpa [elementUnit, inspect_value, entityReport] using ended
  | none =>
      have ended : (scope.elementUnit target key position
          (scope.inspect schema item)).2.outcome = .incompatible := by
        cases item <;> simp_all [elementUnit, inspect_value, Value.asObject?]
      rw [ended]
      trivial

theorem shape_outcome_sound (shape : Shape Entity) (key : String) (stored : Value)
    (inner : ∀ target part, part = stored ∨ Value.Inside part stored →
      (scope.entityReport schema target part).WellFormed) :
    (scope.shapeOutcome schema shape key stored).Sound := by
  cases accepted : shape.accepts stored with
  | false =>
      rw [shape_refused scope schema shape key stored accepted]
      trivial
  | true =>
      cases shape with
      | enumeration choices =>
          simp only [shapeOutcome, demand, inspect_value, accepted, Bool.not_true,
            Bool.false_eq_true, ↓reduceIte, Enumeration.check]
          cases choices.raw.read? stored with
          | none => trivial
          | some raw =>
              change (if (choices.ofRaw? raw).isSome then Outcome.valid else .unknownCase).Sound
              split <;> trivial
      | listOf type =>
          simp only [shapeOutcome, demand, inspect_value, accepted]
          apply of_report_sound
          apply join_wellformed
          intro unit member
          simp only [scalarUnits, List.mem_mapIdx] at member
          obtain ⟨index, inside, rfl⟩ := member
          simp only [Work.outcome_done]
          split <;> trivial
      | entity target =>
          simp only [shapeOutcome, demand, inspect_value, accepted]
          exact of_report_sound _ (inner target stored (Or.inl rfl))
      | entityList target =>
          obtain ⟨items, rfl⟩ := Value.array_of_asArray stored accepted
          simp only [shapeOutcome, demand, inspect_value, accepted]
          apply of_report_sound
          apply join_wellformed
          rw [inspect, Value.fold_array]
          intro unit member
          simp only [prepare, List.mem_mapIdx, List.length_map, List.getElem_map] at member
          obtain ⟨index, inside, rfl⟩ := member
          exact element_sound scope schema target key _ _
            (inner target _ (Or.inr (.item (List.getElem_mem inside))))
      | entityMap target =>
          obtain ⟨entries, rfl⟩ := Value.object_of_asObject stored accepted
          simp only [shapeOutcome, demand, inspect_value, accepted]
          apply of_report_sound
          apply join_wellformed
          rw [inspect, Value.fold_object]
          intro unit member
          simp only [prepare, List.map_map, List.mem_map] at member
          obtain ⟨⟨name, item⟩, held, rfl⟩ := member
          exact element_sound scope schema target key _ _ (inner target item (Or.inr (.entry held)))
      | _ => simp [shapeOutcome, demand, inspect_value, accepted, Outcome.Sound]

theorem field_outcome_sound (spec : FieldSpec Entity) (key : String)
    (validator : Option Validator) (stored : Option Value)
    (inner : ∀ value, stored = some value → ∀ target part,
      part = value ∨ Value.Inside part value →
        (scope.entityReport schema target part).WellFormed) :
    (scope.fieldOutcome schema spec key validator stored).Sound := by
  cases stored with
  | none =>
      rw [fieldOutcome]
      split <;> trivial
  | some value =>
      rw [fieldOutcome]
      split
      · trivial
      · have shaped := shape_outcome_sound scope schema spec.shape key value (inner value rfl)
        unfold Outcome.judged
        split
        · exact shaped
        · split <;> trivial

/-- Every report of an entity keeps its paths ascending and its lists filled. -/
theorem entity_report_wellformed (value : Value) :
    ∀ target, (scope.entityReport schema target value).WellFormed := by
  induction value using Value.inside_induction with
  | step value ih =>
      intro target
      cases object : value.asObject? with
      | none =>
          rw [entityReport, inspect_other scope schema value target object]
          exact Report.empty_wellformed
      | some found =>
          obtain ⟨entries, rfl⟩ := Value.object_of_asObject value (by simp [object])
          rw [entityReport, field_units_object]
          apply join_wellformed
          intro unit member
          obtain ⟨spec, declared, rfl⟩ := List.mem_map.mp member
          rw [check_field_outcome]
          apply field_outcome_sound
          intro stored found target part part_of
          have held : Value.Inside stored (.object entries) :=
            .entry (Value.mem_of_lookup _ _ _ found)
          rcases part_of with rfl | deeper
          · exact ih _ held target
          · exact ih _ (.deeper deeper held) target

end Scope

end Interchange
