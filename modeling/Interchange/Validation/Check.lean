import Interchange.Validation.Work
import Interchange.Validation.Registry
/-!
Checking values against entity types. Presence and shape come first, with every element of a list or
keyed field and every field of a nested entity; only a value with no failure in it is shown to
the field's validator. Nothing stops at the first failure.

Checks inside a value are prepared by one pass from the leaves up, as readings are.
-/
namespace Interchange

namespace Shape

variable {Entity : Type}

/-- The outermost test; elements and nested fields are checked on their own. -/
def accepts (shape : Shape Entity) (value : Value) : Bool :=
  match shape with
  | .any => !value.isNull
  | .enumeration _ => !value.isNull
  | .bool => value.asBool?.isSome
  | .number => value.isNumber
  | .str => value.asText?.isSome
  | .bytes => value.asBinary?.isSome
  | .list => value.asArray?.isSome
  | .listOf _ => value.asArray?.isSome
  | .entityList _ => value.asArray?.isSome
  | .map => value.asObject?.isSome
  | .entity _ => value.asObject?.isSome
  | .entityMap _ => value.asObject?.isSome

def name : Shape Entity → String
  | .any => "Any"
  | .bool => "Bool"
  | .number => "Number"
  | .str => "Str"
  | .bytes => "Bytes"
  | .list => "List"
  | .map => "Map"
  | .listOf _ => "ListOf"
  | .enumeration _ => "Enum"
  | .entity _ => "Entity"
  | .entityList _ => "EntityList"
  | .entityMap _ => "EntityMap"

end Shape

def Enumeration.check (choices : Enumeration) (value : Value) : Outcome :=
  match choices.raw.read? value with
  | none => .incompatible
  | some representation => if (choices.ofRaw? representation).isSome then .valid else .unknownCase

variable {Entity : Type}

abbrev Units (Entity : Type) := List (Site × Work Entity)

-- A value together with the checks that it would take as an entity and element by element.
structure Inspection (Entity : Type) where
  value : Value
  asEntity : Entity → Units Entity
  elements : Entity → String → Units Entity

structure Scope (Entity : Type) where
  options : Options
  registry : Registry Entity
  locale : String

-- What a shape asks of a value: an answer at once, or more units to join.
inductive Demand (Entity : Type) where
  | settled (outcome : Outcome)
  | inside (units : Units Entity)

namespace Scope

variable (scope : Scope Entity)

def scalarUnits (type : ScalarType) (wireKey : String) (items : List Value) : Units Entity :=
  items.mapIdx fun index item =>
    (⟨(Position.index index).text, wireKey, some item, scope.locale⟩,
      .done (if (type.read? item).isSome then .valid else .incompatible))

def demand (shape : Shape Entity) (wireKey : String) (inspected : Inspection Entity) :
    Demand Entity :=
  if !shape.accepts inspected.value then .settled .incompatible
  else
    match shape with
    | .enumeration choices => .settled (choices.check inspected.value)
    | .listOf type =>
      .inside (scope.scalarUnits type wireKey (inspected.value.asArray?.getD []))
    | .entity target => .inside (inspected.asEntity target)
    | .entityList target => .inside (inspected.elements target wireKey)
    | .entityMap target => .inside (inspected.elements target wireKey)
    | _ => .settled .valid

/-- The validator's turn, once a value has no failure of its own. -/
def consult (owner : Option Entity) (field : String) (validator : Option Validator)
    (value : Value) (outcome : Outcome) : Work Entity :=
  if outcome.isFailure then .done outcome
  else
    match validator with
    | none => .done .valid
    | some validator =>
      let verdict := validator value
      .call ⟨owner, field, value⟩
        (Work.waiting verdict.polls
          (.done (match verdict.code with
            | some code => .rejected code
            | none => .valid)))

/-- The unit of one field against what is stored under its wire key. -/
def checkField (owner : Option Entity) (spec : FieldSpec Entity) (wireKey : String)
    (stored : Option (Inspection Entity)) (validator : Option Validator) : Work Entity :=
  match stored with
  | none => .done (if spec.isOptional then .skip else .missing)
  | some inspected =>
    if inspected.value.isNull && spec.isOptional then .done .skip
    else
      let finish := consult owner spec.name validator inspected.value
      match scope.demand spec.shape wireKey inspected with
      | .settled outcome => finish outcome
      | .inside units => .join units fun report => finish (.ofReport report)

/-- An element is checked as an entity; one that is no map fails at its own position. -/
def elementUnit (target : Entity) (wireKey : String) (position : Position)
    (inspected : Inspection Entity) : Site × Work Entity :=
  (⟨position.text, wireKey, some inspected.value, scope.locale⟩,
    match inspected.value with
    | .object _ => .join (inspected.asEntity target) fun report => .done (.ofReport report)
    | _ => .done .incompatible)

variable [DecidableEq Entity] (schema : Schema Entity)

/-- The units of all fields of one map, in the order of their declaration. -/
def fieldUnits (target : Entity) (entries : List (String × Inspection Entity)) : Units Entity :=
  (schema.fields target).map fun spec =>
    let key := wireKey (schema.wireKeys target) spec.name scope.options
    let stored := entries.lookup key
    (⟨spec.name, key, stored.map (·.value), scope.locale⟩,
      scope.checkField (some target) spec key stored (scope.registry.get? target spec.name))

def prepare (value : Value) (parts : Value.Parts (Inspection Entity)) : Inspection Entity where
  value := value
  asEntity := fun target =>
    match parts with
    | .entries entries => scope.fieldUnits schema target entries
    | _ => []
  elements := fun target wireKey =>
    match parts with
    | .none => []
    | .items items =>
      items.mapIdx fun index item => scope.elementUnit target wireKey (.index index) item
    | .entries entries =>
      entries.map fun entry => scope.elementUnit target wireKey (.key entry.1) entry.2

def inspect (value : Value) : Inspection Entity := value.fold (scope.prepare schema)

/-- All failing places of a map read as an entity, and the validator calls made to find them. -/
def validate (entity : Entity) (value : Value) :
    Except Failure (Report × List (Call Entity)) :=
  match value with
  | .object _ => .ok (joinUnits ((scope.inspect schema value).asEntity entity))
  | _ => .error (.notAMap (schema.name entity) value.kind)

end Scope

end Interchange
