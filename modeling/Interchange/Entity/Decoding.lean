import Interchange.Entity.Schema
/-!
Building entities from values, without validators. One pass from the leaves up prepares every
value inside a map to be read as any entity, as a list of entities or as a keyed collection of
them; a reading then asks for its fields under their wire keys.

The first failing element of a list or a keyed collection is the one reported, wrapped with its
position.
-/
namespace Interchange

variable {Entity : Type}

-- A value together with what its readings as entities yield.
structure Part (Carrier : Entity → Type) where
  value : Value
  asEntity : (entity : Entity) → Except Failure (Carrier entity)
  asItems : (entity : Entity) → List (Except Failure (Carrier entity))
  asEntries : (entity : Entity) → List (String × Except Failure (Carrier entity))

-- The fields of one map, under the wire keys of the entity that reads them.
structure Fields (Carrier : Entity → Type) where
  keys : WireKeys
  options : Options
  entries : List (String × Part Carrier)

namespace Fields

variable {Carrier : Entity → Type}

def wireKey (fields : Fields Carrier) (name : String) : String :=
  Interchange.wireKey fields.keys name fields.options

def part? (fields : Fields Carrier) (name : String) : Option (Part Carrier) :=
  fields.entries.lookup (fields.wireKey name)

def lookup (fields : Fields Carrier) (name : String) : Lookup :=
  match fields.part? name with
  | none => .absent
  | some part => if part.value.isNull then .null else .present part.value

def missing (fields : Fields Carrier) (name : String) : Failure :=
  .field ⟨name, fields.wireKey name, none, .missing⟩

def incompatible (fields : Fields Carrier) (name : String) (raw : Value) (expected : String) :
    Failure :=
  .field ⟨name, fields.wireKey name, some raw, .incompatible expected⟩

/-- A read of a stored value, whatever it is; an absent one is missing. -/
def demand {α : Type} (fields : Fields Carrier) (name : String)
    (read : Part Carrier → Except Failure α) : Except Failure α :=
  match fields.part? name with
  | some part => read part
  | none => .error (fields.missing name)

-- A read of a stored value of the right outer kind; anything else counts as nothing.
def offer {α : Type} (fields : Fields Carrier) (name : String) (fits : Value → Bool)
    (read : Part Carrier → Except Failure α) : Except Failure (Option α) :=
  match fields.part? name with
  | some part => if fits part.value then (read part).map some else .ok none
  | none => .ok none

def scalar (fields : Fields Carrier) (name : String) (type : ScalarType) (raw : Value) :
    Except Failure type.Carrier :=
  match type.read? raw with
  | some result => .ok result
  | none => .error (fields.incompatible name raw type.expected)

def optional (fields : Fields Carrier) (name : String) (type : ScalarType) :
    Option type.Carrier :=
  match fields.lookup name with
  | .present raw => type.read? raw
  | _ => none

def case (fields : Fields Carrier) (name : String) (choices : Enumeration) (raw : Value) :
    Except Failure choices.Case :=
  match choices.raw.read? raw with
  | none => .error (fields.incompatible name raw choices.raw.expected)
  | some representation =>
    match choices.ofRaw? representation with
    | some case => .ok case
    | none => .error (.field ⟨name, fields.wireKey name, some raw, .unknownCase⟩)

def entity (fields : Fields Carrier) (name : String) (target : Entity) (part : Part Carrier) :
    Except Failure (Carrier target) :=
  match part.value with
  | .object _ => (part.asEntity target).mapError (.nested name none)
  | raw => .error (fields.incompatible name raw "map")

def collectItems {α : Type} (name : String) (index : Nat) (done : List α) :
    List (Except Failure α) → Except Failure (List α)
  | [] => .ok done.reverse
  | .ok item :: rest => collectItems name (index + 1) (item :: done) rest
  | .error failure :: _ => .error (.nested name (some (.index index)) failure)

def collectEntries {α : Type} (name : String) (done : List (String × α)) :
    List (String × Except Failure α) → Except Failure (List (String × α))
  | [] => .ok done.reverse
  | (key, .ok item) :: rest => collectEntries name ((key, item) :: done) rest
  | (key, .error failure) :: _ => .error (.nested name (some (.key key)) failure)

def list (fields : Fields Carrier) (name : String) (target : Entity) (part : Part Carrier) :
    Except Failure (List (Carrier target)) :=
  match part.value with
  | .array _ => collectItems name 0 [] (part.asItems target)
  | raw => .error (fields.incompatible name raw "list")

def keyed (fields : Fields Carrier) (name : String) (target : Entity) (part : Part Carrier) :
    Except Failure (List (String × Carrier target)) :=
  match part.value with
  | .object _ => collectEntries name [] (part.asEntries target)
  | raw => .error (fields.incompatible name raw "map")

def scalarList (fields : Fields Carrier) (name : String) (type : ScalarType) (raw : Value) :
    Except Failure (List type.Carrier) :=
  match raw with
  | .array items => collectItems name 0 [] (items.map (fields.scalar name type))
  | raw => .error (fields.incompatible name raw "list")

def isArray : Value → Bool
  | .array _ => true
  | _ => false

def isObject : Value → Bool
  | .object _ => true
  | _ => false

def isPresent (value : Value) : Bool := !value.isNull

def read (fields : Fields Carrier) (name : String) :
    (how : FieldRead Entity) → Except Failure (how.Result Carrier)
  | .wireKey => .ok (fields.wireKey name)
  | .lookup => .ok (fields.lookup name)
  | .required type => fields.demand name fun part => fields.scalar name type part.value
  | .optional type => .ok (fields.optional name type)
  | .scalarList type => fields.demand name fun part => fields.scalarList name type part.value
  | .enumeration choices => fields.demand name fun part => fields.case name choices part.value
  | .optionalEnumeration choices =>
    fields.offer name isPresent fun part => fields.case name choices part.value
  | .entity target => fields.demand name (fields.entity name target)
  | .optionalEntity target => fields.offer name isObject (fields.entity name target)
  | .list target => fields.demand name (fields.list name target)
  | .optionalList target => fields.offer name isArray (fields.list name target)
  | .keyed target => fields.demand name (fields.keyed name target)
  | .optionalKeyed target => fields.offer name isObject (fields.keyed name target)

end Fields

/-- Runs a reading against the fields of one map. -/
def Reading.run {Carrier : Entity → Type} {α : Type} (fields : Fields Carrier) :
    Reading Carrier α → Except Failure α
  | .done result => .ok result
  | .fail failure => .error failure
  | .read name how next => (next (fields.read name how)).run fields

namespace Schema

variable (schema : Schema Entity)

/-- The reading of a value whose parts are prepared, as one entity. -/
def build (options : Options) (value : Value) (parts : Value.Parts (Part schema.Carrier))
    (entity : Entity) : Except Failure (schema.Carrier entity) :=
  match parts with
  | .entries entries => (schema.reading entity).run ⟨schema.wireKeys entity, options, entries⟩
  | _ => .error (.notAMap (schema.name entity) value.kind)

def prepare (options : Options) (value : Value) (parts : Value.Parts (Part schema.Carrier)) :
    Part schema.Carrier where
  value := value
  asEntity := schema.build options value parts
  asItems := fun entity =>
    match parts with
    | .items items => items.map (·.asEntity entity)
    | _ => []
  asEntries := fun entity =>
    match parts with
    | .entries entries => entries.map fun entry => (entry.1, entry.2.asEntity entity)
    | _ => []

def part (options : Options) (value : Value) : Part schema.Carrier :=
  value.fold (schema.prepare options)

/-- The fields of a map, read under given wire keys. -/
def fieldsOf (options : Options) (keys : WireKeys) (entries : List (String × Value)) :
    Fields schema.Carrier :=
  ⟨keys, options, Value.foldEntries (schema.prepare options) entries⟩

/-- Builds an entity from a map. -/
def decode (options : Options) (entity : Entity) (value : Value) :
    Except Failure (schema.Carrier entity) :=
  (schema.part options value).asEntity entity

end Schema

end Interchange
