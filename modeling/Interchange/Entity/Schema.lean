import Interchange.Failure
import Interchange.Scalar.ScalarType
import Interchange.WireKey
/-!
Entities: typed records that cross the wire as maps. A schema describes a family of
entity types that may refer to each other. For each type it holds the name, the wire keys,
the fields as validation sees them, a program of field reads that builds a record from a
map, and the writes that turn a record into a map.

The three descriptions are independent. That they fit together is a property of a schema, not of
the type.
-/
namespace Interchange

variable {Entity : Type}

-- The shape of a field's value before any custom validator sees it.
inductive Shape (Entity : Type) where
  | any
  | bool
  | number
  | str
  | bytes
  | list
  | map
  | listOf (type : ScalarType)
  | enumeration (choices : Enumeration)
  | entity (target : Entity)
  | entityList (target : Entity)
  | entityMap (target : Entity)

inductive Presence where
  | required
  | optional
  deriving DecidableEq, Repr

structure FieldSpec (Entity : Type) where
  name : String
  shape : Shape Entity
  presence : Presence

def FieldSpec.isOptional (spec : FieldSpec Entity) : Bool := spec.presence = .optional

-- What a map holds under a wire key; a null is not the same as no entry.
inductive Lookup where
  | present (value : Value)
  | null
  | absent

-- Ways to read one field. The optional ones take absence and null for nothing.
inductive FieldRead (Entity : Type) where
  | wireKey
  | lookup
  | required (type : ScalarType)
  | optional (type : ScalarType)
  | scalarList (type : ScalarType)
  | enumeration (choices : Enumeration)
  | optionalEnumeration (choices : Enumeration)
  | entity (target : Entity)
  | optionalEntity (target : Entity)
  | list (target : Entity)
  | optionalList (target : Entity)
  | keyed (target : Entity)
  | optionalKeyed (target : Entity)

abbrev FieldRead.Result (Carrier : Entity → Type) : FieldRead Entity → Type
  | .wireKey => String
  | .lookup => Lookup
  | .required type => type.Carrier
  | .optional type => Option type.Carrier
  | .scalarList type => List type.Carrier
  | .enumeration choices => choices.Case
  | .optionalEnumeration choices => Option choices.Case
  | .entity target => Carrier target
  | .optionalEntity target => Option (Carrier target)
  | .list target => List (Carrier target)
  | .optionalList target => Option (List (Carrier target))
  | .keyed target => List (String × Carrier target)
  | .optionalKeyed target => Option (List (String × Carrier target))

-- A program that reads fields one after the other. What it does next may depend on
-- every answer, a failed read included; it ends with a result or with a failure of its choice.
inductive Reading (Carrier : Entity → Type) (α : Type) : Type 1 where
  | done (result : α)
  | fail (failure : Failure)
  | read (name : String) (how : FieldRead Entity)
      (next : Except Failure (how.Result Carrier) → Reading Carrier α)

namespace Reading

variable {Carrier : Entity → Type} {α β : Type}

def bind : Reading Carrier α → (α → Reading Carrier β) → Reading Carrier β
  | .done result, follow => follow result
  | .fail failure, _ => .fail failure
  | .read name how next, follow => .read name how fun answer => (next answer).bind follow

instance : Monad (Reading Carrier) where
  pure := .done
  bind := .bind

def ofAnswer : Except Failure α → Reading Carrier α
  | .ok result => .done result
  | .error failure => .fail failure

/-- Reads one field and fails as the read does. -/
def field (name : String) (how : FieldRead Entity) : Reading Carrier (how.Result Carrier) :=
  .read name how ofAnswer

end Reading

-- What a record writes: the finite tree of its fields under their own names. A nested
-- record brings its own entity name and wire keys.
mutual
inductive Record where
  | mk (entity : String) (keys : WireKeys) (writes : List (String × Content))
inductive Content where
  | leaf (value : Value)
  | entity (record : Record)
  | list (records : List Record)
  | keyed (records : List (String × Record))
end

namespace Content

def scalar (type : ScalarType) (value : type.Carrier) : Content := .leaf (type.write value)

-- Nothing is written as a null; the key is never left out.
def optional (type : ScalarType) (value : Option type.Carrier) : Content :=
  .leaf ((value.map type.write).getD .null)

def scalarList (type : ScalarType) (values : List type.Carrier) : Content :=
  .leaf (.array (values.map type.write))

def enumeration (choices : Enumeration) (case : choices.Case) : Content :=
  .leaf (choices.write case)

def optionalEnumeration (choices : Enumeration) (case : Option choices.Case) : Content :=
  .leaf ((case.map choices.write).getD .null)

def optionalEntity (record : Option Record) : Content :=
  match record with
  | some record => .entity record
  | none => .leaf .null

end Content

structure Schema (Entity : Type) where
  Carrier : Entity → Type
  name : Entity → String
  wireKeys : Entity → WireKeys
  fields : Entity → List (FieldSpec Entity)
  reading : (entity : Entity) → Reading Carrier (Carrier entity)
  record : (entity : Entity) → Carrier entity → Record

end Interchange
