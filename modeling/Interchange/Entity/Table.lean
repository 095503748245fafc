import Interchange.Entity.Schema
/-!
Schemas given by tables. A row says what validation asks of a field and how the field is read;
the entity that a table reads is the record that it writes, so that reading and writing agree
on names, order and types by construction.
-/
namespace Interchange

variable {Entity : Type}

-- Entities of every type of a table are records.
abbrev Recorded : Entity → Type := fun _ => Record

/-- The result of a read as it is written again. -/
def FieldRead.content : (how : FieldRead Entity) → how.Result Recorded → Content
  | .wireKey, key => .leaf (.str key)
  | .lookup, .present value => .leaf value
  | .lookup, .null => .leaf .null
  | .lookup, .absent => .leaf .null
  | .required type, found => .scalar type found
  | .optional type, found => .optional type found
  | .scalarList type, found => .scalarList type found
  | .enumeration choices, case => .enumeration choices case
  | .optionalEnumeration choices, case => .optionalEnumeration choices case
  | .entity _, record => .entity record
  | .optionalEntity _, record => .optionalEntity record
  | .list _, records => .list records
  | .optionalList _, records => (records.map .list).getD (.leaf .null)
  | .keyed _, records => .keyed records
  | .optionalKeyed _, records => (records.map .keyed).getD (.leaf .null)

structure Row (Entity : Type) where
  spec : FieldSpec Entity
  how : FieldRead Entity

namespace Row

-- Any pair of a shape and a read; the rows below choose both so that they fit each other.
def needed (name : String) (shape : Shape Entity) (how : FieldRead Entity) : Row Entity :=
  ⟨⟨name, shape, .required⟩, how⟩

def spare (name : String) (shape : Shape Entity) (how : FieldRead Entity) : Row Entity :=
  ⟨⟨name, shape, .optional⟩, how⟩

def text (name : String) : Row Entity := needed name .str (.required .str)

def optionalText (name : String) : Row Entity := spare name .str (.optional .str)

def number (name : String) (type : ScalarType) : Row Entity := needed name .number (.required type)

def case (name : String) (choices : Enumeration) : Row Entity :=
  needed name (.enumeration choices) (.enumeration choices)

def optionalCase (name : String) (choices : Enumeration) : Row Entity :=
  spare name (.enumeration choices) (.optionalEnumeration choices)

def entity (name : String) (target : Entity) : Row Entity :=
  needed name (.entity target) (.entity target)

def optionalEntity (name : String) (target : Entity) : Row Entity :=
  spare name (.entity target) (.optionalEntity target)

def list (name : String) (target : Entity) : Row Entity :=
  needed name (.entityList target) (.list target)

def optionalList (name : String) (target : Entity) : Row Entity :=
  spare name (.entityList target) (.optionalList target)

def keyed (name : String) (target : Entity) : Row Entity :=
  needed name (.entityMap target) (.keyed target)

def optionalKeyed (name : String) (target : Entity) : Row Entity :=
  spare name (.entityMap target) (.optionalKeyed target)

def scalarList (name : String) (type : ScalarType) : Row Entity :=
  needed name (.listOf type) (.scalarList type)

end Row

structure Table (Entity : Type) where
  name : String
  keys : WireKeys
  rows : List (Row Entity)

namespace Table

def readRows (table : Table Entity) (done : List (String × Content)) :
    List (Row Entity) → Reading (@Recorded Entity) Record
  | [] => .done (.mk table.name table.keys done.reverse)
  | row :: rest =>
    .read row.spec.name row.how fun
      | .ok found => table.readRows ((row.spec.name, row.how.content found) :: done) rest
      | .error failure => .fail failure

def reading (table : Table Entity) : Reading (@Recorded Entity) Record :=
  table.readRows [] table.rows

end Table

/-- An enumeration whose cases are the raw values themselves. -/
def Enumeration.ofRaws (raw : ScalarType) (cases : List Value) : Enumeration where
  raw := raw
  Case := raw.Carrier
  ofRaw? := fun stored => if cases.any (·.same (raw.write stored)) then some stored else none
  toRaw := id

/-- The schema of a family of tables that may refer to each other. -/
abbrev Schema.ofTables (table : Entity → Table Entity) : Schema Entity where
  Carrier := Recorded
  name := fun entity => (table entity).name
  wireKeys := fun entity => (table entity).keys
  fields := fun entity => (table entity).rows.map (·.spec)
  reading := fun entity => (table entity).reading
  record := fun _ record => record

end Interchange
