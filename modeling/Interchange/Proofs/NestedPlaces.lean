import Interchange.Entity.Schema
import Interchange.Proofs.ValueParts
import Interchange.Proofs.FieldPaths
/-!
Where entities stand inside a value. A shape opens the values that it takes for nested entities,
each at its position; following open fields from the root visits every map that is read as an
entity, and the steps taken are its path.
-/
namespace Interchange

variable {Entity : Type}

namespace Shape

def target? : Shape Entity → Option Entity
  | .entity target => some target
  | .entityList target => some target
  | .entityMap target => some target
  | _ => none

inductive Opens : Shape Entity → Value → Entity → Option Position → Value → Prop where
  | whole (target : Entity) (entries : List (String × Value)) :
      Opens (.entity target) (.object entries) target none (.object entries)
  | item (target : Entity) {items : List Value} {index : Nat} {item : Value}
      (held : items[index]? = some item) :
      Opens (.entityList target) (.array items) target (some (.index index)) item
  | entry (target : Entity) {entries : List (String × Value)} {key : String} {item : Value}
      (held : (key, item) ∈ entries) :
      Opens (.entityMap target) (.object entries) target (some (.key key)) item

theorem opens_target {shape : Shape Entity} {stored part : Value} {target : Entity}
    {position : Option Position} (opens : Opens shape stored target position part) :
    shape.target? = some target := by
  cases opens <;> rfl

theorem opens_inside {shape : Shape Entity} {stored part : Value} {target : Entity}
    {position : Option Position} (opens : Opens shape stored target position part) :
    part = stored ∨ Value.Inside part stored := by
  cases opens with
  | whole target entries => exact Or.inl rfl
  | item target held => exact Or.inr (.item (List.mem_of_getElem? held))
  | entry target held => exact Or.inr (.entry held)

end Shape

namespace Schema

variable (schema : Schema Entity)

/-- What is stored under the wire key of a field. -/
def stored? (options : Options) (entity : Entity) (name : String)
    (entries : List (String × Value)) : Option Value :=
  entries.lookup (wireKey (schema.wireKeys entity) name options)

inductive Visits (options : Options) :
    Entity → Value → List Step → Entity → List (String × Value) → Prop where
  | here (entity : Entity) (entries : List (String × Value)) :
      Visits options entity (.object entries) [] entity entries
  | inside {entity target owner : Entity} {entries inner : List (String × Value)}
      {spec : FieldSpec Entity} {stored part : Value} {position : Option Position}
      {steps : List Step} (declared : spec ∈ schema.fields entity)
      (found : schema.stored? options entity spec.name entries = some stored)
      (opens : spec.shape.Opens stored target position part)
      (rest : Visits options target part steps owner inner) :
      Visits options entity (.object entries) (⟨spec.name, position⟩ :: steps) owner inner

/-- The entity types that a type refers to, itself included. -/
inductive Reaches : Entity → Entity → Prop where
  | here (entity : Entity) : Reaches entity entity
  | inside {entity target member : Entity} {spec : FieldSpec Entity}
      (declared : spec ∈ schema.fields entity) (leads : spec.shape.target? = some target)
      (rest : Reaches target member) : Reaches entity member

theorem visits_reaches (options : Options) {entity owner : Entity} {value : Value}
    {steps : List Step} {entries : List (String × Value)}
    (visit : schema.Visits options entity value steps owner entries) :
    schema.Reaches entity owner := by
  induction visit with
  | here entity entries => exact .here entity
  | inside declared found opens rest ih => exact .inside declared (Shape.opens_target opens) ih

end Schema

end Interchange
