import Interchange.Entries
import Interchange.Entity.Schema
/-!
Custom validators by entity type and field. Every entity type has a table of its own, which its first
registration opens. Only declared fields take a validator, and the first registration of a field
stands; a refused registration changes nothing.
-/
namespace Interchange

-- How a validator answers: after how many polls, and with which rejection code if any.
structure Verdict where
  polls : Nat
  code : Option String

abbrev Validator := Value → Verdict

-- The validators of one entity type, by field.
abbrev ValidatorTable := List (String × Validator)

structure Registry (Entity : Type) where
  tables : List (Entity × ValidatorTable)

namespace Registry

variable {Entity : Type} [DecidableEq Entity]

def empty : Registry Entity := ⟨[]⟩

def get? (registry : Registry Entity) (entity : Entity) (field : String) : Option Validator :=
  (registry.tables.lookup entity).bind fun table => table.lookup field

def size (registry : Registry Entity) : Nat :=
  registry.tables.foldr (fun own total => own.2.length + total) 0

def isEmpty (registry : Registry Entity) : Bool := registry.size = 0

/-- Changes the table of one entity type; where there is none, an empty one is opened for it. -/
def enter (entity : Entity) (change : ValidatorTable → ValidatorTable) :
    List (Entity × ValidatorTable) → List (Entity × ValidatorTable)
  | [] => [(entity, change [])]
  | own :: rest =>
    if own.1 = entity then (entity, change own.2) :: rest else own :: enter entity change rest

/-- One registration in place: what is wrong with it, if anything, and the registry it leaves. -/
def attempt (schema : Schema Entity) (entity : Entity) (field : String) (validator : Validator)
    (registry : Registry Entity) : Option SettingFault × Registry Entity :=
  if !(schema.fields entity).any (fun spec => spec.name == field) then
    (some (.undeclaredField (schema.name entity) field), registry)
  else
    -- The table is opened before it is asked for the field.
    let opened : Registry Entity := ⟨enter entity id registry.tables⟩
    if (opened.get? entity field).isSome then
      (some (.repeatedValidator (schema.name entity) field), opened)
    else (none, ⟨enter entity (Entries.set field validator) opened.tables⟩)

def register (schema : Schema Entity) (entity : Entity) (field : String) (validator : Validator)
    (registry : Registry Entity) : Except SettingFault (Registry Entity) :=
  match registry.attempt schema entity field validator with
  | (none, next) => .ok next
  | (some fault, _) => .error fault

/-- A summary for logs: validators themselves cannot be shown. -/
def summary (registry : Registry Entity) : String :=
  "ValidatorRegistry \x7b validators: " ++ toString registry.size ++ " \x7d"

end Registry

end Interchange
