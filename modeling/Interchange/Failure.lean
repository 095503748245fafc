import Interchange.Packing
import Interchange.Report
/-!
Everything that can go wrong between bytes and an entity. A failure inside a nested entity is
wrapped once per field on the way out, so its path can be read off the wrappers,
outermost first. Two views say what a failure means for a field: its path with a descriptor,
and the outermost field with a category.
-/
namespace Interchange

inductive Cause where
  | missing
  | incompatible (expected : String)
  | unknownCase
  deriving DecidableEq, Repr

namespace Cause

def message : Cause → String
  | .missing => "value is missing"
  | .incompatible expected => "expected " ++ expected
  | .unknownCase => "unrecognized enumeration value"

def category : Cause → Category
  | .missing => .missing
  | .incompatible _ => .incompatible
  | .unknownCase => .unknownCase

end Cause

-- A read that failed at one field; `raw` is the stored value, absent with its key.
structure FieldFault where
  field : String
  wireKey : String
  raw : Option Value
  cause : Cause

def FieldFault.message (fault : FieldFault) : String :=
  "field `" ++ fault.field ++ "` (wire key `" ++ fault.wireKey ++ "`): " ++ fault.cause.message

-- Settings that would make every exchange fail, and validators that can never run.
inductive SettingFault where
  | nothingAccepted
  | acceptsReserved (format : ContentType)
  | respondsReserved (format : ContentType)
  | blankLocale
  | undeclaredField (entity field : String)
  | repeatedValidator (entity field : String)
  | malformedDocument
  | misfitDocument (reason : String)
  deriving DecidableEq, Repr

def SettingFault.message : SettingFault → String
  | .nothingAccepted => "`accept` must list at least one content type"
  | .acceptsReserved format => "`accept` lists reserved content type " ++ format.name
  | .respondsReserved format => "`respond_with` is reserved content type " ++ format.name
  | .blankLocale => "`default_locale` must not be empty"
  | .undeclaredField entity field => "`" ++ entity ++ "` declares no field `" ++ field ++ "`"
  | .repeatedValidator entity field =>
    "validator for `" ++ entity ++ "." ++ field ++ "` is already registered"
  | .malformedDocument => "malformed document"
  | .misfitDocument reason => reason

inductive Failure where
  | field (fault : FieldFault)
  | nested (field : String) (position : Option Position) (source : Failure)
  | notAMap (entity : String) (found : Value.Kind)
  | repeatedKey (entity wireKey : String)
  | invalid (entity : String) (report : Report)
  | pack (fault : PackFault)
  | setting (fault : SettingFault)
  | handler (reason : String)

namespace Failure

def message : Failure → String
  | .field fault => fault.message
  | .nested outer position source =>
    let place := match position with
      | some position => " at " ++ position.text
      | none => ""
    "field `" ++ outer ++ "`" ++ place ++ ": " ++ source.message
  | .notAMap entity found => "`" ++ entity ++ "` expects a map, found " ++ found.name
  | .repeatedKey entity wireKey =>
    "encode failed: `" ++ entity ++ "` writes wire key `" ++ wireKey ++ "` more than once"
  | .invalid entity report => "`" ++ entity ++ "` failed validation for " ++ report.listing
  | .pack fault => fault.message
  | .setting fault => "configuration error: " ++ fault.message
  | .handler reason => "handler failed: " ++ reason

/-- The path and descriptor of a failure at a field; no other failure has one. -/
def fieldError (locale : String) : Failure → Option (String × Descriptor)
  | .field fault =>
    some (fault.field, ⟨fault.cause.category, none, fault.wireKey, fault.raw, locale⟩)
  | .nested outer position source =>
    let place := outer ++ ((position.map Position.text).getD "")
    match source.fieldError locale with
    | some (path, descriptor) => some (joinPath place path, descriptor)
    | none => some (place, ⟨.incompatible, none, outer, none, locale⟩)
  | _ => none

/-- The outermost field of a failure at a field, and its category. -/
def fieldCategory : Failure → Option (String × Category)
  | .field fault => some (fault.field, fault.cause.category)
  | .nested outer _ source =>
    some (outer, ((source.fieldCategory).map (·.2)).getD .incompatible)
  | _ => none

end Failure

end Interchange
