import Interchange.DataUri
import Interchange.Identifier
import Interchange.Scalar.IntegerType
/-!
Types of single-value fields. Numbers are generous: any integer or float is read at any numeric
type, integers modulo the width and floats toward zero within bounds. Every other type accepts
its own kind only, and bytes also from a text that carries them.
-/
namespace Interchange

inductive ScalarType where
  | bool
  | str
  | bytes
  | identifier
  | value
  | integer (type : IntegerType)
  | single
  | double
  deriving DecidableEq, Repr

namespace ScalarType

abbrev Carrier : ScalarType → Type
  | .bool => Bool
  | .str => String
  | .bytes => List UInt8
  | .identifier => Identifier
  | .value => Value
  | .integer type => type.Number
  | .single => Binary32
  | .double => Binary64

/-- The shape a message names when a value does not fit. -/
def expected : ScalarType → String
  | .bool => "bool"
  | .str => "string"
  | .bytes => "bytes"
  | .identifier => "string"
  | .value => "any value"
  | .integer _ => "number"
  | .single => "number"
  | .double => "number"

def readInteger (type : IntegerType) : Value → Option type.Number
  | .integer number => some (type.wrap number.toInt)
  | .unsigned number => some (type.wrap number.toNat)
  | .float number => some (type.saturate number)
  | _ => none

def readSingle : Value → Option Binary32
  | .integer number => some (.ofInt number.toInt)
  | .unsigned number => some (.ofInt number.toNat)
  | .float number => some number.narrow
  | _ => none

def read? : (type : ScalarType) → Value → Option type.Carrier
  | .bool, stored => stored.asBool?
  | .str, stored => stored.asText?
  | .bytes, stored => stored.asBinary?
  | .identifier, stored => stored.asText?.map Identifier.mk
  | .value, stored => some stored
  | .integer type, stored => readInteger type stored
  | .single, stored => readSingle stored
  | .double, stored => stored.asDouble?

def ofInteger {type : IntegerType} (number : type.Number) : Value :=
  if type.signed then .integer (.ofInt number.val) else .ofUnsigned (.ofNat number.val.toNat)

def write : (type : ScalarType) → type.Carrier → Value
  | .bool, flag => .bool flag
  | .str, text => .str text
  | .bytes, content => .bytes content
  | .identifier, opaqueName => .str opaqueName.text
  | .value, stored => stored
  | .integer _, number => ofInteger number
  | .single, number => .float number.widen
  | .double, number => .float number

end ScalarType

-- An enumeration stands on the wire as a raw scalar; not every raw value names a case.
structure Enumeration where
  raw : ScalarType
  Case : Type
  ofRaw? : raw.Carrier → Option Case
  toRaw : Case → raw.Carrier

def Enumeration.write (enumeration : Enumeration) (case : enumeration.Case) : Value :=
  enumeration.raw.write (enumeration.toRaw case)

end Interchange
