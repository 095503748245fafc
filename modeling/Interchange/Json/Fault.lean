import Interchange.Number.Decimal
/-!
What can be wrong with a JSON text, and where. Places count lines from one and
columns in bytes. The other fault is a float without a JSON form.
-/
namespace Interchange.Json

inductive Reason where
  | endInValue
  | endInList
  | endInObject
  | endInText
  | expectedValue
  | expectedLiteral
  | expectedColon
  | expectedItemEnd
  | expectedEntryEnd
  | keyNotText
  | trailingComma
  | trailingCharacters
  | tooDeep
  | controlCharacter
  | invalidEscape
  | loneSurrogate
  | endOfEscape
  | invalidText
  | invalidNumber
  | numberOutOfRange
  deriving DecidableEq, Repr

def Reason.message : Reason → String
  | .endInValue => "EOF while parsing a value"
  | .endInList => "EOF while parsing a list"
  | .endInObject => "EOF while parsing an object"
  | .endInText => "EOF while parsing a string"
  | .expectedValue => "expected value"
  | .expectedLiteral => "expected ident"
  | .expectedColon => "expected `:`"
  | .expectedItemEnd => "expected `,` or `]`"
  | .expectedEntryEnd => "expected `,` or `\x7d`"
  | .keyNotText => "key must be a string"
  | .trailingComma => "trailing comma"
  | .trailingCharacters => "trailing characters"
  | .tooDeep => "recursion limit exceeded"
  | .controlCharacter => "control character (\\u0000-\\u001F) found while parsing a string"
  | .invalidEscape => "invalid escape"
  | .loneSurrogate => "lone leading surrogate in hex escape"
  | .endOfEscape => "unexpected end of hex escape"
  | .invalidText => "invalid unicode code point"
  | .invalidNumber => "invalid number"
  | .numberOutOfRange => "number out of range"

inductive Fault where
  | notFinite (number : Binary64)
  | malformed (reason : Reason) (line column : Nat)
  deriving DecidableEq, Repr

-- A float that is not finite shows as `NaN`, `inf` or `-inf`.
def Fault.message : Fault → String
  | .notFinite number =>
    "non-finite float " ++ String.ofList number.spelled ++ " has no JSON representation"
  | .malformed reason line column =>
    "parse error: " ++ reason.message ++ s!" at line {line} column {column}"

end Interchange.Json
