import Interchange.ContentType
import Interchange.Identifier
import Interchange.Json.Printer
import Interchange.Toml.Document
import Interchange.Text.Quoted
/-!
A document value of the wrong type: what was found against what was wanted. Both document
formats share the wording; only floats are spelled as the format itself spells them.
-/
namespace Interchange

inductive Found where
  | null
  | boolean (flag : Bool)
  | integer (number : Int)
  | float (text : String)
  | str (text : String)
  | sequence
  | map
  deriving DecidableEq, Repr

namespace Found

def text : Found → String
  | .null => "null"
  | .boolean flag => "boolean `" ++ toString flag ++ "`"
  | .integer number => "integer `" ++ toString number ++ "`"
  | .float text => "floating point `" ++ text ++ "`"
  | .str text => "string " ++ Text.quote text
  | .sequence => "sequence"
  | .map => "map"

def mismatch (found : Found) (wanted : String) : String :=
  "invalid type: " ++ found.text ++ ", expected " ++ wanted

def ofJson : Json.Tree → Found
  | .null => .null
  | .bool flag => .boolean flag
  | .number (.natural number) => .integer number.toNat
  | .number (.negative number) => .integer number.toInt
  | .number (.float number) => .float (String.ofList (Json.floatText number))
  | .str text => .str text
  | .array _ => .sequence
  | .object _ => .map

-- A date is presented as a map of its parts.
def ofToml : Toml.Node → Found
  | .str text => .str text
  | .integer number => .integer number
  | .float number => .float (String.ofList number.spelled)
  | .bool flag => .boolean flag
  | .date => .map
  | .array _ => .sequence
  | .table _ _ => .map
  | .tables _ => .sequence

end Found

namespace ContentType

def ofText (text : String) : Except String ContentType :=
  match parse? text with
  | some format => .ok format
  | none => .error (unknownMessage text)

def ofJson : Json.Tree → Except String ContentType
  | .str text => ofText text
  | other => .error ((Found.ofJson other).mismatch "a string")

def ofToml : Toml.Node → Except String ContentType
  | .str text => ofText text
  | other => .error ((Found.ofToml other).mismatch "a string")

end ContentType

def Identifier.ofJson : Json.Tree → Except String Identifier
  | .str text => .ok ⟨text⟩
  | other => .error ((Found.ofJson other).mismatch "a string")

end Interchange
