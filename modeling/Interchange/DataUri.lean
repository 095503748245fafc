import Interchange.Text.Base64
import Interchange.Value
/-!
Bytes inside text: a format without byte strings carries them as data URIs.
Text is taken for bytes only by a reader that expects bytes.
-/
namespace Interchange.DataUri

def start : String := "data:application/octet-stream;base64,"

def ofBytes (bytes : List UInt8) : String :=
  start ++ String.ofList (Base64.encode bytes)

def bytes? (text : String) : Option (List UInt8) :=
  if start.toList.isPrefixOf text.toList then
    Base64.decode? (text.toList.drop start.toList.length)
  else none

end Interchange.DataUri

namespace Interchange.Value

/-- Binary content: bytes, or a text that carries bytes. -/
def asBinary? : Value → Option (List UInt8)
  | .bytes content => some content
  | .str text => DataUri.bytes? text
  | _ => none

end Interchange.Value
