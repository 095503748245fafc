import Interchange.Json.Printer
import Interchange.Json.Reader
/-!
Values as JSON text.
-/
namespace Interchange.Json

def encode (value : Value) : Except Fault (List UInt8) :=
  match Tree.ofValue value with
  | .ok tree => .ok tree.bytes
  | .error number => .error (.notFinite number)

-- Text stays text, data URIs included: only a reader that expects bytes opens them.
def decode (bytes : List UInt8) : Except Fault Value :=
  match parse bytes with
  | .ok tree => .ok tree.toValue
  | .error fault => .error fault

end Interchange.Json
