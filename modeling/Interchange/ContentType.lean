import Interchange.Text.Blank
/-!
Content types that an exchange negotiates. Two carry values; the other two are
reserved: they are known by name and refused at every attempt to pack or unpack.
-/
namespace Interchange

inductive ContentType where
  | binaryMap
  | json
  | xml
  | plaintext
  deriving DecidableEq, Repr

namespace ContentType

def name : ContentType → String
  | .binaryMap => "binary-map"
  | .json => "json"
  | .xml => "xml"
  | .plaintext => "plaintext"

def mime : ContentType → String
  | .binaryMap => "application/msgpack"
  | .json => "application/json"
  | .xml => "application/xml"
  | .plaintext => "text/plain"

def isReserved : ContentType → Bool
  | .binaryMap => false
  | .json => false
  | .xml => true
  | .plaintext => true

-- Short names and media types, all in lower case.
def spellings : List (String × ContentType) :=
  [("binary-map", .binaryMap), ("msgpack", .binaryMap), ("application/msgpack", .binaryMap),
    ("application/x-msgpack", .binaryMap), ("application/vnd.msgpack", .binaryMap),
    ("json", .json), ("application/json", .json),
    ("xml", .xml), ("application/xml", .xml), ("text/xml", .xml),
    ("plaintext", .plaintext), ("text/plain", .plaintext)]

/-- The part before any parameters, without blanks around it and in lower case. -/
def essence (text : String) : String :=
  String.ofList ((Text.trim (text.toList.takeWhile (· ≠ ';'))).map Char.toLower)

def parse? (text : String) : Option ContentType := spellings.lookup (essence text)

def unknownMessage (text : String) : String := "unknown content type `" ++ text ++ "`"

end ContentType

end Interchange
