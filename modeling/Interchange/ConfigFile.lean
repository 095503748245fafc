import Interchange.Config
import Interchange.Mismatch
import Interchange.Toml.Reader
/-!
Settings from a TOML text. Settings that are not given keep their standard values, entries are
looked at in the order of the document, and the first that does not fit is reported. The settings
are checked only once the whole document has been read.
-/
namespace Interchange.Config

def names : List String := ["remap_wire_keys", "default_locale", "accept", "respond_with"]

def unknownName (name : String) : String :=
  "unknown field `" ++ name ++ "`, expected one of " ++
    String.intercalate ", " (names.map fun name => "`" ++ name ++ "`")

def flag : Toml.Node → Except String Bool
  | .bool flag => .ok flag
  | other => .error ((Found.ofToml other).mismatch "a boolean")

def text : Toml.Node → Except String String
  | .str text => .ok text
  | other => .error ((Found.ofToml other).mismatch "a string")

def formats : Toml.Node → Except String (List ContentType)
  | .array items => items.mapM ContentType.ofToml
  | .tables elements => (elements.map fun entries => .table .opened entries).mapM ContentType.ofToml
  | other => .error ((Found.ofToml other).mismatch "a sequence")

def set (config : Config) (entry : String × Toml.Node) : Except String Config :=
  if entry.1 = "remap_wire_keys" then do return { config with remap := ← flag entry.2 }
  else if entry.1 = "default_locale" then do return { config with locale := ← text entry.2 }
  else if entry.1 = "accept" then do return { config with accept := ← formats entry.2 }
  else if entry.1 = "respond_with" then do
    return { config with respondWith := ← ContentType.ofToml entry.2 }
  else .error (unknownName entry.1)

def ofToml (source : String) : Except SettingFault Config :=
  match Toml.parse source with
  | none => .error .malformedDocument
  | some entries =>
    match entries.foldlM set standard with
    | .error reason => .error (.misfitDocument reason)
    | .ok config =>
      match config.check with
      | .ok _ => .ok config
      | .error fault => .error fault

end Interchange.Config
