import Interchange.Failure
import Interchange.WireKey
/-!
Settings of an exchange, read once at the start. Checking them turns away everything that would
make each exchange fail later: an accept list must not be empty, no reserved content type may be
accepted or answered with, and the default locale must have a character that is not blank.
-/
namespace Interchange

structure Config where
  remap : Bool
  locale : String
  accept : List ContentType
  respondWith : ContentType
  deriving DecidableEq, Repr

namespace Config

def standard : Config := ⟨true, "en", [.binaryMap, .json], .binaryMap⟩

def options (config : Config) : Options := ⟨config.remap⟩

-- Faults are looked for in this order and the first one counts.
def check (config : Config) : Except SettingFault Unit :=
  if config.accept.isEmpty then .error .nothingAccepted
  else
    match config.accept.find? ContentType.isReserved with
    | some format => .error (.acceptsReserved format)
    | none =>
      if config.respondWith.isReserved then .error (.respondsReserved config.respondWith)
      else if (Text.trim config.locale.toList).isEmpty then .error .blankLocale
      else .ok ()

end Config

end Interchange
