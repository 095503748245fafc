/-!
Wire keys: the names that fields have in a map on the wire. A table overrides field
names, its first entry for a name counts, and without remapping no entry does.
-/
namespace Interchange

abbrev WireKeys := List (String × String)

structure Options where
  remap : Bool
  deriving DecidableEq, Repr

def wireKey (keys : WireKeys) (name : String) (options : Options) : String :=
  if options.remap then (keys.lookup name).getD name else name

end Interchange
