/-!
An opaque identifier: any text is one, and it is compared as its text.
-/
namespace Interchange

structure Identifier where
  text : String
  deriving DecidableEq, Repr, Inhabited

end Interchange
