/-!
What can be wrong with MessagePack bytes, or with a value that is to be written as such.
Offsets count bytes from the start of the input.
-/
namespace Interchange.MessagePack

inductive Fault where
  | endOfInput (offset : Nat)
  | invalidText (offset : Nat)
  | invalidByte (byte : UInt8) (offset : Nat)
  | unsupportedExtension (tag : Int8)
  | keyNotText (offset : Nat)
  | repeatedKey (offset : Nat)
  | trailing (count : Nat)
  | tooDeep (limit : Nat)
  | tooLarge (length : Nat)
  deriving DecidableEq, Repr

def hexByte (byte : UInt8) : String :=
  String.ofList [Nat.digitChar (byte.toNat / 16), Nat.digitChar (byte.toNat % 16)]

def Fault.message : Fault → String
  | .endOfInput offset => s!"unexpected end of input at offset {offset}"
  | .invalidText offset => s!"invalid UTF-8 in string at offset {offset}"
  | .invalidByte byte offset =>
    "invalid MessagePack byte 0x" ++ hexByte byte ++ s!" at offset {offset}"
  | .unsupportedExtension tag => "extension type " ++ toString tag.toInt ++ " is not supported"
  | .keyNotText offset => s!"map key at offset {offset} is not a string"
  | .repeatedKey offset => s!"map key at offset {offset} repeats an earlier key"
  | .trailing count => s!"{count} trailing bytes after value"
  | .tooDeep limit => s!"nesting deeper than {limit} levels"
  | .tooLarge length => s!"length {length} does not fit a 32-bit header"

end Interchange.MessagePack
