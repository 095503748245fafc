import Interchange.Number.Power
/-!
The leading byte of every MessagePack value. Some markers carry the whole value or a
length; the others say how many bytes of length or number follow.
-/
namespace Interchange.MessagePack

inductive Marker where
  | fixInt (number : Nat)
  | fixMap (size : Nat)
  | fixArray (size : Nat)
  | fixStr (size : Nat)
  | nil
  | neverUsed
  | bool (flag : Bool)
  | bin (width : Nat)
  | ext (width : Nat)
  | float32
  | float64
  | unsigned (width : Nat)
  | signed (width : Nat)
  | fixExt
  | str (width : Nat)
  | array (width : Nat)
  | map (width : Nat)
  | negativeFixInt (number : Int)
  deriving DecidableEq, Repr

def Marker.ofByte (byte : UInt8) : Marker :=
  let code := byte.toNat
  if code < 0x80 then .fixInt code
  else if code < 0x90 then .fixMap (code - 0x80)
  else if code < 0xa0 then .fixArray (code - 0x90)
  else if code < 0xc0 then .fixStr (code - 0xa0)
  else if code = 0xc0 then .nil
  else if code = 0xc1 then .neverUsed
  else if code < 0xc4 then .bool (code = 0xc3)
  else if code < 0xc7 then .bin (2 ^ (code - 0xc4))
  else if code < 0xca then .ext (2 ^ (code - 0xc7))
  else if code = 0xca then .float32
  else if code = 0xcb then .float64
  else if code < 0xd0 then .unsigned (2 ^ (code - 0xcc))
  else if code < 0xd4 then .signed (2 ^ (code - 0xd0))
  else if code < 0xd9 then .fixExt
  else if code < 0xdc then .str (2 ^ (code - 0xd9))
  else if code < 0xde then .array (2 ^ (code - 0xdb))
  else if code < 0xe0 then .map (2 ^ (code - 0xdd))
  else .negativeFixInt ((code : Int) - 256)

end Interchange.MessagePack
