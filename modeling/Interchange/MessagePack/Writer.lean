import Interchange.Value
import Interchange.Text.Utf8
import Interchange.MessagePack.Fault
/-!
Writing MessagePack. Every number and length takes the smallest form that holds it. The writer's
buffer outlives a failed write, so `encode` starts by clearing it: whatever
an abandoned write left behind never reaches a result.
-/
namespace Interchange.MessagePack

structure Writer where
  buffer : Array UInt8
  deriving Inhabited

-- A step ends with the writer as it stands, also when the step fails.
abbrev Write (α : Type) := EStateM Fault Writer α

namespace Writer

def fresh : Writer := ⟨#[]⟩

/-- The low bytes of a number, most significant first. -/
def bigEndian : Nat → Nat → List UInt8
  | 0, _ => []
  | width + 1, number => bigEndian width (number / 256) ++ [.ofNat (number % 256)]

def emit (bytes : List UInt8) : Write Unit :=
  modify fun writer => ⟨writer.buffer ++ bytes⟩

def header (marker : UInt8) (width number : Nat) : List UInt8 := marker :: bigEndian width number

def unsignedBytes (number : Nat) : List UInt8 :=
  if number < 0x80 then [.ofNat number]
  else if number < 2 ^ 8 then header 0xcc 1 number
  else if number < 2 ^ 16 then header 0xcd 2 number
  else if number < 2 ^ 32 then header 0xce 4 number
  else header 0xcf 8 number

-- A negative number is written as its residue modulo the width.
def signedBytes (number : Int) : List UInt8 :=
  if 0 ≤ number then unsignedBytes number.toNat
  else if -32 ≤ number then bigEndian 1 (number + 2 ^ 8).toNat
  else if -2 ^ 7 ≤ number then header 0xd0 1 (number + 2 ^ 8).toNat
  else if -2 ^ 15 ≤ number then header 0xd1 2 (number + 2 ^ 16).toNat
  else if -2 ^ 31 ≤ number then header 0xd2 4 (number + 2 ^ 32).toNat
  else header 0xd3 8 (number + 2 ^ 64).toNat

def null : Write Unit := emit [0xc0]

def bool (flag : Bool) : Write Unit := emit [if flag then 0xc3 else 0xc2]

def integer (number : Int64) : Write Unit := emit (signedBytes number.toInt)

def unsigned (number : UInt64) : Write Unit := emit (unsignedBytes number.toNat)

def float (number : Binary64) : Write Unit := emit (header 0xcb 8 number.bits.toNat)

/-- A length of at least two bytes; more than four do not fit any header. -/
def wideLength (length : Nat) (marker16 marker32 : UInt8) : Write Unit :=
  if length < 2 ^ 16 then emit (header marker16 2 length)
  else if length < 2 ^ 32 then emit (header marker32 4 length)
  else throw (.tooLarge length)

def length (length : Nat) (marker8 marker16 marker32 : UInt8) : Write Unit :=
  if length < 2 ^ 8 then emit (header marker8 1 length)
  else wideLength length marker16 marker32

def str (text : String) : Write Unit := do
  let content := Utf8.encode text
  if content.length < 32 then emit [.ofNat (0xa0 + content.length)]
  else length content.length 0xd9 0xda 0xdb
  emit content

def bin (content : List UInt8) : Write Unit := do
  length content.length 0xc4 0xc5 0xc6
  emit content

def arrayHeader (size : Nat) : Write Unit :=
  if size < 16 then emit [.ofNat (0x90 + size)] else wideLength size 0xdc 0xdd

def mapHeader (size : Nat) : Write Unit :=
  if size < 16 then emit [.ofNat (0x80 + size)] else wideLength size 0xde 0xdf

mutual
def value : Value → Write Unit
  | .null => null
  | .bool flag => bool flag
  | .integer number => integer number
  | .unsigned number => unsigned number
  | .float number => float number
  | .str text => str text
  | .bytes content => bin content
  | .array items => do
    arrayHeader items.length
    values items
  | .object entries => do
    mapHeader entries.length
    members entries
termination_by structural value => value
def values : List Value → Write Unit
  | [] => pure ()
  | item :: rest => do
    value item
    values rest
termination_by structural items => items
def members : List (String × Value) → Write Unit
  | [] => pure ()
  | (key, item) :: rest => do
    str key
    value item
    members rest
termination_by structural entries => entries
end

/-- Takes what has been written and leaves an empty buffer. -/
def take : Write (List UInt8) :=
  modifyGet fun writer => (writer.buffer.toList, fresh)

def encode (item : Value) : Write (List UInt8) := do
  set fresh
  value item
  take

end Writer

/-- The bytes of one value, by a writer of its own. -/
def encode (item : Value) : Except Fault (List UInt8) :=
  match (Writer.encode item).run .fresh with
  | .ok bytes _ => .ok bytes
  | .error fault _ => .error fault

end Interchange.MessagePack
