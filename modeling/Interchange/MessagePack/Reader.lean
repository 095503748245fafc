import Interchange.Value
import Interchange.Entries
import Interchange.Text.Utf8
import Interchange.MessagePack.Fault
import Interchange.MessagePack.Marker
/-!
Reading MessagePack. A cursor holds the bytes still to come and the offset of the next one;
reads only move it forward. A declared length is never trusted beyond the bytes that are there, and
nesting is bounded by a budget that containers use up. Nulls inside arrays are kept.
-/
namespace Interchange.MessagePack

structure Cursor where
  rest : List UInt8
  offset : Nat

abbrev Read (α : Type) := StateT Cursor (Except Fault) α

def maxDepth : Nat := 256

-- Splits off `size` bytes behind those taken, or finds that there are fewer.
def split? : Nat → List UInt8 → List UInt8 → Option (List UInt8 × List UInt8)
  | 0, taken, rest => some (taken.reverse, rest)
  | _ + 1, _, [] => none
  | size + 1, taken, byte :: rest => split? size (byte :: taken) rest

namespace Read

def offset : Read Nat := do return (← get).offset

def bytes (size : Nat) : Read (List UInt8) := fun cursor =>
  match split? size [] cursor.rest with
  | some (taken, rest) => .ok (taken, ⟨rest, cursor.offset + size⟩)
  | none => .error (.endOfInput cursor.offset)

def byte : Read UInt8 := fun cursor =>
  match cursor.rest with
  | next :: rest => .ok (next, ⟨rest, cursor.offset + 1⟩)
  | [] => .error (.endOfInput cursor.offset)

/-- An unsigned number of `width` bytes, most significant first. -/
def number (width : Nat) : Read Nat := do
  let digits ← bytes width
  return digits.foldl (fun total digit => total * 256 + digit.toNat) 0

def text (size : Nat) : Read Value := do
  let start ← offset
  match Utf8.decode (← bytes size) with
  | some text => return .str text
  | none => throw (.invalidText start)

def content (size : Nat) : Read Value := do return .bytes (← bytes size)

-- Extensions are named by their tag and never read as values.
def extension : Read Value := do throw (.unsupportedExtension (← byte).toInt8)

def items (item : Read Value) : Nat → List Value → Read (List Value)
  | 0, done => return done.reverse
  | count + 1, done => do
    let next ← item
    items item count (next :: done)

/-- A key is a value like any other until it turns out not to be text or not to be new. -/
def key (item : Read Value) (done : List (String × Value)) : Read String := do
  let start ← offset
  match ← item with
  | .str text =>
    if Entries.has text done then throw (.repeatedKey start)
    return text
  | _ => throw (.keyNotText start)

def entries (item : Read Value) :
    Nat → List (String × Value) → Read (List (String × Value))
  | 0, done => return done.reverse
  | count + 1, done => do
    let name ← key item done
    let next ← item
    entries item count ((name, next) :: done)

def signed (width : Nat) : Read Value := do
  return .integer (.ofInt (Int.bmod (← number width) (2 ^ (8 * width))))

-- `inside` reads the parts of a container; without one the container is too deep.
def array (limit : Nat) (inside : Option (Read Value)) (size : Nat) : Read Value :=
  match inside with
  | some item => do return .array (← items item size [])
  | none => throw (.tooDeep limit)

def map (limit : Nat) (inside : Option (Read Value)) (size : Nat) : Read Value :=
  match inside with
  | some item => do return .object (← entries item size [])
  | none => throw (.tooDeep limit)

def marked (limit : Nat) (inside : Option (Read Value)) (start : Nat) (lead : UInt8) :
    Read Value :=
  match Marker.ofByte lead with
  | .fixInt number => return .integer (.ofNat number)
  | .fixMap size => map limit inside size
  | .fixArray size => array limit inside size
  | .fixStr size => text size
  | .nil => return .null
  | .neverUsed => throw (.invalidByte lead start)
  | .bool flag => return .bool flag
  | .bin width => do content (← number width)
  | .ext width => do
    let _ ← number width
    extension
  | .float32 => do return .float (Binary32.ofPattern (← number 4)).widen
  | .float64 => do return .float (.ofPattern (← number 8))
  | .unsigned width => do return .ofUnsigned (.ofNat (← number width))
  | .signed width => signed width
  | .fixExt => extension
  | .str width => do text (← number width)
  | .array width => do array limit inside (← number width)
  | .map width => do map limit inside (← number width)
  | .negativeFixInt number => return .integer (.ofInt number)

def single (limit : Nat) (inside : Option (Read Value)) : Read Value := do
  let start ← offset
  marked limit inside start (← byte)

/-- One value whose containers nest at most `budget` deep; `limit` is what the fault reports. -/
def value (limit : Nat) : Nat → Read Value
  | 0 => single limit none
  | budget + 1 => single limit (some (value limit budget))

end Read

/-- Exactly one value: bytes behind it are a fault. -/
def decodeWithin (limit : Nat) (bytes : List UInt8) : Except Fault Value :=
  match Read.value limit limit ⟨bytes, 0⟩ with
  | .error fault => .error fault
  | .ok (value, cursor) =>
    if cursor.rest.isEmpty then .ok value else .error (.trailing cursor.rest.length)

def decode (bytes : List UInt8) : Except Fault Value := decodeWithin maxDepth bytes

end Interchange.MessagePack
