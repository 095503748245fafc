import Interchange.ContentType
import Interchange.MessagePack.Writer
import Interchange.MessagePack.Reader
import Interchange.Json.Codec
/-!
Packing values into bytes of a content type and unpacking them again. Whether a type
is allowed is decided before its bytes are looked at, and whether it has a codec before they are
decoded. A binary map has no nulls inside its arrays once unpacked.

`Codecs` keeps the MessagePack writer from one step to the next; `pack` and `unpack` use a fresh
one.
-/
namespace Interchange

inductive CodecFault where
  | messagePack (fault : MessagePack.Fault)
  | json (fault : Json.Fault)
  deriving DecidableEq, Repr

def CodecFault.message : CodecFault → String
  | .messagePack fault => "MessagePack codec error: " ++ fault.message
  | .json fault => "JSON codec error: " ++ fault.message

inductive PackFault where
  | unsupported (kind : Value.Kind) (format : ContentType)
  | unreadable (size : Nat) (format : ContentType)
  | undecodable (size : Nat) (format : ContentType) (source : CodecFault)
  | notAllowed (format : ContentType) (allowed : List ContentType)
  | codec (source : CodecFault)
  deriving DecidableEq, Repr

namespace PackFault

def message : PackFault → String
  | .unsupported kind format => kind.name ++ " cannot be " ++ format.name
  | .unreadable size format => s!"{size} bytes cannot be read as " ++ format.name
  | .undecodable size format source =>
    s!"cannot unpack {size} bytes as " ++ format.name ++ ": " ++ source.message
  | .notAllowed format allowed =>
    "content type " ++ format.name ++ " is not allowed here (accepted: [" ++
      String.intercalate ", " (allowed.map ContentType.name) ++ "])"
  | .codec source => source.message

/-- The format has no codec for any payload. -/
def isContent : PackFault → Bool
  | .unsupported _ _ => true
  | .unreadable _ _ => true
  | _ => false

end PackFault

inductive Codec where
  | messagePack
  | json
  deriving DecidableEq, Repr

namespace Codec

def id : Codec → String
  | .messagePack => "msgpack"
  | .json => "json"

def contentType : Codec → ContentType
  | .messagePack => .binaryMap
  | .json => .json

def ofFormat? : ContentType → Option Codec
  | .binaryMap => some .messagePack
  | .json => some .json
  | .xml => none
  | .plaintext => none

def decode (codec : Codec) (bytes : List UInt8) : Except CodecFault Value :=
  match codec with
  | .messagePack => (MessagePack.decode bytes).mapError .messagePack
  | .json => (Json.decode bytes).mapError .json

end Codec

structure Codecs where
  writer : MessagePack.Writer

namespace Codecs

def fresh : Codecs := ⟨.fresh⟩

def encode (codecs : Codecs) (codec : Codec) (value : Value) :
    Except CodecFault (List UInt8) × Codecs :=
  match codec with
  | .messagePack =>
    match (MessagePack.Writer.encode value).run codecs.writer with
    | .ok bytes writer => (.ok bytes, ⟨writer⟩)
    | .error fault writer => (.error (.messagePack fault), ⟨writer⟩)
  | .json => ((Json.encode value).mapError .json, codecs)

def pack (codecs : Codecs) (value : Value) (format : ContentType) :
    Except PackFault (List UInt8) × Codecs :=
  match Codec.ofFormat? format with
  | none => (.error (.unsupported value.kind format), codecs)
  | some codec =>
    match codecs.encode codec value with
    | (.ok bytes, after) => (.ok bytes, after)
    | (.error fault, after) => (.error (.codec fault), after)

/-- What the format's convention makes of a decoded value. -/
def convention (format : ContentType) (value : Value) : Value :=
  if format = .binaryMap then value.stripNulls else value

-- Reading needs no state, so the codecs stay as they are.
def unpack (_codecs : Codecs) (bytes : List UInt8) (format : ContentType)
    (allowed : List ContentType) : Except PackFault Value :=
  if !allowed.contains format then .error (.notAllowed format allowed)
  else
    match Codec.ofFormat? format with
    | none => .error (.unreadable bytes.length format)
    | some codec =>
      match codec.decode bytes with
      | .ok value => .ok (convention format value)
      | .error fault => .error (.undecodable bytes.length format fault)

end Codecs

def pack (value : Value) (format : ContentType) : Except PackFault (List UInt8) :=
  (Codecs.fresh.pack value format).1

def unpack (bytes : List UInt8) (format : ContentType) (allowed : List ContentType) :
    Except PackFault Value :=
  Codecs.fresh.unpack bytes format allowed

end Interchange
