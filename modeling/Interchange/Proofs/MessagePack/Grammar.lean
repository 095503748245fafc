import Interchange.Value
import Interchange.Text.Utf8
/-!
The bytes that stand for a value, without a reader. Numbers and lengths may take any form that holds
them, the smallest or a longer one; extensions and the byte that is never used stand for nothing.
The keys of a map are texts in any of their forms and come once each.
-/
namespace Interchange.MessagePack

/-- The number that digits spell, most significant first. -/
def spelled : List UInt8 → Nat
  | [] => 0
  | digit :: rest => digit.toNat * 256 ^ rest.length + spelled rest

/-- The number that digits spell in two's complement. -/
def spelledSigned (digits : List UInt8) : Int :=
  if 2 * spelled digits < 256 ^ digits.length then spelled digits
  else (spelled digits : Int) - 256 ^ digits.length

-- The leading bytes of a family: short lengths stand in the byte itself, counted from
-- `base`; the others follow in so many digits.
structure Forms where
  base : Nat
  short : Nat
  long : List (UInt8 × Nat)

def textForms : Forms := ⟨0xa0, 32, [(0xd9, 1), (0xda, 2), (0xdb, 4)]⟩

def binaryForms : Forms := ⟨0, 0, [(0xc4, 1), (0xc5, 2), (0xc6, 4)]⟩

def listForms : Forms := ⟨0x90, 16, [(0xdc, 2), (0xdd, 4)]⟩

def mapForms : Forms := ⟨0x80, 16, [(0xde, 2), (0xdf, 4)]⟩

def naturalForms : List (UInt8 × Nat) := [(0xcc, 1), (0xcd, 2), (0xce, 4), (0xcf, 8)]

def integerForms : List (UInt8 × Nat) := [(0xd0, 1), (0xd1, 2), (0xd2, 4), (0xd3, 8)]

-- A leading byte with the digits behind it, and the length that they give.
inductive Head (forms : Forms) : UInt8 → List UInt8 → Nat → Prop where
  | short {size : Nat} (small : size < forms.short) :
      Head forms (.ofNat (forms.base + size)) [] size
  | long {lead : UInt8} {digits : List UInt8} (form : (lead, digits.length) ∈ forms.long) :
      Head forms lead digits (spelled digits)

/-- The value that holds an integer: the signed word wherever it fits. -/
def Integral (number : Int) : Value → Prop
  | .integer word => word.toInt = number
  | .unsigned word => word.toNat = number ∧ 2 ^ 63 ≤ number
  | _ => False

inductive Spells : List UInt8 → String → Prop where
  | sized {lead : UInt8} {digits : List UInt8} {text : String}
      (head : Head textForms lead digits (Utf8.encode text).length) :
      Spells (lead :: (digits ++ Utf8.encode text)) text

-- Parts one after the other, with nothing between them.
inductive Sequence (each : List UInt8 → Value → Prop) : List UInt8 → List Value → Prop where
  | nil : Sequence each [] []
  | cons {bytes rest : List UInt8} {item : Value} {items : List Value} (first : each bytes item)
      (others : Sequence each rest items) : Sequence each (bytes ++ rest) (item :: items)

inductive Members (key : List UInt8 → String → Prop) (each : List UInt8 → Value → Prop) :
    List UInt8 → List (String × Value) → Prop where
  | nil : Members key each [] []
  | cons {named bytes rest : List UInt8} {name : String} {item : Value}
      {entries : List (String × Value)} (called : key named name) (first : each bytes item)
      (others : Members key each rest entries) :
      Members key each (named ++ (bytes ++ rest)) ((name, item) :: entries)

inductive Denotes : List UInt8 → Value → Prop where
  | null : Denotes [0xc0] .null
  | no : Denotes [0xc2] (.bool false)
  | yes : Denotes [0xc3] (.bool true)
  | shortNatural {number : Nat} {value : Value} (small : number < 0x80)
      (held : Integral number value) : Denotes [.ofNat number] value
  | shortNegative {number : Nat} {value : Value} (low : 0xe0 ≤ number) (high : number < 0x100)
      (held : Integral (number - 0x100) value) : Denotes [.ofNat number] value
  | natural {lead : UInt8} {digits : List UInt8} {value : Value}
      (form : (lead, digits.length) ∈ naturalForms) (held : Integral (spelled digits) value) :
      Denotes (lead :: digits) value
  | integer {lead : UInt8} {digits : List UInt8} {value : Value}
      (form : (lead, digits.length) ∈ integerForms) (held : Integral (spelledSigned digits) value) :
      Denotes (lead :: digits) value
  | single {digits : List UInt8} (four : digits.length = 4) :
      Denotes (0xca :: digits) (.float (Binary32.ofPattern (spelled digits)).widen)
  | double {digits : List UInt8} (eight : digits.length = 8) :
      Denotes (0xcb :: digits) (.float (.ofPattern (spelled digits)))
  | text {bytes : List UInt8} {text : String} (spells : Spells bytes text) :
      Denotes bytes (.str text)
  | binary {lead : UInt8} {digits content : List UInt8}
      (head : Head binaryForms lead digits content.length) :
      Denotes (lead :: (digits ++ content)) (.bytes content)
  | list {lead : UInt8} {digits body : List UInt8} {items : List Value}
      (head : Head listForms lead digits items.length) (parts : Sequence Denotes body items) :
      Denotes (lead :: (digits ++ body)) (.array items)
  | map {lead : UInt8} {digits body : List UInt8} {entries : List (String × Value)}
      (head : Head mapForms lead digits entries.length)
      (parts : Members Spells Denotes body entries) (distinct : (entries.map (·.1)).Nodup) :
      Denotes (lead :: (digits ++ body)) (.object entries)

end Interchange.MessagePack
