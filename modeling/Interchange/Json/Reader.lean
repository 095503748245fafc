import Interchange.Json.Tree
import Interchange.Json.Fault
import Interchange.Entries
import Interchange.Text.Hexadecimal
import Interchange.Text.Utf8
/-!
Reading JSON text. A read takes bytes from the front of what is left and stops at the first
fault; how many bytes are left there says where it is. Containers nest at most `maxDepth`
deep. Numbers with a fraction or an exponent are put together in double precision from an integer
significand and a power of ten, each rounded on its own, so they need not be the
doubles nearest to the text.
-/
namespace Interchange.Json

-- A fault before its place is known: `left` bytes stand behind it, and `back`
-- columns are taken off.
structure Stop where
  reason : Reason
  left : Nat
  back : Nat

abbrev Read (α : Type) := StateT (List UInt8) (Except Stop) α

def maxDepth : Nat := 127

def code (character : Char) : UInt8 := .ofNat character.toNat

def isBlank (byte : UInt8) : Bool :=
  byte = 0x20 || byte = 0x0a || byte = 0x09 || byte = 0x0d

def isDigit (byte : UInt8) : Bool := 0x30 ≤ byte.toNat && byte.toNat ≤ 0x39

def digitValue (byte : UInt8) : Nat := byte.toNat - 0x30

def hexNumber? (a b c d : UInt8) : Option Nat :=
  Text.hexNumber? ([a, b, c, d].map fun byte => Char.ofNat byte.toNat)

namespace Read

def stop {α : Type} (reason : Reason) (left : List UInt8) : Except Stop α :=
  .error ⟨reason, left.length, 0⟩

/-- Stops behind the next byte, or at the end. -/
def stopAtNext {α : Type} (reason : Reason) (rest : List UInt8) : Except Stop α :=
  stop reason rest.tail

/-- Takes the rest of a word whose first letter has been taken. -/
def word : List Char → Read Unit
  | [] => pure ()
  | expected :: letters => fun rest =>
    match rest with
    | [] => stop .endInValue []
    | byte :: rest =>
      if byte = code expected then word letters rest else stop .expectedLiteral rest

-- Text between quotes

inductive Unit16 where
  | scalar (character : Char)
  | leading (number : Nat)
  | trailing

def unit16 (number : Nat) : Unit16 :=
  if number < 0xD800 || 0xE000 ≤ number then .scalar (.ofNat number)
  else if number < 0xDC00 then .leading (number - 0xD800)
  else .trailing

def shortEscape? (byte : UInt8) : Option UInt8 :=
  if byte = code '"' || byte = code '\\' || byte = code '/' then some byte
  else if byte = code 'b' then some 0x08
  else if byte = code 'f' then some 0x0c
  else if byte = code 'n' then some 0x0a
  else if byte = code 'r' then some 0x0d
  else if byte = code 't' then some 0x09
  else none

def push (character : Char) (read : List UInt8) : List UInt8 :=
  (Utf8.encodeChar character).reverse ++ read

-- The text that ends at a quote. Its bytes must be well-formed as a whole, and the fault
-- points at the first byte that is not.
def finish (read rest : List UInt8) : Except Stop (String × List UInt8) :=
  match Utf8.scan read.reverse with
  | (characters, []) => .ok (String.ofList characters, rest)
  | (_, wrong) => .error ⟨.invalidText, rest.length, wrong.length⟩

/-- Text up to the closing quote; `read` holds the bytes so far in reverse. -/
def text (read : List UInt8) : List UInt8 → Except Stop (String × List UInt8)
  | [] => stop .endInText []
  | byte :: rest =>
    if byte = code '"' then finish read rest
    else if byte = code '\\' then
      match rest with
      | [] => stop .endInText []
      | letter :: rest =>
        if letter = code 'u' then
          match rest with
          | a :: b :: c :: d :: rest =>
            match (hexNumber? a b c d).map unit16 with
            | none => stop .invalidEscape rest
            | some .trailing => stop .loneSurrogate rest
            | some (.scalar character) => text (push character read) rest
            | some (.leading high) =>
              match rest with
              | [] => stop .endInText []
              | slash :: rest =>
                if slash ≠ code '\\' then stop .endOfEscape rest
                else
                  match rest with
                  | [] => stop .endInText []
                  | letter :: rest =>
                    if letter ≠ code 'u' then stop .endOfEscape rest
                    else
                      match rest with
                      | a :: b :: c :: d :: rest =>
                        match hexNumber? a b c d with
                        | none => stop .invalidEscape rest
                        | some low =>
                          if 0xDC00 ≤ low && low < 0xE000 then
                            text (push (.ofNat (0x10000 + high * 0x400 + (low - 0xDC00))) read) rest
                          else stop .loneSurrogate rest
                      | _ => stop .endInText []
          | _ => stop .endInText []
        else
          match shortEscape? letter with
          | some plain => text (plain :: read) rest
          | none => stop .invalidEscape rest
    else if byte.toNat < 0x20 then stop .controlCharacter rest
    else text (byte :: read) rest

-- Numbers

/-- Digits taken into a significand as long as it fits 64 bits, with their count and the rest. -/
def significand (number count : Nat) : List UInt8 → Nat × Nat × List UInt8
  | [] => (number, count, [])
  | byte :: rest =>
    if isDigit byte then
      if number * 10 + digitValue byte < 2 ^ 64 then
        significand (number * 10 + digitValue byte) (count + 1) rest
      else (number, count, byte :: rest)
    else (number, count, byte :: rest)

/-- Digits of an exponent below 2^31; `none` once they are too many, with the rest. -/
def exponentDigits (number : Nat) : List UInt8 → Option Nat × List UInt8
  | [] => (some number, [])
  | byte :: rest =>
    if isDigit byte then
      if number * 10 + digitValue byte < 2 ^ 31 then
        exponentDigits (number * 10 + digitValue byte) rest
      else (none, rest)
    else (some number, byte :: rest)

def powerOfTen (exponent : Nat) : Binary64 := .ofNat (10 ^ exponent)

-- Steps of 308 bring a very small exponent into range; a significand that has become zero
-- needs no more of them. The steps are counted off from the exponent.
def scaleBy : Nat → Binary64 → Int → Option Binary64
  | 0, number, _ => some number
  | steps + 1, number, exponent =>
    if exponent.natAbs ≤ 308 then
      if 0 ≤ exponent then
        let scaled := number.multiply (powerOfTen exponent.natAbs)
        if scaled.isFinite then some scaled else none
      else some (number.divide (powerOfTen exponent.natAbs))
    else if number.equals (.zero false) then some number
    else if 0 ≤ exponent then none
    else scaleBy steps (number.divide (powerOfTen 308)) (exponent + 308)

def assemble (negative : Bool) (number : Nat) (exponent : Int) (rest : List UInt8) :
    Except Stop (Number × List UInt8) :=
  match scaleBy (exponent.natAbs / 308 + 1) (.ofNat number) exponent with
  | some magnitude => .ok (.float (if negative then magnitude.negate else magnitude), rest)
  | none => stop .numberOutOfRange rest

/-- The exponent behind its letter, on top of what the digits before it call for. -/
def exponent (negative : Bool) (number : Nat) (before : Int) (rest : List UInt8) :
    Except Stop (Number × List UInt8) :=
  let (below, rest) : Bool × List UInt8 :=
    match rest with
    | byte :: after =>
      if byte = code '+' then (false, after)
      else if byte = code '-' then (true, after)
      else (false, rest)
    | [] => (false, [])
  match rest with
  | [] => stop .endInValue []
  | byte :: rest =>
    if isDigit byte then
      match exponentDigits (digitValue byte) rest with
      | (some power, rest) =>
        assemble negative number (if below then before - power else before + power) rest
      | (none, rest) =>
        if number ≠ 0 && !below then stop .numberOutOfRange rest
        else .ok (.float (.zero negative), rest.dropWhile isDigit)
    else stop .invalidNumber rest

def isExponentLetter (byte : UInt8) : Bool := byte = code 'e' || byte = code 'E'

/-- What may follow the digits: an exponent or nothing. -/
def scaled (negative : Bool) (number : Nat) (power : Int) (rest : List UInt8) :
    Except Stop (Number × List UInt8) :=
  match rest with
  | byte :: after =>
    if isExponentLetter byte then exponent negative number power after
    else assemble negative number power rest
  | [] => assemble negative number power []

/-- The fraction behind its point. Digits beyond the significand are dropped. -/
def fraction (negative : Bool) (number : Nat) (power : Int) (rest : List UInt8) :
    Except Stop (Number × List UInt8) :=
  let (number, count, after) := significand number 0 rest
  if count = 0 && !(after.head?.any isDigit) then
    stopAtNext (if after.isEmpty then .endInValue else .invalidNumber) after
  else scaled negative number (power - count) (after.dropWhile isDigit)

-- A number without fraction and exponent stays an integer where it fits one.
def whole (negative : Bool) (number : Nat) : Number :=
  if negative then
    if number = 0 || 2 ^ 63 < number then .float (Binary64.ofNat number).negate
    else .negative (.ofInt (-number))
  else .natural (.ofNat number)

/-- Digits beyond the significand count as powers of ten. -/
def digits (negative : Bool) (first : Nat) (rest : List UInt8) :
    Except Stop (Number × List UInt8) :=
  let (number, _, after) := significand first 0 rest
  let beyond := (after.takeWhile isDigit).length
  let after := after.dropWhile isDigit
  match after with
  | byte :: rest =>
    if byte = code '.' then fraction negative number beyond rest
    else if isExponentLetter byte then exponent negative number beyond rest
    else if beyond = 0 then .ok (whole negative number, after)
    else assemble negative number beyond after
  | [] =>
    if beyond = 0 then .ok (whole negative number, []) else assemble negative number beyond []

/-- A number behind its sign. -/
def number (negative : Bool) (rest : List UInt8) : Except Stop (Number × List UInt8) :=
  match rest with
  | [] => stop .endInValue []
  | byte :: rest =>
    if byte = code '0' then
      if rest.head?.any isDigit then stopAtNext .invalidNumber rest
      else digits negative 0 rest
    else if isDigit byte then digits negative (digitValue byte) rest
    else stop .invalidNumber rest

-- Containers

def skipBlanks : Read Unit := modify (·.dropWhile isBlank)

-- Every round takes at least one byte, so `bound`, the length of the text, is never used up.
def items (item : Read Tree) : Nat → List Tree → Read (List Tree)
  | 0, _ => fun rest => stop .endInList rest
  | bound + 1, done => do
    let next ← item
    skipBlanks
    match ← get with
    | [] => stop .endInList []
    | byte :: rest =>
      if byte = code ']' then
        set rest
        return (next :: done).reverse
      else if byte = code ',' then
        set rest
        skipBlanks
        let rest ← get
        if rest.isEmpty then stop .endInValue []
        else if rest.head? = some (code ']') then stopAtNext .trailingComma rest
        else items item bound (next :: done)
      else stop .expectedItemEnd rest

def array (bound : Nat) (item : Read Tree) : Read Tree := do
  skipBlanks
  match ← get with
  | [] => stop .endInList []
  | byte :: rest =>
    if byte = code ']' then
      set rest
      return .array []
    else return .array (← items item bound [])

def colon : Read Unit := do
  skipBlanks
  match ← get with
  | [] => stop .endInObject []
  | byte :: rest => if byte = code ':' then set rest else stop .expectedColon rest

/-- One entry from its opening quote on. -/
def entry (item : Read Tree) : Read (String × Tree) := do
  match ← get with
  | [] => stop .endInObject []
  | byte :: rest =>
    if byte = code '"' then
      let (key, rest) ← text [] rest
      set rest
      colon
      return (key, ← item)
    else stop .keyNotText rest

def entries (item : Read Tree) : Nat → List (String × Tree) → Read (List (String × Tree))
  | 0, _ => fun rest => stop .endInObject rest
  | bound + 1, done => do
    let next ← entry item
    let done := Entries.set next.1 next.2 done
    skipBlanks
    match ← get with
    | [] => stop .endInObject []
    | byte :: rest =>
      if byte = code '\x7d' then
        set rest
        return done
      else if byte = code ',' then
        set rest
        skipBlanks
        let rest ← get
        if rest.isEmpty then stop .endInValue []
        else if rest.head? = some (code '\x7d') then stopAtNext .trailingComma rest
        else entries item bound done
      else stop .expectedEntryEnd rest

def object (bound : Nat) (item : Read Tree) : Read Tree := do
  skipBlanks
  match ← get with
  | [] => stop .endInObject []
  | byte :: rest =>
    if byte = code '\x7d' then
      set rest
      return .object []
    else return .object (← entries item bound [])

/-- One value; `inside` reads the parts of a container, which is too deep without one. -/
def single (bound : Nat) (inside : Option (Read Tree)) : Read Tree := do
  skipBlanks
  match ← get with
  | [] => stop .endInValue []
  | byte :: rest =>
    if byte = code 'n' then
      set rest
      word ['u', 'l', 'l']
      return .null
    else if byte = code 't' then
      set rest
      word ['r', 'u', 'e']
      return .bool true
    else if byte = code 'f' then
      set rest
      word ['a', 'l', 's', 'e']
      return .bool false
    else if byte = code '"' then
      let (content, rest) ← text [] rest
      set rest
      return .str content
    else if byte = code '-' then
      let (value, rest) ← number true rest
      set rest
      return .number value
    else if isDigit byte then
      let (value, rest) ← number false (byte :: rest)
      set rest
      return .number value
    else if byte = code '[' || byte = code '\x7b' then
      match inside with
      | none => stop .tooDeep rest
      | some item =>
        set rest
        if byte = code '[' then array bound item else object bound item
    else stop .expectedValue rest

def tree (bound : Nat) : Nat → Read Tree
  | 0 => single bound none
  | depth + 1 => single bound (some (tree bound depth))

def document (bound : Nat) : Read Tree := do
  let value ← tree bound maxDepth
  skipBlanks
  match ← get with
  | [] => return value
  | _ :: rest => stop .trailingCharacters rest

end Read

def newline : UInt8 := 0x0a

-- The place of a stop: columns count the bytes since the last line end before it.
def locate (bytes : List UInt8) (place : Stop) : Fault :=
  let before := bytes.take (bytes.length - place.left)
  let column := (before.reverse.takeWhile (· ≠ newline)).length
  .malformed place.reason (before.count newline + 1) (column - place.back)

def parse (bytes : List UInt8) : Except Fault Tree :=
  match Read.document bytes.length bytes with
  | .ok (tree, _) => .ok tree
  | .error place => .error (locate bytes place)

end Interchange.Json
