import Interchange.Json.Tree
import Interchange.Number.Decimal
import Interchange.Text.Utf8
/-!
Compact JSON text, as bytes. Text is written in full except for the quote, the
backslash and the control characters below U+0020.
-/
namespace Interchange.Json

def escape (character : Char) : List Char :=
  if character = '"' then ['\\', '"']
  else if character = '\\' then ['\\', '\\']
  else if character = '\x08' then ['\\', 'b']
  else if character = '\x0c' then ['\\', 'f']
  else if character = '\n' then ['\\', 'n']
  else if character = '\r' then ['\\', 'r']
  else if character = '\t' then ['\\', 't']
  else if character.toNat < 0x20 then
    ['\\', 'u', '0', '0', Nat.digitChar (character.toNat / 16),
      Nat.digitChar (character.toNat % 16)]
  else [character]

def quoted (text : String) : List Char := '"' :: (text.toList.flatMap escape ++ ['"'])

-- Sixteen places before the point and five behind it are written out, anything else by exponent.
def layout (decimal : Decimal) : List Char :=
  if -5 ≤ decimal.magnitude && decimal.magnitude ≤ 15 then Decimal.withPoint decimal.positional
  else decimal.scientific

def floatText (number : Binary64) : List Char := number.render .toEven layout "0.0".toList

def Number.text : Number → List Char
  | .natural number => Nat.toDigits 10 number.toNat
  | .negative number => '-' :: Nat.toDigits 10 number.toInt.natAbs
  | .float number => floatText number

namespace Tree

def emit (out : Array UInt8) (text : List Char) : Array UInt8 := out ++ Utf8.encodeChars text

mutual
def print (out : Array UInt8) : Tree → Array UInt8
  | .null => emit out "null".toList
  | .bool flag => emit out (if flag then "true" else "false").toList
  | .number content => emit out content.text
  | .str text => emit out (quoted text)
  | .array items => emit (printItems (emit out ['[']) true items) [']']
  | .object entries => emit (printEntries (emit out ['\x7b']) true entries) ['\x7d']
termination_by structural tree => tree
def printItems (out : Array UInt8) (first : Bool) : List Tree → Array UInt8
  | [] => out
  | item :: rest => printItems (print (if first then out else emit out [',']) item) false rest
termination_by structural items => items
def printEntries (out : Array UInt8) (first : Bool) : List (String × Tree) → Array UInt8
  | [] => out
  | (key, item) :: rest =>
    let out := if first then out else emit out [',']
    printEntries (print (emit (emit out (quoted key)) [':']) item) false rest
termination_by structural entries => entries
end

def bytes (tree : Tree) : List UInt8 := (print #[] tree).toList

end Tree

end Interchange.Json
