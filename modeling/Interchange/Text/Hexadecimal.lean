/-!
Hexadecimal digits, in either case, and the numbers that they write.
-/
namespace Interchange.Text

def hexDigit? (character : Char) : Option Nat :=
  let code := character.toNat
  if character.isDigit then some (code - 48)
  else if 'a' ≤ character && character ≤ 'f' then some (code - 97 + 10)
  else if 'A' ≤ character && character ≤ 'F' then some (code - 65 + 10)
  else none

/-- The number that digits write, the highest first; no digits write zero. -/
def hexNumber? (digits : List Char) : Option Nat :=
  digits.foldlM (fun total digit => (hexDigit? digit).map (total * 16 + ·)) 0

end Interchange.Text
