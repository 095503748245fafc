/-!
Base 64 with the standard alphabet: three bytes become four characters, and a last group of
one or two bytes is filled up with `=`. Reading is strict. The filling is required,
nothing may stand between the characters, and the unused bits of a filled
group are zero, so every byte list has exactly one text.
-/
namespace Interchange.Base64

def symbol (digit : Nat) : Char :=
  if digit < 26 then .ofNat (65 + digit)
  else if digit < 52 then .ofNat (97 + (digit - 26))
  else if digit < 62 then .ofNat (48 + (digit - 52))
  else if digit = 62 then '+'
  else '/'

def digit? (character : Char) : Option Nat :=
  let code := character.toNat
  if 65 ≤ code && code ≤ 90 then some (code - 65)
  else if 97 ≤ code && code ≤ 122 then some (code - 97 + 26)
  else if 48 ≤ code && code ≤ 57 then some (code - 48 + 52)
  else if character = '+' then some 62
  else if character = '/' then some 63
  else none

def encode : List UInt8 → List Char
  | [] => []
  | [first] =>
    let bits := first.toNat * 16
    [symbol (bits / 64), symbol (bits % 64), '=', '=']
  | [first, second] =>
    let bits := (first.toNat * 256 + second.toNat) * 4
    [symbol (bits / 4096), symbol (bits / 64 % 64), symbol (bits % 64), '=']
  | first :: second :: third :: rest =>
    let bits := first.toNat * 65536 + second.toNat * 256 + third.toNat
    symbol (bits / 262144) :: symbol (bits / 4096 % 64) :: symbol (bits / 64 % 64) ::
      symbol (bits % 64) :: encode rest

def lastOne (first second : Char) : Option (List UInt8) :=
  match digit? first, digit? second with
  | some a, some b => if b % 16 = 0 then some [.ofNat (a * 4 + b / 16)] else none
  | _, _ => none

def lastTwo (first second third : Char) : Option (List UInt8) :=
  match digit? first, digit? second, digit? third with
  | some a, some b, some c =>
    if c % 4 = 0 then
      let bits := a * 1024 + b * 16 + c / 4
      some [.ofNat (bits / 256), .ofNat (bits % 256)]
    else none
  | _, _, _ => none

def group (first second third fourth : Char) : Option (List UInt8) :=
  match digit? first, digit? second, digit? third, digit? fourth with
  | some a, some b, some c, some d =>
    let bits := a * 262144 + b * 4096 + c * 64 + d
    some [.ofNat (bits / 65536), .ofNat (bits / 256 % 256), .ofNat (bits % 256)]
  | _, _, _, _ => none

/-- The bytes of a text in canonical form. -/
def decode? : List Char → Option (List UInt8)
  | [] => some []
  | first :: second :: third :: fourth :: rest =>
    if fourth = '=' then
      if rest ≠ [] then none
      else if third = '=' then lastOne first second
      else lastTwo first second third
    else
      match group first second third fourth with
      | some bytes => (decode? rest).map (bytes ++ ·)
      | none => none
  | _ => none

end Interchange.Base64
