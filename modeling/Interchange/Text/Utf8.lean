/-!
UTF-8 on lists of bytes. `scan` reads the longest well-formed run and returns what is
left, so the text is well formed exactly when nothing is left. Overlong forms, surrogates and
code points above U+10FFFF are refused.
-/
namespace Interchange.Utf8

def encodeChar (character : Char) : List UInt8 :=
  let code := character.toNat
  if code < 0x80 then [.ofNat code]
  else if code < 0x800 then [.ofNat (0xC0 + code / 64), .ofNat (0x80 + code % 64)]
  else if code < 0x10000 then
    [.ofNat (0xE0 + code / 4096), .ofNat (0x80 + code / 64 % 64), .ofNat (0x80 + code % 64)]
  else
    [.ofNat (0xF0 + code / 262144), .ofNat (0x80 + code / 4096 % 64),
      .ofNat (0x80 + code / 64 % 64), .ofNat (0x80 + code % 64)]

def encodeChars (text : List Char) : List UInt8 := text.flatMap encodeChar

def encode (text : String) : List UInt8 := encodeChars text.toList

def isContinuation (byte : UInt8) : Bool := 0x80 ≤ byte.toNat && byte.toNat < 0xC0

def pair (first second : UInt8) : Option Char :=
  if 0xC2 ≤ first.toNat && first.toNat < 0xE0 && isContinuation second then
    some (.ofNat ((first.toNat - 0xC0) * 64 + (second.toNat - 0x80)))
  else none

def triple (first second third : UInt8) : Option Char :=
  let code := (first.toNat - 0xE0) * 4096 + (second.toNat - 0x80) * 64 + (third.toNat - 0x80)
  if 0xE0 ≤ first.toNat && first.toNat < 0xF0 && isContinuation second && isContinuation third &&
      0x800 ≤ code && (code < 0xD800 || 0xE000 ≤ code) then
    some (.ofNat code)
  else none

def quadruple (first second third fourth : UInt8) : Option Char :=
  let code := (first.toNat - 0xF0) * 262144 + (second.toNat - 0x80) * 4096 +
    (third.toNat - 0x80) * 64 + (fourth.toNat - 0x80)
  if 0xF0 ≤ first.toNat && first.toNat < 0xF5 && isContinuation second && isContinuation third &&
      isContinuation fourth && 0x10000 ≤ code && code < 0x110000 then
    some (.ofNat code)
  else none

/-- The characters read so far, in reverse, and the bytes to read; stops before the first
ill-formed sequence. -/
def scanFrom (read : List Char) : List UInt8 → List Char × List UInt8
  | [] => (read.reverse, [])
  | first :: afterFirst =>
    if first.toNat < 0x80 then scanFrom (.ofNat first.toNat :: read) afterFirst
    else
      match afterFirst with
      | [] => (read.reverse, [first])
      | second :: afterSecond =>
        match pair first second with
        | some character => scanFrom (character :: read) afterSecond
        | none =>
          match afterSecond with
          | [] => (read.reverse, [first, second])
          | third :: afterThird =>
            match triple first second third with
            | some character => scanFrom (character :: read) afterThird
            | none =>
              match afterThird with
              | [] => (read.reverse, [first, second, third])
              | fourth :: afterFourth =>
                match quadruple first second third fourth with
                | some character => scanFrom (character :: read) afterFourth
                | none => (read.reverse, first :: second :: third :: fourth :: afterFourth)

def scan (bytes : List UInt8) : List Char × List UInt8 := scanFrom [] bytes

/-- The text of well-formed bytes. -/
def decode (bytes : List UInt8) : Option String :=
  match scan bytes with
  | (characters, []) => some (String.ofList characters)
  | _ => none

end Interchange.Utf8
