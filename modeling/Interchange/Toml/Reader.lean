import Interchange.Text.Hexadecimal
import Interchange.Toml.Document
/-!
Reading TOML text. A reader takes characters from the front of what is left or fails; why a text
is malformed is not told. Arrays and tables in braces nest less than eighty deep, and so do
dotted keys.
-/
namespace Interchange.Toml

abbrev Read (α : Type) := StateT (List Char) Option α

def maxDepth : Nat := 79

namespace Read

def peek : Read (Option Char) := do return (← get).head?

def takeWhile (test : Char → Bool) : Read (List Char) :=
  modifyGet fun rest => (rest.takeWhile test, rest.dropWhile test)

def exactly (text : List Char) : Read Unit := do
  let rest ← get
  if text.isPrefixOf rest then set (rest.drop text.length) else failure

def startsWith (text : String) : Read Bool := do return text.toList.isPrefixOf (← get)

def one (test : Char → Bool) : Read Char := do
  match ← get with
  | [] => failure
  | next :: rest =>
    if test next then
      set rest
      return next
    else failure

/-- The reader's result, or nothing and no progress. -/
def attempt {α : Type} (reader : Read α) : Read (Option α) := fun rest =>
  match reader rest with
  | some (result, after) => some (some result, after)
  | none => some (none, rest)

def isBlank (character : Char) : Bool := character = ' ' || character = '\t'

def blanks : Read Unit := do
  let _ ← takeWhile isBlank

-- Beyond the tab no control character may stand in a comment or between quotes.
def isPlain (character : Char) : Bool :=
  character = '\t' || (0x20 ≤ character.toNat && character.toNat ≠ 0x7F)

def comment : Read Unit := do
  if ← startsWith "#" then
    let _ ← takeWhile isPlain

def lineEnd : Read Unit := do
  match ← get with
  | [] => return ()
  | '\n' :: rest => set rest
  | '\r' :: '\n' :: rest => set rest
  | _ => failure

/-- What may follow a statement on its line. -/
def endOfLine : Read Unit := do
  blanks
  comment
  lineEnd

/-- Blanks, line ends and whole comments, as arrays allow between their items. -/
def filler (inComment : Bool) : List Char → Option (List Char)
  | [] => if inComment then none else some []
  | '\n' :: rest => filler false rest
  | '\r' :: '\n' :: rest => filler false rest
  | next :: rest =>
    if inComment then if isPlain next then filler true rest else none
    else if isBlank next then filler false rest
    else if next = '#' then filler true rest
    else some (next :: rest)

def skipFiller : Read Unit := fun rest => (filler false rest).map fun after => ((), after)

-- Text

def codePoint (count : Nat) : Read Char := do
  let rest ← get
  let digits := rest.take count
  let code ← Text.hexNumber? digits
  if digits.length = count && code.isValidChar then
    set (rest.drop count)
    return .ofNat code
  else failure

def escaped : Read Char := do
  match ← one (fun _ => true) with
  | 'b' => return '\x08'
  | 't' => return '\t'
  | 'n' => return '\n'
  | 'f' => return '\x0c'
  | 'r' => return '\r'
  | '"' => return '"'
  | '\\' => return '\\'
  | 'u' => codePoint 4
  | 'U' => codePoint 8
  | _ => failure

/-- Text in double quotes on one line; `bound` counts off the characters of the document. -/
def basicText : Nat → List Char → Read String
  | 0, _ => failure
  | bound + 1, done => do
    let next ← one isPlain
    if next = '"' then return String.ofList done.reverse
    else if next = '\\' then basicText bound ((← escaped) :: done)
    else basicText bound (next :: done)

def literalText : Read String := do
  let content ← takeWhile fun character => isPlain character && character ≠ '\x27'
  exactly ['\x27']
  return String.ofList content

-- A run of three to five quotes ends a text of several lines; what is more than three belongs
-- to it.
def closing (quote : Char) : Read (Option (List Char)) := do
  let rest ← get
  let run := (rest.takeWhile (· = quote)).length
  if run < 3 then return none
  else
    let taken := min run 5
    set (rest.drop taken)
    return some (List.replicate (taken - 3) quote)

/-- A line end inside a text of several lines. -/
def breakInText : Read Bool := do
  match ← get with
  | '\n' :: rest =>
    set rest
    return true
  | '\r' :: '\n' :: rest =>
    set rest
    return true
  | _ => return false

def skipBreaks : List Char → List Char
  | '\n' :: rest => skipBreaks rest
  | '\r' :: '\n' :: rest => skipBreaks rest
  | next :: rest => if isBlank next then skipBreaks rest else next :: rest
  | [] => []

-- A backslash at the end of a line joins it to the next text that is not blank.
def continuation : Read Bool := fun rest =>
  match rest.dropWhile isBlank with
  | '\n' :: after => some (true, skipBreaks after)
  | '\r' :: '\n' :: after => some (true, skipBreaks after)
  | _ => some (false, rest)

def basicLines : Nat → List Char → Read String
  | 0, _ => failure
  | bound + 1, done => do
    match ← closing '"' with
    | some quotes => return String.ofList (done.reverse ++ quotes)
    | none =>
      if ← breakInText then basicLines bound ('\n' :: done)
      else
        let next ← one isPlain
        if next = '\\' then
          if ← continuation then basicLines bound done
          else basicLines bound ((← escaped) :: done)
        else basicLines bound (next :: done)

def literalLines : Nat → List Char → Read String
  | 0, _ => failure
  | bound + 1, done => do
    match ← closing '\x27' with
    | some quotes => return String.ofList (done.reverse ++ quotes)
    | none =>
      if ← breakInText then literalLines bound ('\n' :: done)
      else literalLines bound ((← one isPlain) :: done)

def text (bound : Nat) : Read String := do
  if ← startsWith "\"\"\"" then
    exactly ['"', '"', '"']
    let _ ← breakInText
    basicLines bound []
  else if ← startsWith "\x27\x27\x27" then
    exactly ['\x27', '\x27', '\x27']
    let _ ← breakInText
    literalLines bound []
  else if ← startsWith "\"" then
    exactly ['"']
    basicText bound []
  else
    exactly ['\x27']
    literalText

-- Keys

def isBareKey (character : Char) : Bool :=
  character.isAlphanum || character = '_' || character = '-'

def simpleKey (bound : Nat) : Read String := do
  match ← peek with
  | some '"' =>
    exactly ['"']
    basicText bound []
  | some '\x27' =>
    exactly ['\x27']
    literalText
  | _ =>
    let name ← takeWhile isBareKey
    if name.isEmpty then failure
    return String.ofList name

/-- The parts of a dotted key, at most as many as the budget. -/
def keyParts (bound : Nat) : Nat → Read (List String)
  | 0 => failure
  | budget + 1 => do
    blanks
    let part ← simpleKey bound
    blanks
    if (← peek) = some '.' then
      exactly ['.']
      return part :: (← keyParts bound budget)
    else return [part]

/-- A dotted key as the path to its last part. -/
def key (bound : Nat) : Read (List String × String) := do
  let parts ← keyParts bound maxDepth
  match parts.getLast? with
  | some last => return (parts.dropLast, last)
  | none => failure

-- Numbers and dates

/-- Digits with single underscores between them. -/
def groupedDigits (isDigit : Char → Bool) (afterDigit : Bool) : List Char → List Char × List Char
  | [] => ([], [])
  | next :: rest =>
    if isDigit next then
      let (digits, after) := groupedDigits isDigit true rest
      (next :: digits, after)
    else if next = '_' && afterDigit && rest.head?.any isDigit then
      groupedDigits isDigit false rest
    else ([], next :: rest)

def digits (isDigit : Char → Bool) : Read (List Char) := do
  let (found, rest) := groupedDigits isDigit false (← get)
  if found.isEmpty then failure
  set rest
  return found

def decimal (digits : List Char) : Nat :=
  digits.foldl (fun total digit => total * 10 + (digit.toNat - 48)) 0

def sign : Read Bool := do
  match ← peek with
  | some '-' =>
    exactly ['-']
    return true
  | some '+' =>
    exactly ['+']
    return false
  | _ => return false

/-- Decimal digits of which the first is zero only when it is the last. -/
def wholeDigits : Read (List Char) := do
  if (← peek) = some '0' then
    exactly ['0']
    return ['0']
  else digits Char.isDigit

-- Far outside the range of doubles the power itself need not be worked out.
def floatOf (negative : Bool) (significand : Nat) (exponent : Int) : Binary64 :=
  let places := (Nat.toDigits 10 significand).length + exponent
  if significand = 0 || places < -400 then .zero negative
  else if 400 < places then .ofPattern (BinaryFormat.double.infinity negative)
  else
    .ofQuotient negative (significand * 10 ^ exponent.toNat) (10 ^ (-exponent).toNat)

def exponent : Read Int := do
  let _ ← one fun next => next = 'e' || next = 'E'
  let negative ← sign
  let magnitude := decimal (← digits Char.isDigit)
  return if negative then -magnitude else magnitude

/-- A number with a fraction or an exponent; only below zero may it be too large. -/
def float : Read Node := do
  let negative ← sign
  let whole ← wholeDigits
  let fraction : List Char ←
    if (← peek) = some '.' then do
      exactly ['.']
      digits Char.isDigit
    else pure []
  let power : Option Int ←
    match ← peek with
    | some 'e' => some <$> exponent
    | some 'E' => some <$> exponent
    | _ => pure none
  if fraction.isEmpty && power.isNone then failure
  let number := floatOf negative (decimal (whole ++ fraction)) (power.getD 0 - fraction.length)
  if !negative && !number.isFinite then failure
  return .float number

def specialFloat : Read Node := do
  let negative ← sign
  if ← startsWith "inf" then
    exactly ['i', 'n', 'f']
    return .float (.ofPattern (BinaryFormat.double.infinity negative))
  else
    exactly ['n', 'a', 'n']
    return .float (.ofPattern BinaryFormat.double.quietPattern)

def inRange (number : Int) : Read Node :=
  if -2 ^ 63 ≤ number && number < 2 ^ 63 then return .integer number else failure

def radix (isDigit : Char → Bool) (base : Nat) : Read Node := do
  let found ← digits isDigit
  inRange (found.foldl (fun total digit => total * base + (Text.hexDigit? digit).getD 0) 0 : Nat)

def integer : Read Node := do
  if ← startsWith "0x" then
    exactly ['0', 'x']
    radix (fun next => (Text.hexDigit? next).isSome) 16
  else if ← startsWith "0o" then
    exactly ['0', 'o']
    radix (fun next => '0' ≤ next && next ≤ '7') 8
  else if ← startsWith "0b" then
    exactly ['0', 'b']
    radix (fun next => next = '0' || next = '1') 2
  else
    let negative ← sign
    let magnitude := decimal (← wholeDigits)
    inRange (if negative then -magnitude else magnitude)

/-- A field of a date or time: so many digits, within bounds. -/
def field (count least greatest : Nat) : Read Nat := do
  let rest ← get
  let digits := rest.take count
  let number := decimal digits
  if digits.length = count && digits.all Char.isDigit && least ≤ number && number ≤ greatest then
    set (rest.drop count)
    return number
  else failure

def daysIn (year month : Nat) : Nat :=
  if month = 2 then
    if year % 4 = 0 && (year % 100 ≠ 0 || year % 400 = 0) then 29 else 28
  else if month = 4 || month = 6 || month = 9 || month = 11 then 30
  else 31

def dayOfYear : Read Unit := do
  let year ← field 4 0 9999
  exactly ['-']
  let month ← field 2 1 12
  exactly ['-']
  let _ ← field 2 1 (daysIn year month)

def timeOfDay : Read Unit := do
  let _ ← field 2 0 23
  exactly [':']
  let _ ← field 2 0 59
  exactly [':']
  let _ ← field 2 0 60
  if (← peek) = some '.' then
    exactly ['.']
    let fraction ← takeWhile Char.isDigit
    if fraction.isEmpty then failure

def offset : Read Unit := do
  match ← one fun next => next = 'Z' || next = 'z' || next = '+' || next = '-' with
  | 'Z' => return ()
  | 'z' => return ()
  | _ =>
    let _ ← field 2 0 23
    exactly [':']
    let _ ← field 2 0 59

def timeAfterDay : Read Unit := do
  let _ ← one fun next => next = 'T' || next = 't' || next = ' '
  timeOfDay
  let _ ← attempt offset

def date : Read Node := do
  match ← attempt dayOfYear with
  | some _ =>
    let _ ← attempt timeAfterDay
    return .date
  | none =>
    timeOfDay
    return .date

def number : Read Node := date <|> float <|> specialFloat <|> integer

-- Values

def items (item : Read Node) : Nat → List Node → Read (List Node)
  | 0, _ => failure
  | bound + 1, done => do
    skipFiller
    if (← peek) = some ']' then
      exactly [']']
      return done.reverse
    else
      let next ← item
      skipFiller
      if (← peek) = some ',' then
        exactly [',']
        items item bound (next :: done)
      else
        exactly [']']
        return (next :: done).reverse

def pairs (bound : Nat) (item : Read Node) : Nat → Table → Read Table
  | 0, _ => failure
  | count + 1, done => do
    let (path, name) ← key bound
    exactly ['=']
    blanks
    let next ← item
    blanks
    let done ← assign done path name next
    if (← peek) = some ',' then
      exactly [',']
      pairs bound item count done
    else
      exactly ['\x7d']
      return done

def inlineTable (bound : Nat) (item : Read Node) : Read Node := do
  blanks
  if (← peek) = some '\x7d' then
    exactly ['\x7d']
    return .table .inline []
  else return .table .inline (← pairs bound item bound [])

def single (bound : Nat) (inside : Option (Read Node)) : Read Node := do
  match ← peek with
  | none => failure
  | some next =>
    if next = '"' || next = '\x27' then return .str (← text bound)
    else if next = '[' then
      match inside with
      | some item =>
        exactly ['[']
        return .array (← items item bound [])
      | none => failure
    else if next = '\x7b' then
      match inside with
      | some item =>
        exactly ['\x7b']
        inlineTable bound item
      | none => failure
    else if next = 't' then
      exactly "true".toList
      return .bool true
    else if next = 'f' then
      exactly "false".toList
      return .bool false
    else number

def value (bound : Nat) : Nat → Read Node
  | 0 => single bound none
  | depth + 1 => single bound (some (value bound depth))

-- Lines

def header (bound : Nat) : Read Statement := do
  if ← startsWith "[[" then
    exactly ['[', '[']
    let (path, name) ← key bound
    exactly [']', ']']
    return .element path name
  else
    exactly ['[']
    let (path, name) ← key bound
    exactly [']']
    return .header path name

def pair (bound : Nat) : Read Statement := do
  let (path, name) ← key bound
  exactly ['=']
  blanks
  return .pair path name (← value bound maxDepth)

/-- One line: a statement, or nothing but blanks and a comment. -/
def line (bound : Nat) : Read (Option Statement) := do
  blanks
  match ← peek with
  | none => return none
  | some next =>
    let statement ←
      if next = '#' || next = '\n' || next = '\r' then pure none
      else if next = '[' then some <$> header bound
      else some <$> pair bound
    endOfLine
    return statement

def lines (bound : Nat) : Nat → List Statement → Read (List Statement)
  | 0, _ => failure
  | count + 1, done => do
    if (← get).isEmpty then return done.reverse
    else
      match ← line bound with
      | some statement => lines bound count (statement :: done)
      | none => lines bound count done

end Read

/-- The root table of a text; a byte order mark before it is passed over. -/
def parse (source : String) : Option Table :=
  let characters := source.toList
  let characters := if characters.head? = some '\ufeff' then characters.drop 1 else characters
  let bound := characters.length + 1
  match Read.lines bound bound [] characters with
  | some (statements, _) => build statements
  | none => none

end Interchange.Toml
