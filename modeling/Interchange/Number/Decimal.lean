import Interchange.Number.Binary64
/-!
Decimal text of doubles. `Decimal.shortest` finds the fewest digits that read
back as the same double, the closest such decimal to it when there are several. A
format then only decides how the digits are laid out, and which of two equally close
decimals it takes.
-/
namespace Interchange

-- The number `digits * 10 ^ exponent`.
structure Decimal where
  digits : Nat
  exponent : Int
  deriving DecidableEq, Repr

namespace Decimal

-- The choice between two decimals that are equally close to a datum.
inductive Tie where
  | toEven
  | upward
  deriving DecidableEq, Repr

/-- A power of ten times a quotient, as a quotient. -/
def scale (numerator denominator : Nat) (power : Int) : Nat × Nat :=
  (numerator * 10 ^ power.toNat, denominator * 10 ^ (-power).toNat)

-- The reals that round to a datum: both ends are quotients over `denominator`
-- and belong to the interval when `closed`. Below a power of two the grid is twice as fine.
structure Interval where
  lower : Nat
  value : Nat
  upper : Nat
  denominator : Nat
  closed : Bool

def interval (format : BinaryFormat) (significand : Nat) (exponent : Int) : Interval :=
  let quarter := exponent - 2
  let unit := 2 ^ quarter.toNat
  let below :=
    if significand = 2 ^ format.fractionWidth ∧ format.leastExponent < exponent then 1 else 2
  { lower := (4 * significand - below) * unit
    value := 4 * significand * unit
    upper := (4 * significand + 2) * unit
    denominator := 2 ^ (-quarter).toNat
    closed := significand % 2 = 0 }

def Interval.admits (around : Interval) (numerator denominator : Nat) : Bool :=
  let point := numerator * around.denominator
  let lower := around.lower * denominator
  let upper := around.upper * denominator
  if around.closed then lower ≤ point && point ≤ upper else lower < point && point < upper

/-- The exponent of the leading decimal digit of a positive quotient. -/
def leadingExponent (numerator denominator : Nat) : Int :=
  let estimate := Int.fdiv (((numerator.log2 : Int) - denominator.log2) * 30103) 100000
  let reaches (power : Int) : Bool :=
    let scaled := scale numerator denominator (-power)
    scaled.2 ≤ scaled.1
  if reaches (estimate + 1) then estimate + 1
  else if reaches estimate then estimate
  else estimate - 1

-- The two neighbours of the value on the grid `10 ^ power`. If any point of the grid reads
-- back as the value, one of these does.
def onGrid (tie : Tie) (around : Interval) (power : Int) : Option Nat :=
  let value := scale around.value around.denominator (-power)
  let floor := value.1 / value.2
  let reads (candidate : Nat) : Bool :=
    let point := scale candidate 1 power
    around.admits point.1 point.2
  let remainder := 2 * (value.1 % value.2)
  let tieIsFloor := tie = .toEven && floor % 2 = 0
  let nearer :=
    if remainder < value.2 || (remainder = value.2 && tieIsFloor) then floor else floor + 1
  let farther := if nearer = floor then floor + 1 else floor
  if nearer ≠ 0 && reads nearer then some nearer
  else if farther ≠ 0 && reads farther then some farther
  else none

-- Seventeen digits always read back, so the countdown never ends the search.
def search (tie : Tie) (around : Interval) (power : Int) : Nat → Decimal
  | 0 => ⟨around.value / around.denominator, 0⟩
  | budget + 1 =>
    match onGrid tie around power with
    | some digits => ⟨digits, power⟩
    | none => search tie around (power - 1) budget

/-- The same number without zeros at the end of its digits. -/
def trim : Nat → Decimal → Decimal
  | 0, decimal => decimal
  | budget + 1, decimal =>
    if decimal.digits ≠ 0 && decimal.digits % 10 = 0 then
      trim budget ⟨decimal.digits / 10, decimal.exponent + 1⟩
    else decimal

/-- The shortest decimal that reads back as a positive datum. -/
def shortest (tie : Tie) (format : BinaryFormat) (significand : Nat) (exponent : Int) : Decimal :=
  let around := interval format significand exponent
  trim 18 (search tie around (leadingExponent around.value around.denominator) 18)

def digitText (decimal : Decimal) : List Char := Nat.toDigits 10 decimal.digits

/-- The exponent of the first digit. -/
def magnitude (decimal : Decimal) : Int := decimal.exponent + decimal.digitText.length - 1

-- All digits around a point; a whole number has no point.
def positional (decimal : Decimal) : List Char :=
  let digits := decimal.digitText
  let places := (-decimal.exponent).toNat
  if places = 0 then digits ++ List.replicate decimal.exponent.toNat '0'
  else if digits.length ≤ places then
    '0' :: '.' :: (List.replicate (places - digits.length) '0' ++ digits)
  else
    digits.take (digits.length - places) ++ '.' :: digits.drop (digits.length - places)

/-- One digit before the point and a signed exponent. -/
def scientific (decimal : Decimal) : List Char :=
  let mantissa :=
    match decimal.digitText with
    | [] => []
    | [digit] => [digit]
    | digit :: rest => digit :: '.' :: rest
  let sign := if decimal.magnitude < 0 then '-' else '+'
  mantissa ++ 'e' :: sign :: Nat.toDigits 10 decimal.magnitude.natAbs

def withPoint (text : List Char) : List Char :=
  if text.contains '.' then text else text ++ ['.', '0']

end Decimal

namespace Binary64

/-- How a format writes a finite magnitude. -/
def render (tie : Decimal.Tie) (layout : Decimal → List Char) (zero : List Char)
    (number : Binary64) : List Char :=
  match number.datum with
  | .notANumber => "NaN".toList
  | .infinite negative => if negative then "-inf".toList else "inf".toList
  | .finite negative significand exponent =>
    let digits :=
      if significand = 0 then zero else layout (.shortest tie .double significand exponent)
    if negative then '-' :: digits else digits

-- Messages spell a number out in full, mark a whole one by `.0` and settle a tie upward.
def spelled (number : Binary64) : List Char :=
  number.render .upward (fun decimal => Decimal.withPoint decimal.positional) "0.0".toList

end Binary64

end Interchange
