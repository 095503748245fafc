import Interchange.Number.Power
/-!
IEEE 754 binary interchange formats, seen as bit patterns. A pattern denotes a
datum; an exact quotient of naturals is rounded to a pattern once, to the
nearest datum, a tie going to the even pattern and an overflow to infinity.
Every number that changes width or is read from text goes through `nearest`,
so there is one place where rounding happens.
-/
namespace Interchange

structure BinaryFormat where
  fractionWidth : Nat
  exponentWidth : Nat
  deriving DecidableEq, Repr

-- A finite datum is `significand * 2 ^ exponent`, with its own sign for zero.
inductive Datum where
  | notANumber
  | infinite (negative : Bool)
  | finite (negative : Bool) (significand : Nat) (exponent : Int)
  deriving DecidableEq, Repr

namespace BinaryFormat

def single : BinaryFormat := ⟨23, 8⟩

def double : BinaryFormat := ⟨52, 11⟩

def precision (format : BinaryFormat) : Nat := format.fractionWidth + 1

-- The exponent of the last place of the smallest datum, shared by all subnormals.
def leastExponent (format : BinaryFormat) : Int :=
  2 - 2 ^ (format.exponentWidth - 1) - format.fractionWidth

def signPattern (format : BinaryFormat) : Nat :=
  2 ^ (format.fractionWidth + format.exponentWidth)

def infinityPattern (format : BinaryFormat) : Nat :=
  (2 ^ format.exponentWidth - 1) * 2 ^ format.fractionWidth

def quietPattern (format : BinaryFormat) : Nat :=
  format.infinityPattern + 2 ^ (format.fractionWidth - 1)

def finiteDatum (format : BinaryFormat) (negative : Bool) (magnitude : Nat) : Datum :=
  let fraction := magnitude % 2 ^ format.fractionWidth
  let field := magnitude / 2 ^ format.fractionWidth
  if field = 0 then
    .finite negative fraction format.leastExponent
  else
    .finite negative (fraction + 2 ^ format.fractionWidth) (format.leastExponent + (field - 1))

def datum (format : BinaryFormat) (pattern : Nat) : Datum :=
  let negative : Bool := format.signPattern ≤ pattern
  let magnitude := pattern % format.signPattern
  if format.infinityPattern < magnitude then .notANumber
  else if magnitude = format.infinityPattern then .infinite negative
  else format.finiteDatum negative magnitude

/-- The integer nearest to a quotient, a tie going to the even one. -/
def quotientToEven (numerator denominator : Nat) : Nat :=
  let quotient := numerator / denominator
  let twice := 2 * (numerator % denominator)
  if twice < denominator then quotient
  else if denominator < twice then quotient + 1
  else quotient + quotient % 2

/-- The quotient divided by a power of two, as a quotient again. -/
def unscale (numerator denominator : Nat) (exponent : Int) : Nat × Nat :=
  (numerator * 2 ^ (-exponent).toNat, denominator * 2 ^ exponent.toNat)

-- Logarithms place the quotient within a factor of two. One comparison then
-- finds the exponent at which it has `precision` binary digits, or the least one.
def placeExponent (format : BinaryFormat) (numerator denominator : Nat) : Int :=
  let estimate : Int := (numerator.log2 : Int) - denominator.log2 - format.precision
  let exponent := max format.leastExponent estimate
  let scaled := unscale numerator denominator exponent
  if 2 ^ format.precision * scaled.2 ≤ scaled.1 then exponent + 1 else exponent

-- Counting patterns upward counts data upward, so a carry out of the
-- significand lands on the next exponent without a case of its own.
def nearest (format : BinaryFormat) (numerator denominator : Nat) : Nat :=
  if numerator = 0 then 0
  else
    let exponent := format.placeExponent numerator denominator
    let scaled := unscale numerator denominator exponent
    let steps := (exponent - format.leastExponent).toNat
    min format.infinityPattern
      (quotientToEven scaled.1 scaled.2 + steps * 2 ^ format.fractionWidth)

def signed (format : BinaryFormat) (negative : Bool) (magnitude : Nat) : Nat :=
  if negative then format.signPattern + magnitude else magnitude

def infinity (format : BinaryFormat) (negative : Bool) : Nat :=
  format.signed negative format.infinityPattern

/-- The pattern nearest to a signed quotient. -/
def ofQuotient (format : BinaryFormat) (negative : Bool) (numerator denominator : Nat) : Nat :=
  format.signed negative (format.nearest numerator denominator)

/-- The pattern nearest to a datum of any format. -/
def ofDatum (format : BinaryFormat) : Datum → Nat
  | .notANumber => format.quietPattern
  | .infinite negative => format.infinity negative
  | .finite negative significand exponent =>
    format.ofQuotient negative (significand * 2 ^ exponent.toNat) (2 ^ (-exponent).toNat)

end BinaryFormat

namespace Datum

-- Sign rule and the indeterminate forms come first, so that only finite
-- magnitudes reach the exact arithmetic.
def multiply (format : BinaryFormat) : Datum → Datum → Nat
  | .notANumber, _ | _, .notANumber => format.quietPattern
  | .infinite left, .infinite right => format.infinity (left != right)
  | .infinite left, .finite right significand _ | .finite right significand _, .infinite left =>
    if significand = 0 then format.quietPattern else format.infinity (left != right)
  | .finite left a p, .finite right b q =>
    format.ofQuotient (left != right) (a * b * 2 ^ (p + q).toNat) (2 ^ (-(p + q)).toNat)

def divide (format : BinaryFormat) : Datum → Datum → Nat
  | .notANumber, _ | _, .notANumber => format.quietPattern
  | .infinite _, .infinite _ => format.quietPattern
  | .infinite left, .finite right _ _ => format.infinity (left != right)
  | .finite left _ _, .infinite right => format.signed (left != right) 0
  | .finite left a p, .finite right b q =>
    if b = 0 then
      if a = 0 then format.quietPattern else format.infinity (left != right)
    else
      format.ofQuotient (left != right) (a * 2 ^ (p - q).toNat) (b * 2 ^ (q - p).toNat)

/-- The integer part, toward zero. -/
def truncate : Datum → Int
  | .notANumber => 0
  | .infinite _ => 0
  | .finite negative significand exponent =>
    let magnitude : Int := significand * 2 ^ exponent.toNat / 2 ^ (-exponent).toNat
    if negative then -magnitude else magnitude

/-- The integer part kept within bounds: infinities stop at a bound and what is not a number is
zero. -/
def saturate (least greatest : Int) : Datum → Int
  | .notANumber => 0
  | .infinite negative => if negative then least else greatest
  | number => max least (min greatest number.truncate)

end Datum

end Interchange
