import Interchange.Number.BinaryFormat
/-!
Double and single precision numbers by their bit patterns. Two patterns are equal as Lean
values when their bits agree, and equal as numbers by `Binary64.equals`, for
which the zeros agree and what is not a number differs from itself.
-/
namespace Interchange

structure Binary64 where
  bits : UInt64
  deriving DecidableEq, Repr, Inhabited

structure Binary32 where
  bits : UInt32
  deriving DecidableEq, Repr, Inhabited

namespace Binary64

def datum (number : Binary64) : Datum := BinaryFormat.double.datum number.bits.toNat

def ofPattern (pattern : Nat) : Binary64 := ⟨UInt64.ofNat pattern⟩

def ofQuotient (negative : Bool) (numerator denominator : Nat) : Binary64 :=
  ofPattern (BinaryFormat.double.ofQuotient negative numerator denominator)

/-- The double nearest to an integer. -/
def ofInt (number : Int) : Binary64 := ofQuotient (number < 0) number.natAbs 1

def ofNat (number : Nat) : Binary64 := ofQuotient false number 1

def zero (negative : Bool) : Binary64 := ofQuotient negative 0 1

def isFinite (number : Binary64) : Bool :=
  match number.datum with
  | .finite _ _ _ => true
  | _ => false

def isNaN (number : Binary64) : Bool := number.datum = .notANumber

def negate (number : Binary64) : Binary64 := ⟨number.bits ^^^ 0x8000000000000000⟩

def multiply (left right : Binary64) : Binary64 :=
  ofPattern (Datum.multiply .double left.datum right.datum)

def divide (left right : Binary64) : Binary64 :=
  ofPattern (Datum.divide .double left.datum right.datum)

-- Patterns of one sign are ordered as their numbers are, and both zeros get rank 0.
def rank (number : Binary64) : Option Int :=
  if number.isNaN then none
  else
    let magnitude : Int := (number.bits.toNat % BinaryFormat.double.signPattern : Nat)
    some (if BinaryFormat.double.signPattern ≤ number.bits.toNat then -magnitude else magnitude)

/-- Numeric equality. -/
def equals (left right : Binary64) : Bool :=
  match left.rank, right.rank with
  | some a, some b => a == b
  | _, _ => false

/-- Numeric order; false when either side is not a number. -/
def exceeds (left right : Binary64) : Bool :=
  match left.rank, right.rank with
  | some a, some b => b < a
  | _, _ => false

end Binary64

namespace Binary32

def datum (number : Binary32) : Datum := BinaryFormat.single.datum number.bits.toNat

def ofPattern (pattern : Nat) : Binary32 := ⟨UInt32.ofNat pattern⟩

/-- The single nearest to an integer. -/
def ofInt (number : Int) : Binary32 :=
  ofPattern (BinaryFormat.single.ofQuotient (number < 0) number.natAbs 1)

/-- Every single is a double. -/
def widen (number : Binary32) : Binary64 :=
  .ofPattern (BinaryFormat.double.ofDatum number.datum)

end Binary32

/-- The single nearest to a double. -/
def Binary64.narrow (number : Binary64) : Binary32 :=
  .ofPattern (BinaryFormat.single.ofDatum number.datum)

end Interchange
