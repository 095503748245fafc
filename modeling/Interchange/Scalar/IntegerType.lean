import Interchange.Number.Binary64
/-!
Fixed-width integer types and the integers they hold. Two ways lead into a type: `wrap` keeps an
integer modulo the width, `saturate` stops at the nearer bound.
-/
namespace Interchange

inductive Width where
  | byte
  | half
  | word
  | double
  deriving DecidableEq, Repr

def Width.bits : Width → Nat
  | .byte => 8
  | .half => 16
  | .word => 32
  | .double => 64

structure IntegerType where
  signed : Bool
  width : Width
  deriving DecidableEq, Repr

namespace IntegerType

def least (type : IntegerType) : Int :=
  if type.signed then -2 ^ (type.width.bits - 1) else 0

def greatest (type : IntegerType) : Int :=
  if type.signed then 2 ^ (type.width.bits - 1) - 1 else 2 ^ type.width.bits - 1

structure Number (type : IntegerType) where
  val : Int
  lower : type.least ≤ val
  upper : val ≤ type.greatest
  deriving DecidableEq

def residue (type : IntegerType) (number : Int) : Int :=
  if type.signed then Int.bmod number (2 ^ type.width.bits) else number % 2 ^ type.width.bits

theorem least_le_residue (type : IntegerType) (number : Int) :
    type.least ≤ type.residue number := by
  obtain ⟨signed, width⟩ := type
  cases signed <;> cases width <;> simp [least, residue, Width.bits, Int.bmod] <;> omega

theorem residue_le_greatest (type : IntegerType) (number : Int) :
    type.residue number ≤ type.greatest := by
  obtain ⟨signed, width⟩ := type
  cases signed <;> cases width <;> simp [greatest, residue, Width.bits, Int.bmod] <;> omega

theorem least_le_greatest (type : IntegerType) : type.least ≤ type.greatest := by
  obtain ⟨signed, width⟩ := type
  cases signed <;> cases width <;> decide

def wrap (type : IntegerType) (number : Int) : type.Number :=
  ⟨type.residue number, type.least_le_residue number, type.residue_le_greatest number⟩

-- A number that is not one becomes zero, which every type holds; the outer bounds keep that
-- visible.
def saturate (type : IntegerType) (number : Binary64) : type.Number :=
  ⟨max type.least (min type.greatest (number.datum.saturate type.least type.greatest)),
    by have := type.least_le_greatest; omega, by have := type.least_le_greatest; omega⟩

end IntegerType

end Interchange
