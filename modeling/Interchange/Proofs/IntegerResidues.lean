import Mathlib.Data.Int.ModEq
import Interchange.Proofs.EnumerationIntegers
import Interchange.Proofs.NormalizedValues
/-!
Integers brought into the range of a type. A type has one number for each residue modulo its width, and
reading takes the one that is congruent to what is stored. Main statement: written numbers are read
back, a stored integer of either word is read as the number of its residue, and reading at a wide
type first makes no difference to a type that is no wider.
-/
namespace Interchange

namespace IntegerType

variable (type : IntegerType)

theorem residue_congruent (number : Int) :
    type.residue number ≡ number [ZMOD 2 ^ type.width.bits] := by
  rw [residue]
  split
  · have balanced : Int.bmod number (2 ^ type.width.bits) % (2 ^ type.width.bits : Nat) =
        number % (2 ^ type.width.bits : Nat) := Int.bmod_emod
    rwa [Nat.cast_pow] at balanced
  · exact Int.mod_modEq number _

theorem residue_same {number other : Int} (congruent : number ≡ other [ZMOD 2 ^ type.width.bits]) :
    type.residue number = type.residue other := by
  have remainders : number % (2 ^ type.width.bits : Nat) = other % (2 ^ type.width.bits : Nat) := by
    rw [Nat.cast_pow]
    exact congruent
  rw [residue, residue]
  split
  · rw [← Int.emod_bmod number, remainders, Int.emod_bmod]
  · exact congruent

/-- A type tells integers apart just by their residues. -/
theorem wrap_eq_iff (number other : Int) :
    type.wrap number = type.wrap other ↔ number ≡ other [ZMOD 2 ^ type.width.bits] := by
  constructor
  · intro same
    have residues : type.residue number = type.residue other := congrArg Number.val same
    calc number ≡ type.residue number [ZMOD 2 ^ type.width.bits] :=
          (type.residue_congruent number).symm
      _ = type.residue other := residues
      _ ≡ other [ZMOD 2 ^ type.width.bits] := type.residue_congruent other
  · intro congruent
    simp only [wrap, type.residue_same congruent]

/-- The number that an integer is brought to is the only one of its type with that residue. -/
theorem congruent_iff (number : type.Number) (other : Int) :
    number.val ≡ other [ZMOD 2 ^ type.width.bits] ↔ number = type.wrap other := by
  rw [← wrap_eq_iff, wrap_number]

theorem wrap_kept_iff (number : Int) :
    (type.wrap number).val = number ↔ type.least ≤ number ∧ number ≤ type.greatest := by
  constructor
  · intro kept
    rw [← kept]
    exact ⟨(type.wrap number).lower, (type.wrap number).upper⟩
  · rintro ⟨lower, upper⟩
    exact type.residue_of_bounds number lower upper

/-- A wider type keeps everything that a narrower one looks at, whatever their signs. -/
theorem wrap_narrowed {narrow : IntegerType} (narrower : narrow.width.bits ≤ type.width.bits)
    (number : Int) : narrow.wrap (type.wrap number).val = narrow.wrap number := by
  rw [wrap_eq_iff]
  exact (type.residue_congruent number).of_dvd (pow_dvd_pow 2 narrower)

end IntegerType

theorem ScalarType.written_canonical {type : IntegerType} (number : type.Number) :
    (ofInteger number).Canonical := by
  rw [ofInteger]
  split
  · trivial
  · exact Value.canonical_unsigned _

/-- Integers and integer types. What a type writes is in the word that readers choose for it and is
read back; what it reads of an integer, of either word, is the one number of the type congruent to
it, so the integer itself just if the type holds it; and a narrower type reads the same from the
integer as from what a wider type makes of it. -/
theorem integers_read_by_residue (type : IntegerType) :
    (∀ number : type.Number,
      (ScalarType.integer type).read? ((ScalarType.integer type).write number) = some number ∧
      ((ScalarType.integer type).write number).integer? = some number.val ∧
      ((ScalarType.integer type).write number).Canonical) ∧
    ∀ stored number, Value.integer? stored = some number → ∃ found : type.Number,
      (ScalarType.integer type).read? stored = some found ∧
      (∀ other : type.Number, other.val ≡ number [ZMOD 2 ^ type.width.bits] ↔ other = found) ∧
      (found.val = number ↔ type.least ≤ number ∧ number ≤ type.greatest) ∧
      (∀ other, Value.integer? other = some number →
        (ScalarType.integer type).read? other = some found) ∧
      ∀ narrow : IntegerType, narrow.width.bits ≤ type.width.bits →
        (ScalarType.integer narrow).read? ((ScalarType.integer type).write found) =
          (ScalarType.integer narrow).read? stored := by
  refine ⟨fun number => ⟨ScalarType.read_integer type number, ScalarType.integer_written number,
    ScalarType.written_canonical number⟩, ?_⟩
  intro stored number integral
  refine ⟨type.wrap number, ScalarType.read_integral type integral,
    fun other => type.congruent_iff other number, type.wrap_kept_iff number,
    fun other same => ScalarType.read_integral type same, ?_⟩
  intro narrow narrower
  have direct := ScalarType.read_integral narrow integral
  have again := ScalarType.read_integral narrow (ScalarType.integer_written (type.wrap number))
  rw [type.wrap_narrowed narrower] at again
  exact again.trans direct.symm

/-- A number above the signed half range, in either word, is read below zero there; a byte
reads the same from it directly. -/
theorem half_read_by_residue :
    let half : IntegerType := ⟨true, .half⟩
    let byte : IntegerType := ⟨false, .byte⟩
    let below : half.Number := ⟨-25536, by decide, by decide⟩
    ((Value.unsigned 40000).integer? = some 40000 ∧ (Value.integer 40000).integer? = some 40000 ∧
      byte.width.bits ≤ half.width.bits) ∧
    (ScalarType.integer half).read? (.unsigned 40000) = some below ∧
    (ScalarType.integer half).read? (.integer 40000) = some below ∧
    (ScalarType.integer byte).read? ((ScalarType.integer half).write below) =
      (ScalarType.integer byte).read? (.unsigned 40000) := by
  intro half byte below
  have word : (Value.unsigned 40000).integer? = some 40000 := by decide
  have other : (Value.integer 40000).integer? = some 40000 := by decide
  have narrower : byte.width.bits ≤ half.width.bits := by decide
  obtain ⟨-, reads⟩ := integers_read_by_residue half
  obtain ⟨found, read, unique, -, again, narrowed⟩ := reads _ _ word
  have same : below = found := (unique below).mp (by decide)
  rw [← same] at read again narrowed
  exact ⟨⟨word, other, narrower⟩, read, again _ other, narrowed byte narrower⟩

end Interchange
