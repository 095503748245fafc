import Interchange.Proofs.Json.WrittenIntegers
/-!
A number is read from a front part of the bytes, and it is the same part and the same number with more
bytes behind it that do not belong to a number.
-/
namespace Interchange.Json.Read

/-- A read that ends where it does whatever follows, as long as that is apart. -/
def Settles (read : List UInt8 → Except Stop (Number × List UInt8)) : Prop :=
  ∀ bytes found rest, read bytes = .ok (found, rest) →
    rest <:+ bytes ∧ ∀ more, Apart more → read (bytes ++ more) = .ok (found, rest ++ more)

section Digits

variable (more : List UInt8) (apart : Apart more)
include apart

theorem head_digit_longer (bytes : List UInt8) :
    (bytes ++ more).head?.any isDigit = bytes.head?.any isDigit := by
  cases bytes with
  | cons byte rest => rfl
  | nil =>
      cases more with
      | nil => rfl
      | cons byte rest => simpa using (apart byte rfl).1

theorem drop_digits_longer (bytes : List UInt8) :
    (bytes ++ more).dropWhile isDigit = bytes.dropWhile isDigit ++ more := by
  induction bytes with
  | nil =>
      cases more with
      | nil => rfl
      | cons byte rest => simp [(apart byte rfl).1]
  | cons byte rest ih =>
      rw [List.cons_append, List.dropWhile_cons, List.dropWhile_cons]
      split
      · exact ih
      · rfl

theorem take_digits_longer (bytes : List UInt8) :
    (bytes ++ more).takeWhile isDigit = bytes.takeWhile isDigit := by
  induction bytes with
  | nil =>
      cases more with
      | nil => rfl
      | cons byte rest => simp [(apart byte rfl).1]
  | cons byte rest ih =>
      rw [List.cons_append, List.takeWhile_cons, List.takeWhile_cons, ih]

theorem significand_longer (bytes : List UInt8) (number count : Nat) :
    significand number count (bytes ++ more) =
      ((significand number count bytes).1, (significand number count bytes).2.1,
        (significand number count bytes).2.2 ++ more) := by
  induction bytes generalizing number count with
  | nil => exact significand_apart number count more apart
  | cons byte rest ih =>
      rw [List.cons_append, significand, significand]
      split
      · split
        · exact ih _ _
        · rfl
      · rfl

theorem exponent_longer (bytes : List UInt8) (number : Nat) :
    exponentDigits number (bytes ++ more) =
      ((exponentDigits number bytes).1, (exponentDigits number bytes).2 ++ more) := by
  induction bytes generalizing number with
  | nil =>
      cases more with
      | nil => rfl
      | cons byte rest =>
          have digit := (apart byte rfl).1
          simp [exponentDigits, digit]
  | cons byte rest ih =>
      rw [List.cons_append, exponentDigits, exponentDigits]
      split
      · split
        · exact ih _
        · rfl
      · rfl

end Digits

theorem significand_suffix (bytes : List UInt8) (number count : Nat) :
    (significand number count bytes).2.2 <:+ bytes := by
  induction bytes generalizing number count with
  | nil => exact List.suffix_refl []
  | cons byte rest ih =>
      rw [significand]
      split
      · split
        · exact (ih _ _).trans (List.suffix_cons byte rest)
        · exact List.suffix_refl _
      · exact List.suffix_refl _

theorem exponent_suffix (bytes : List UInt8) (number : Nat) :
    (exponentDigits number bytes).2 <:+ bytes := by
  induction bytes generalizing number with
  | nil => exact List.suffix_refl []
  | cons byte rest ih =>
      rw [exponentDigits]
      split
      · split
        · exact (ih _).trans (List.suffix_cons byte rest)
        · exact List.suffix_cons byte rest
      · exact List.suffix_refl _

/-- Putting a number together takes nothing. -/
theorem assemble_rest (negative : Bool) (amount : Nat) (power : Int) (found : Number)
    (bytes rest : List UInt8) (read : assemble negative amount power bytes = .ok (found, rest)) :
    rest = bytes ∧ ∀ other, assemble negative amount power other = .ok (found, other) := by
  unfold assemble at read ⊢
  split at read
  · cases read
    exact ⟨rfl, fun other => rfl⟩
  · cases read

/-- The part of an exponent behind its sign. -/
def unsignedExponent (negative below : Bool) (amount : Nat) (before : Int) :
    List UInt8 → Except Stop (Number × List UInt8)
  | [] => stop .endInValue []
  | byte :: rest =>
    if isDigit byte then
      match exponentDigits (digitValue byte) rest with
      | (some power, rest) =>
        assemble negative amount (if below then before - power else before + power) rest
      | (none, rest) =>
        if amount ≠ 0 && !below then stop .numberOutOfRange rest
        else .ok (.float (.zero negative), rest.dropWhile isDigit)
    else stop .invalidNumber rest

theorem exponent_sign (negative : Bool) (amount : Nat) (before : Int) (byte : UInt8)
    (rest : List UInt8) :
    exponent negative amount before (byte :: rest) =
      if byte = code '+' then unsignedExponent negative false amount before rest
      else if byte = code '-' then unsignedExponent negative true amount before rest
      else unsignedExponent negative false amount before (byte :: rest) := by
  by_cases plus : byte = code '+'
  · simp only [exponent, plus, ↓reduceIte]
    rfl
  · by_cases minus : byte = code '-'
    · simp only [exponent, minus, ↓reduceIte]
      rfl
    · simp only [exponent, plus, minus, ↓reduceIte]
      rfl

theorem unsigned_settles (negative below : Bool) (amount : Nat) (before : Int) :
    Settles (unsignedExponent negative below amount before) := by
  intro bytes found rest read
  cases bytes with
  | nil => cases read
  | cons byte others =>
      by_cases digit : isDigit byte
      · have taken := exponent_suffix others (digitValue byte)
        have longer := fun more apart => exponent_longer more apart others (digitValue byte)
        rw [unsignedExponent, if_pos digit] at read
        generalize exponentDigits (digitValue byte) others = reached at read taken longer
        obtain ⟨power, after⟩ := reached
        cases power with
        | some power =>
            obtain ⟨rfl, same⟩ := assemble_rest _ _ _ _ _ _ read
            refine ⟨taken.trans (List.suffix_cons byte others), fun more apart => ?_⟩
            rw [List.cons_append, unsignedExponent, if_pos digit, longer more apart]
            exact same (rest ++ more)
        | none =>
            simp only at read
            split at read
            · cases read
            · rename_i within
              cases read
              refine ⟨((List.dropWhile_suffix isDigit).trans taken).trans
                (List.suffix_cons byte others), fun more apart => ?_⟩
              rw [List.cons_append, unsignedExponent, if_pos digit, longer more apart,
                ← drop_digits_longer more apart]
              exact if_neg within
      · rw [unsignedExponent, if_neg digit] at read
        cases read

theorem exponent_settles (negative : Bool) (amount : Nat) (before : Int) :
    Settles (exponent negative amount before) := by
  intro bytes found rest read
  cases bytes with
  | nil => cases read
  | cons byte others =>
      rw [exponent_sign] at read
      by_cases plus : byte = code '+'
      · rw [if_pos plus] at read
        obtain ⟨suffix, longer⟩ := unsigned_settles _ _ _ _ _ _ _ read
        refine ⟨suffix.trans (List.suffix_cons byte others), fun more apart => ?_⟩
        rw [List.cons_append, exponent_sign, if_pos plus, longer more apart]
      · by_cases minus : byte = code '-'
        · rw [if_neg plus, if_pos minus] at read
          obtain ⟨suffix, longer⟩ := unsigned_settles _ _ _ _ _ _ _ read
          refine ⟨suffix.trans (List.suffix_cons byte others), fun more apart => ?_⟩
          rw [List.cons_append, exponent_sign, if_neg plus, if_pos minus, longer more apart]
        · rw [if_neg plus, if_neg minus] at read
          obtain ⟨suffix, longer⟩ := unsigned_settles _ _ _ _ _ _ _ read
          refine ⟨suffix, fun more apart => ?_⟩
          rw [List.cons_append, exponent_sign, if_neg plus, if_neg minus]
          exact longer more apart

theorem scaled_settles (negative : Bool) (amount : Nat) (power : Int) :
    Settles (scaled negative amount power) := by
  intro bytes found rest read
  cases bytes with
  | nil =>
      obtain ⟨rfl, same⟩ := assemble_rest _ _ _ _ _ _ read
      refine ⟨List.suffix_refl [], fun more apart => ?_⟩
      cases more with
      | nil => exact read
      | cons byte others =>
          have letter := (apart byte rfl).2.2
          simp only [List.nil_append, scaled, letter]
          exact same (byte :: others)
  | cons byte others =>
      rw [scaled] at read
      by_cases letter : isExponentLetter byte
      · rw [if_pos letter] at read
        obtain ⟨suffix, longer⟩ := exponent_settles _ _ _ _ _ _ read
        refine ⟨suffix.trans (List.suffix_cons byte others), fun more apart => ?_⟩
        rw [List.cons_append, scaled, if_pos letter, longer more apart]
      · rw [if_neg letter] at read
        obtain ⟨rfl, same⟩ := assemble_rest _ _ _ _ _ _ read
        refine ⟨List.suffix_refl _, fun more apart => ?_⟩
        rw [List.cons_append, scaled, if_neg letter]
        exact same _

theorem fraction_settles (negative : Bool) (amount : Nat) (power : Int) :
    Settles (fraction negative amount power) := by
  intro bytes found rest read
  have taken := significand_suffix bytes amount 0
  have longer := fun more apart => significand_longer more apart bytes amount 0
  unfold fraction at read
  generalize significand amount 0 bytes = reached at read taken longer
  obtain ⟨number, count, after⟩ := reached
  simp only at read taken
  split at read
  · cases read
  · rename_i digits
    obtain ⟨suffix, same⟩ := scaled_settles _ _ _ _ _ _ read
    refine ⟨(suffix.trans (List.dropWhile_suffix isDigit)).trans taken, fun more apart => ?_⟩
    rw [fraction, longer more apart]
    simp only [head_digit_longer more apart]
    rw [if_neg digits, drop_digits_longer more apart]
    exact same more apart

/-- What is read behind the digits of a number, with the count of those beyond the significand. -/
def behindDigits (negative : Bool) (amount beyond : Nat) :
    List UInt8 → Except Stop (Number × List UInt8)
  | [] =>
    if beyond = 0 then .ok (whole negative amount, []) else assemble negative amount beyond []
  | byte :: rest =>
    if byte = code '.' then fraction negative amount beyond rest
    else if isExponentLetter byte then exponent negative amount beyond rest
    else if beyond = 0 then .ok (whole negative amount, byte :: rest)
    else assemble negative amount beyond (byte :: rest)

theorem digits_behind (negative : Bool) (first : Nat) (bytes : List UInt8) :
    digits negative first bytes = behindDigits negative (significand first 0 bytes).1
      ((significand first 0 bytes).2.2.takeWhile isDigit).length
      ((significand first 0 bytes).2.2.dropWhile isDigit) := by
  generalize reached : significand first 0 bytes = parts
  obtain ⟨amount, count, after⟩ := parts
  simp only [digits, reached]
  cases after.dropWhile isDigit <;> rfl

/-- Bytes that are apart from a number and the end of the text are the same to it. -/
theorem behind_apart (negative : Bool) (amount beyond : Nat) (bytes : List UInt8)
    (apart : Apart bytes) :
    behindDigits negative amount beyond bytes =
      if beyond = 0 then .ok (whole negative amount, bytes)
      else assemble negative amount beyond bytes := by
  cases bytes with
  | nil => rfl
  | cons byte rest =>
      obtain ⟨-, point, letter⟩ := apart byte rfl
      simp only [behindDigits, point, letter, ↓reduceIte]
      rfl

theorem behind_settles (negative : Bool) (amount beyond : Nat) :
    Settles (behindDigits negative amount beyond) := by
  have plain : ∀ bytes found rest,
      (if beyond = 0 then Except.ok (whole negative amount, bytes)
        else assemble negative amount beyond bytes) = .ok (found, rest) →
      rest = bytes ∧ ∀ other, (if beyond = 0 then Except.ok (whole negative amount, other)
        else assemble negative amount beyond other) = .ok (found, other) := by
    intro bytes found rest read
    by_cases none : beyond = 0
    · rw [if_pos none] at read
      cases read
      exact ⟨rfl, fun other => if_pos none⟩
    · rw [if_neg none] at read
      obtain ⟨same, others⟩ := assemble_rest _ _ _ _ _ _ read
      exact ⟨same, fun other => (if_neg none).trans (others other)⟩
  intro bytes found rest read
  cases bytes with
  | nil =>
      obtain ⟨rfl, others⟩ := plain [] found rest read
      refine ⟨List.suffix_refl [], fun more apart => ?_⟩
      rw [List.nil_append, behind_apart negative amount beyond more apart]
      exact others more
  | cons byte after =>
      by_cases point : byte = code '.'
      · rw [behindDigits, if_pos point] at read
        obtain ⟨suffix, longer⟩ := fraction_settles _ _ _ _ _ _ read
        refine ⟨suffix.trans (List.suffix_cons byte after), fun more apart => ?_⟩
        rw [List.cons_append, behindDigits, if_pos point, longer more apart]
      · by_cases letter : isExponentLetter byte
        · rw [behindDigits, if_neg point, if_pos letter] at read
          obtain ⟨suffix, longer⟩ := exponent_settles _ _ _ _ _ _ read
          refine ⟨suffix.trans (List.suffix_cons byte after), fun more apart => ?_⟩
          rw [List.cons_append, behindDigits, if_neg point, if_pos letter, longer more apart]
        · rw [behindDigits, if_neg point, if_neg letter] at read
          obtain ⟨rfl, others⟩ := plain _ found rest read
          refine ⟨List.suffix_refl _, fun more apart => ?_⟩
          rw [List.cons_append, behindDigits, if_neg point, if_neg letter]
          exact others _

theorem digits_settles (negative : Bool) (first : Nat) : Settles (digits negative first) := by
  intro bytes found rest read
  rw [digits_behind] at read
  obtain ⟨suffix, longer⟩ := behind_settles _ _ _ _ _ _ read
  refine ⟨(suffix.trans (List.dropWhile_suffix isDigit)).trans (significand_suffix bytes first 0),
    fun more apart => ?_⟩
  rw [digits_behind, significand_longer more apart, take_digits_longer more apart,
    drop_digits_longer more apart]
  exact longer more apart

theorem number_settles (negative : Bool) : Settles (number negative) := by
  intro bytes found rest read
  cases bytes with
  | nil => cases read
  | cons byte after =>
      by_cases zero : byte = code '0'
      · rw [number, if_pos zero] at read
        split at read
        · cases read
        · rename_i single
          obtain ⟨suffix, longer⟩ := digits_settles _ _ _ _ _ read
          refine ⟨suffix.trans (List.suffix_cons byte after), fun more apart => ?_⟩
          rw [List.cons_append, number, if_pos zero, head_digit_longer more apart, if_neg single,
            longer more apart]
      · by_cases digit : isDigit byte
        · rw [number, if_neg zero, if_pos digit] at read
          obtain ⟨suffix, longer⟩ := digits_settles _ _ _ _ _ read
          refine ⟨suffix.trans (List.suffix_cons byte after), fun more apart => ?_⟩
          rw [List.cons_append, number, if_neg zero, if_pos digit, longer more apart]
        · rw [number, if_neg zero, if_neg digit] at read
          cases read

end Interchange.Json.Read
