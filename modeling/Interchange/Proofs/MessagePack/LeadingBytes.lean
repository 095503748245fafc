import Interchange.Proofs.MessagePack.Answers
import Interchange.Proofs.MessagePack.Languages
/-!
What stands behind a leading byte. The byte names a marker, the marker a language for the bytes that
follow, and a value is denoted by the byte with those bytes exactly if the language has them. The parts
of containers are read in a language of their own, or not at all.
-/
namespace Interchange.MessagePack

theorem spelled_small (digits : List UInt8) : spelled digits < 256 ^ digits.length := by
  induction digits with
  | nil => exact Nat.one_pos
  | cons digit rest ih =>
      have small := digit.toNat_lt
      rw [spelled, List.length_cons, Nat.pow_succ']
      calc digit.toNat * 256 ^ rest.length + spelled rest
          < digit.toNat * 256 ^ rest.length + 256 ^ rest.length := Nat.add_lt_add_left ih _
        _ = (digit.toNat + 1) * 256 ^ rest.length := by rw [Nat.add_mul, Nat.one_mul]
        _ ≤ 256 * 256 ^ rest.length := Nat.mul_le_mul_right _ (by omega)

theorem integral_signed (number : Int) (low : -2 ^ 63 ≤ number) (high : number < 2 ^ 63)
    (value : Value) : value = .integer (.ofInt number) ↔ Integral number value := by
  have kept : (Int64.ofInt number).toInt = number := Int64.toInt_ofInt_of_le low high
  cases value with
  | integer word =>
      simp only [Integral, Value.integer.injEq]
      constructor
      · rintro rfl
        exact kept
      · rintro rfl
        rw [Int64.ofInt_toInt]
  | unsigned word => 
      simp only [Integral, reduceCtorEq, false_iff]
      omega
  | _ => simp [Integral]

theorem integral_unsigned (number : Nat) (small : number < 2 ^ 64) (value : Value) :
    value = .ofUnsigned (.ofNat number) ↔ Integral number value := by
  by_cases fits : number < 2 ^ 63
  · rw [Read.of_unsigned_small number fits, ← Int64.ofInt_eq_ofNat]
    exact integral_signed number (by omega) (by omega) value
  · have kept : (UInt64.ofNat number).toNat = number := UInt64.toNat_ofNat_of_lt' small
    rw [Value.ofUnsigned, kept, if_neg fits]
    cases value with
    | unsigned word =>
        simp only [Integral, Value.unsigned.injEq]
        constructor
        · rintro rfl
          exact ⟨by rw [kept], by omega⟩
        · rintro ⟨same, -⟩
          rw [← Int.ofNat_inj.mp same, UInt64.ofNat_toNat]
    | integer word =>
        have high := word.toInt_lt
        simp only [Integral, reduceCtorEq, false_iff]
        omega
    | _ => simp [Integral]

/-- A number read by its residue is the number spelled in two's complement. -/
theorem spelled_residue (digits : List UInt8) (filled : 0 < digits.length) :
    Int.bmod (spelled digits) (2 ^ (8 * digits.length)) = spelledSigned digits := by
  have small := spelled_small digits
  have size : (256 : Nat) ^ digits.length = 2 ^ (8 * digits.length) := by rw [Nat.pow_mul]
  have even : (2 : Nat) ^ (8 * digits.length) = 2 * 2 ^ (8 * digits.length - 1) := by
    rw [← Nat.pow_succ']
    congr 1
    omega
  have residue : ((spelled digits : Nat) : Int) % ((2 ^ (8 * digits.length) : Nat) : Int) =
      spelled digits := Int.emod_eq_of_lt (by omega) (by omega)
  have cast : ((256 : Int)) ^ digits.length = ((2 ^ (8 * digits.length) : Nat) : Int) := by
    rw [← size, Int.natCast_pow]
    rfl
  rw [Int.bmod_def, residue, spelledSigned, cast, size]
  by_cases low : 2 * spelled digits < 2 ^ (8 * digits.length)
  · rw [if_pos low, if_pos (by omega)]
  · rw [if_neg low, if_neg (by omega)]

theorem integral_residue (digits : List UInt8) (filled : 0 < digits.length)
    (short : digits.length ≤ 8) (value : Value) :
    value = .integer (.ofInt (Int.bmod (spelled digits) (2 ^ (8 * digits.length)))) ↔
      Integral (spelledSigned digits) value := by
  have size : (2 : Nat) ^ (8 * digits.length) ≤ 2 ^ 64 := Nat.pow_le_pow_right (by decide) (by omega)
  have some := Nat.two_pow_pos (8 * digits.length)
  have low := @Int.le_bmod (spelled digits) _ some
  have high := @Int.bmod_lt (spelled digits) _ some
  rw [← spelled_residue digits filled]
  exact integral_signed _ (by omega) (by omega) value

namespace Read

/-! The languages of what may stand behind a leading byte. -/
section Behind

-- Digits that spell a size, and what is read by that size.
def Counted (width : Nat) (next : Nat → Language Value) : Language Value :=
  fun taken value => ∃ digits content, digits.length = width ∧
    next (spelled digits) content value ∧ taken = digits ++ content

def Lone (result : Value) : Language Value := fun taken value => taken = [] ∧ value = result

def Number (width : Nat) (result : Nat → Value) : Language Value :=
  fun taken value => taken.length = width ∧ value = result (spelled taken)

def TextOf (size : Nat) : Language Value :=
  fun taken value => ∃ text, taken = Utf8.encode text ∧ taken.length = size ∧ value = .str text

def ContentOf (size : Nat) : Language Value :=
  fun taken value => taken.length = size ∧ value = .bytes taken

variable (parts : Option (Language Value))

def ListOf (size : Nat) : Language Value :=
  fun taken value => ∃ each ∈ parts, ∃ items, Sequence each taken items ∧ items.length = size ∧
    value = .array items

def MapOf (size : Nat) : Language Value :=
  fun taken value => ∃ each ∈ parts, ∃ entries,
    Members (fun bytes name => each bytes (.str name)) each taken entries ∧
      entries.length = size ∧ (entries.map (·.1)).Nodup ∧ value = .object entries

def Behind : Marker → Language Value
  | .fixInt number => Lone (.integer (.ofNat number))
  | .fixMap size => MapOf parts size
  | .fixArray size => ListOf parts size
  | .fixStr size => TextOf size
  | .nil => Lone .null
  | .bool flag => Lone (.bool flag)
  | .bin width => Counted width ContentOf
  | .float32 => Number 4 fun pattern => .float (Binary32.ofPattern pattern).widen
  | .float64 => Number 8 fun pattern => .float (.ofPattern pattern)
  | .unsigned width => Number width fun number => .ofUnsigned (.ofNat number)
  | .signed width => Number width fun number => .integer (.ofInt (Int.bmod number (2 ^ (8 * width))))
  | .str width => Counted width TextOf
  | .array width => Counted width (ListOf parts)
  | .map width => Counted width (MapOf parts)
  | .negativeFixInt number => Lone (.integer (.ofInt number))
  | .neverUsed | .ext _ | .fixExt => fun _ _ => False

end Behind

-- The bytes that a marker stands for.
def leads (lead : UInt8) : Marker → Bool
  | .fixInt number => number < 0x80 && lead = .ofNat number
  | .fixMap size => size < 16 && lead = .ofNat (0x80 + size)
  | .fixArray size => size < 16 && lead = .ofNat (0x90 + size)
  | .fixStr size => size < 32 && lead = .ofNat (0xa0 + size)
  | .nil => lead = 0xc0
  | .bool flag => lead = if flag then 0xc3 else 0xc2
  | .bin width => (lead, width) ∈ binaryForms.long
  | .float32 => lead = 0xca
  | .float64 => lead = 0xcb
  | .unsigned width => (lead, width) ∈ naturalForms
  | .signed width => (lead, width) ∈ integerForms
  | .str width => (lead, width) ∈ textForms.long
  | .array width => (lead, width) ∈ listForms.long
  | .map width => (lead, width) ∈ mapForms.long
  | .negativeFixInt number => -32 ≤ number && number < 0 && lead = .ofNat (number + 0x100).toNat
  | .neverUsed | .ext _ | .fixExt => true

theorem marker_leads (lead : UInt8) : leads lead (Marker.ofByte lead) = true := by
  have all : ∀ code < 256, leads (.ofNat code) (Marker.ofByte (.ofNat code)) = true := by
    decide +kernel
  have one := all lead.toNat lead.toNat_lt
  rwa [UInt8.ofNat_toNat] at one

/-! A family of leading bytes gives sizes, and every size leads to one language. -/
section Families

structure Leading (parts : Option (Language Value)) (forms : Forms) (next : Nat → Language Value) :
    Prop where
  short : ∀ size < forms.short,
    Behind parts (Marker.ofByte (.ofNat (forms.base + size))) = next size
  long : ∀ form ∈ forms.long, Behind parts (Marker.ofByte form.1) = Counted form.2 next

variable (parts : Option (Language Value))

theorem text_leading : Leading parts textForms TextOf where
  short := fun size small => congrArg (Behind parts) (marker_fixed_text size small)
  long := by
    intro form member
    simp only [textForms, List.mem_cons, List.not_mem_nil, or_false] at member
    rcases member with rfl | rfl | rfl <;> rfl

theorem binary_leading : Leading parts binaryForms ContentOf where
  short := fun size small => absurd small (Nat.not_lt_zero size)
  long := by
    intro form member
    simp only [binaryForms, List.mem_cons, List.not_mem_nil, or_false] at member
    rcases member with rfl | rfl | rfl <;> rfl

theorem list_leading : Leading parts listForms (ListOf parts) where
  short := fun size small => congrArg (Behind parts) (marker_fixed_array size small)
  long := by
    intro form member
    simp only [listForms, List.mem_cons, List.not_mem_nil, or_false] at member
    rcases member with rfl | rfl <;> rfl

theorem map_leading : Leading parts mapForms (MapOf parts) where
  short := fun size small => congrArg (Behind parts) (marker_fixed_map size small)
  long := by
    intro form member
    simp only [mapForms, List.mem_cons, List.not_mem_nil, or_false] at member
    rcases member with rfl | rfl <;> rfl

variable {parts}

theorem behind_head {forms : Forms} {next : Nat → Language Value}
    (leading : Leading parts forms next) {lead : UInt8} {digits content : List UInt8} {size : Nat}
    {value : Value} (head : Head forms lead digits size) (inside : next size content value) :
    Behind parts (Marker.ofByte lead) (digits ++ content) value := by
  cases head with
  | short small =>
      rw [leading.short size small]
      exact inside
  | long form =>
      rw [leading.long _ form]
      exact ⟨digits, content, rfl, inside, rfl⟩

end Families

/-! Denoted values by their leading byte. -/
section Denoted
variable {lead : UInt8} {digits taken content : List UInt8} {size width : Nat} {value : Value}

theorem denotes_text_iff (bytes : List UInt8) (text : String) :
    Denotes bytes (.str text) ↔ Spells bytes text := by
  constructor
  · intro denotes
    cases denotes with
    | text spells => exact spells
    | shortNatural _ held => exact held.elim
    | shortNegative _ _ held => exact held.elim
    | natural _ held => exact held.elim
    | integer _ held => exact held.elim
  · exact .text

theorem denoted_names : (fun bytes name => Denotes bytes (.str name)) = Spells := by
  funext bytes name
  exact propext (denotes_text_iff bytes name)

-- What a family leads to, entered by any of its heads.
def Enters (forms : Forms) (next : Nat → Language Value) : Prop :=
  ∀ {lead : UInt8} {digits content : List UInt8} {size : Nat} {value : Value},
    Head forms lead digits size → next size content value →
      Denotes (lead :: (digits ++ content)) value

theorem enters_text : Enters textForms TextOf := by
  rintro lead digits content size value head ⟨text, rfl, rfl, rfl⟩
  exact .text (.sized head)

theorem enters_binary : Enters binaryForms ContentOf := by
  rintro lead digits content size value head ⟨rfl, rfl⟩
  exact .binary head

theorem enters_list : Enters listForms (ListOf (some Denotes)) := by
  rintro lead digits content size value head ⟨each, ⟨⟩, items, sequence, rfl, rfl⟩
  exact .list head sequence

theorem enters_map : Enters mapForms (MapOf (some Denotes)) := by
  rintro lead digits content size value head ⟨each, ⟨⟩, entries, members, rfl, distinct, rfl⟩
  rw [denoted_names] at members
  exact .map head members distinct

theorem denotes_short {forms : Forms} {next : Nat → Language Value} (enters : Enters forms next)
    (small : size < forms.short) (inside : next size taken value) :
    Denotes (.ofNat (forms.base + size) :: taken) value :=
  enters (.short small) inside

theorem denotes_long {forms : Forms} {next : Nat → Language Value} (enters : Enters forms next)
    (form : (lead, width) ∈ forms.long) (inside : Counted width next taken value) :
    Denotes (lead :: taken) value := by
  obtain ⟨digits, content, rfl, inside, rfl⟩ := inside
  exact enters (.long form) inside

theorem natural_marker : ∀ form ∈ naturalForms,
    Marker.ofByte form.1 = .unsigned form.2 ∧ form.2 ≤ 8 := by decide

theorem integer_marker : ∀ form ∈ integerForms,
    Marker.ofByte form.1 = .signed form.2 ∧ 0 < form.2 ∧ form.2 ≤ 8 := by decide

theorem spelled_word (digits : List UInt8) (short : digits.length ≤ 8) :
    spelled digits < 2 ^ 64 :=
  Nat.lt_of_lt_of_le (spelled_small digits) (Nat.pow_le_pow_right (by decide) short)

theorem behind_of_denotes (denotes : Denotes (lead :: taken) value) :
    Behind (some Denotes) (Marker.ofByte lead) taken value := by
  generalize whole : lead :: taken = bytes at denotes
  cases denotes with
  | null | no | yes =>
      obtain ⟨rfl, rfl⟩ := List.cons.inj whole
      exact ⟨rfl, rfl⟩
  | @shortNatural number value small held =>
      obtain ⟨rfl, rfl⟩ := List.cons.inj whole
      rw [marker_fixed_int number small]
      exact ⟨rfl, (integral_signed number (by omega) (by omega) value).mpr held⟩
  | @shortNegative number value low high held =>
      obtain ⟨rfl, rfl⟩ := List.cons.inj whole
      rw [marker_negative_int number low high]
      exact ⟨rfl, (integral_signed (number - 256) (by omega) (by omega) value).mpr held⟩
  | natural form held =>
      obtain ⟨rfl, rfl⟩ := List.cons.inj whole
      obtain ⟨marker, short⟩ := natural_marker _ form
      rw [marker]
      exact ⟨rfl, (integral_unsigned _ (spelled_word taken short) value).mpr held⟩
  | integer form held =>
      obtain ⟨rfl, rfl⟩ := List.cons.inj whole
      obtain ⟨marker, filled, short⟩ := integer_marker _ form
      rw [marker]
      exact ⟨rfl, (integral_residue taken filled short value).mpr held⟩
  | single long | double long =>
      obtain ⟨rfl, rfl⟩ := List.cons.inj whole
      exact ⟨long, rfl⟩
  | text spells =>
      cases spells with
      | sized head =>
          obtain ⟨rfl, rfl⟩ := List.cons.inj whole
          exact behind_head (text_leading _) head ⟨_, rfl, rfl, rfl⟩
  | binary head =>
      obtain ⟨rfl, rfl⟩ := List.cons.inj whole
      exact behind_head (binary_leading _) head ⟨rfl, rfl⟩
  | list head sequence =>
      obtain ⟨rfl, rfl⟩ := List.cons.inj whole
      exact behind_head (list_leading _) head ⟨_, rfl, _, sequence, rfl, rfl⟩
  | map head members distinct =>
      obtain ⟨rfl, rfl⟩ := List.cons.inj whole
      rw [← denoted_names] at members
      exact behind_head (map_leading _) head ⟨_, rfl, _, members, rfl, distinct, rfl⟩

theorem denotes_of_behind (behind : Behind (some Denotes) (Marker.ofByte lead) taken value) :
    Denotes (lead :: taken) value := by
  have leading := marker_leads lead
  generalize Marker.ofByte lead = marker at behind leading
  cases marker with
  | fixInt number =>
      obtain ⟨small, rfl⟩ : number < 0x80 ∧ lead = .ofNat number := by simpa [leads] using leading
      obtain ⟨rfl, held⟩ := behind
      exact .shortNatural small ((integral_signed number (by omega) (by omega) value).mp held)
  | negativeFixInt number =>
      obtain ⟨⟨low, high⟩, rfl⟩ : (-32 ≤ number ∧ number < 0) ∧
          lead = .ofNat (number + 0x100).toNat := by simpa [leads] using leading
      obtain ⟨rfl, held⟩ := behind
      refine .shortNegative (by omega) (by omega) ?_
      rw [Int.toNat_of_nonneg (by omega), Int.add_sub_cancel]
      exact (integral_signed number (by omega) (by omega) value).mp held
  | nil =>
      obtain rfl : lead = 0xc0 := by simpa [leads] using leading
      obtain ⟨rfl, rfl⟩ := behind
      exact .null
  | bool flag =>
      obtain ⟨rfl, rfl⟩ := behind
      cases flag with
      | true =>
          obtain rfl : lead = 0xc3 := by simpa [leads] using leading
          exact .yes
      | false =>
          obtain rfl : lead = 0xc2 := by simpa [leads] using leading
          exact .no
  | float32 =>
      obtain rfl : lead = 0xca := by simpa [leads] using leading
      obtain ⟨four, rfl⟩ := behind
      exact .single four
  | float64 =>
      obtain rfl : lead = 0xcb := by simpa [leads] using leading
      obtain ⟨eight, rfl⟩ := behind
      exact .double eight
  | unsigned width =>
      obtain ⟨rfl, held⟩ := behind
      have form : (lead, taken.length) ∈ naturalForms := of_decide_eq_true leading
      have short := (natural_marker _ form).2
      exact .natural form ((integral_unsigned _ (spelled_word taken short) value).mp held)
  | signed width =>
      obtain ⟨rfl, held⟩ := behind
      have form : (lead, taken.length) ∈ integerForms := of_decide_eq_true leading
      obtain ⟨-, filled, short⟩ := integer_marker _ form
      exact .integer form ((integral_residue taken filled short value).mp held)
  | fixStr size =>
      obtain ⟨small, rfl⟩ : size < 32 ∧ lead = .ofNat (0xa0 + size) := by
        simpa [leads] using leading
      exact denotes_short enters_text small behind
  | fixArray size =>
      obtain ⟨small, rfl⟩ : size < 16 ∧ lead = .ofNat (0x90 + size) := by
        simpa [leads] using leading
      exact denotes_short enters_list small behind
  | fixMap size =>
      obtain ⟨small, rfl⟩ : size < 16 ∧ lead = .ofNat (0x80 + size) := by
        simpa [leads] using leading
      exact denotes_short enters_map small behind
  | str width => exact denotes_long enters_text (of_decide_eq_true leading) behind
  | bin width => exact denotes_long enters_binary (of_decide_eq_true leading) behind
  | array width => exact denotes_long enters_list (of_decide_eq_true leading) behind
  | map width => exact denotes_long enters_map (of_decide_eq_true leading) behind
  | neverUsed | ext _ | fixExt => exact behind.elim

theorem denotes_filled {bytes : List UInt8} (denotes : Denotes bytes value) :
    ∃ lead behind, bytes = lead :: behind := by
  cases denotes with
  | text spells =>
      cases spells with
      | sized => exact ⟨_, _, rfl⟩
  | _ => exact ⟨_, _, rfl⟩

end Denoted

end Read

end Interchange.MessagePack
