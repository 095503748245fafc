import Interchange.MessagePack.Reader
import Interchange.Proofs.MessagePack.Images
import Interchange.Proofs.Utf8RoundTrip
/-!
What a read makes of given bytes, whatever stands behind them. Answers compose as reads do, so the
reads of numbers, texts and headers are each said once about the bytes that a writer leaves.
-/
namespace Interchange.MessagePack.Read

/-- A read ends with a result after exactly these bytes, or stops within them. -/
def Answers {α : Type} (read : Read α) (bytes : List UInt8) (result : Except Fault α) : Prop :=
  ∀ rest offset, read ⟨bytes ++ rest, offset⟩ =
    result.map fun found => (found, ⟨rest, offset + bytes.length⟩)

section Composition
variable {α β : Type}

theorem answers_done (found : α) : Answers (pure found) [] (.ok found) := fun _ _ => rfl

theorem answers_fault (fault : Fault) (bytes : List UInt8) :
    Answers (throw fault : Read α) bytes (.error fault) := fun _ _ => rfl

theorem answers_then {first : Read α} {next : α → Read β} {before after : List UInt8} {found : α}
    {result : Except Fault β} (head : Answers first before (.ok found))
    (tail : Answers (next found) after result) :
    Answers (first >>= next) (before ++ after) result := by
  intro rest offset
  have followed := tail rest (offset + before.length)
  simp only [bind, StateT.bind, List.append_assoc, head (after ++ rest) offset, Except.map,
    Except.bind, followed, List.length_append, Nat.add_assoc]

theorem answers_stop {first : Read α} {next : α → Read β} {before after : List UInt8}
    {fault : Fault} (head : Answers first before (.error fault)) :
    Answers (first >>= next) (before ++ after) (.error fault) := by
  intro rest offset
  simp only [bind, StateT.bind, List.append_assoc, head (after ++ rest) offset, Except.map,
    Except.bind]

theorem answers_end {first : Read α} {next : α → Read β} {before : List UInt8} {found : α}
    {result : Except Fault β} (head : Answers first before (.ok found))
    (tail : Answers (next found) [] result) : Answers (first >>= next) before result := by
  have ended := answers_then head tail
  rwa [List.append_nil] at ended

theorem answers_map {first : Read α} {before : List UInt8} {found : α} (change : α → β)
    (head : Answers first before (.ok found)) :
    Answers (do return change (← first)) before (.ok (change found)) :=
  answers_end head (answers_done (change found))

theorem answers_from {next : Nat → Read β} {bytes : List UInt8} {result : Except Fault β}
    (each : ∀ start, Answers (next start) bytes result) :
    Answers (offset >>= next) bytes result :=
  fun rest start => each start rest start

end Composition

theorem split_all (content taken rest : List UInt8) :
    split? content.length taken (content ++ rest) = some (taken.reverse ++ content, rest) := by
  induction content generalizing taken with
  | nil => simp [split?]
  | cons byte others ih =>
      rw [List.length_cons, List.cons_append, split?, ih]
      simp

theorem answers_bytes (content : List UInt8) :
    Answers (bytes content.length) content (.ok content) := by
  intro rest offset
  rw [bytes, split_all]
  rfl

theorem answers_byte (next : UInt8) : Answers byte [next] (.ok next) := fun _ _ => rfl

theorem big_endian_length (width number : Nat) :
    (Writer.bigEndian width number).length = width := by
  induction width generalizing number with
  | zero => rfl
  | succ width ih => rw [Writer.bigEndian, List.length_append, ih, List.length_singleton]

theorem big_endian_value (width number : Nat) (small : number < 256 ^ width) :
    (Writer.bigEndian width number).foldl (fun total digit => total * 256 + digit.toNat) 0 =
      number := by
  induction width generalizing number with
  | zero =>
      have zero : number = 0 := by simpa using small
      rw [zero]
      rfl
  | succ width ih =>
      have shorter : number / 256 < 256 ^ width := by
        rw [Nat.pow_succ] at small
        exact Nat.div_lt_of_lt_mul (by omega)
      rw [Writer.bigEndian, List.foldl_append, ih _ shorter]
      simp only [List.foldl_cons, List.foldl_nil,
        Utf8.byte_code (number % 256) (Nat.mod_lt _ (by decide))]
      omega

theorem answers_number (width amount : Nat) (small : amount < 256 ^ width) :
    Answers (number width) (Writer.bigEndian width amount) (.ok amount) := by
  have taken := answers_bytes (Writer.bigEndian width amount)
  rw [big_endian_length] at taken
  have mapped := answers_map
    (fun digits => digits.foldl (fun total (digit : UInt8) => total * 256 + digit.toNat) 0) taken
  rw [big_endian_value width amount small] at mapped
  exact mapped

theorem answers_text (content : String) :
    Answers (text (Utf8.encode content).length) (Utf8.encode content) (.ok (.str content)) := by
  apply answers_from
  intro start
  apply answers_end (answers_bytes (Utf8.encode content))
  rw [Utf8.decode_encode]
  exact answers_done _

/-! One value, by its leading byte. -/
section Leads
variable (limit : Nat) (inside : Option (Read Value))

theorem answers_lead {lead : UInt8} {bytes : List UInt8} {result : Except Fault Value}
    (marked : ∀ start, Answers (marked limit inside start lead) bytes result) :
    Answers (single limit inside) (lead :: bytes) result := by
  apply answers_from
  intro start
  exact answers_then (answers_byte lead) (marked start)

/-- A length behind its marker, for whatever is read by it. -/
theorem answers_sized (marker : UInt8) (width size : Nat) (small : size < 256 ^ width)
    {next : Nat → Read Value}
    (leads : ∀ start, marked limit inside start marker = (do next (← number width)))
    {after : List UInt8} {result : Except Fault Value} (tail : Answers (next size) after result) :
    Answers (single limit inside) (Writer.header marker width size ++ after) result := by
  apply answers_lead
  intro start
  rw [leads start]
  exact answers_then (answers_number width size small) tail

theorem answers_wide (marker16 marker32 : UInt8) (size : Nat) (short : size < 2 ^ 32)
    {next : Nat → Read Value}
    (leads16 : ∀ start, marked limit inside start marker16 = (do next (← number 2)))
    (leads32 : ∀ start, marked limit inside start marker32 = (do next (← number 4)))
    {after : List UInt8} {result : Except Fault Value} (tail : Answers (next size) after result) :
    Answers (single limit inside) (wideImage marker16 marker32 size ++ after) result := by
  rw [wideImage]
  by_cases half : size < 2 ^ 16
  · rw [if_pos half]
    exact answers_sized limit inside marker16 2 size (by omega) leads16 tail
  · rw [if_neg half]
    exact answers_sized limit inside marker32 4 size (by omega) leads32 tail

theorem answers_length (marker8 marker16 marker32 : UInt8) (size : Nat) (short : size < 2 ^ 32)
    {next : Nat → Read Value}
    (leads8 : ∀ start, marked limit inside start marker8 = (do next (← number 1)))
    (leads16 : ∀ start, marked limit inside start marker16 = (do next (← number 2)))
    (leads32 : ∀ start, marked limit inside start marker32 = (do next (← number 4)))
    {after : List UInt8} {result : Except Fault Value} (tail : Answers (next size) after result) :
    Answers (single limit inside) (lengthImage marker8 marker16 marker32 size ++ after) result := by
  rw [lengthImage]
  by_cases byte : size < 2 ^ 8
  · rw [if_pos byte]
    exact answers_sized limit inside marker8 1 size (by omega) leads8 tail
  · rw [if_neg byte]
    exact answers_wide limit inside marker16 marker32 size short leads16 leads32 tail

/-- A length inside the marker itself. -/
theorem answers_fixed {lead : UInt8} {size : Nat} {next : Nat → Read Value}
    (leads : ∀ start, marked limit inside start lead = next size) {after : List UInt8}
    {result : Except Fault Value} (tail : Answers (next size) after result) :
    Answers (single limit inside) ([lead] ++ after) result := by
  apply answers_lead
  intro start
  rw [leads start]
  exact tail

theorem marker_fixed_text (size : Nat) (small : size < 32) :
    Marker.ofByte (.ofNat (0xa0 + size)) = .fixStr size := by
  simp only [Marker.ofByte, Utf8.byte_code (0xa0 + size) (by omega)]
  rw [if_neg (by omega), if_neg (by omega), if_neg (by omega), if_pos (by omega)]
  exact congrArg Marker.fixStr (by omega)

theorem marker_fixed_array (size : Nat) (small : size < 16) :
    Marker.ofByte (.ofNat (0x90 + size)) = .fixArray size := by
  simp only [Marker.ofByte, Utf8.byte_code (0x90 + size) (by omega)]
  rw [if_neg (by omega), if_neg (by omega), if_pos (by omega)]
  exact congrArg Marker.fixArray (by omega)

theorem marker_fixed_map (size : Nat) (small : size < 16) :
    Marker.ofByte (.ofNat (0x80 + size)) = .fixMap size := by
  simp only [Marker.ofByte, Utf8.byte_code (0x80 + size) (by omega)]
  rw [if_neg (by omega), if_pos (by omega)]
  exact congrArg Marker.fixMap (by omega)

theorem answers_text_image (content : String) (short : (Utf8.encode content).length < 2 ^ 32) :
    Answers (single limit inside) (textImage content) (.ok (.str content)) := by
  rw [textImage]
  by_cases fixed : (Utf8.encode content).length < 32
  · simp only [fixed, ↓reduceIte]
    refine answers_fixed limit inside ?_ (answers_text content)
    intro start
    rw [marked, marker_fixed_text _ fixed]
  · simp only [fixed, ↓reduceIte]
    exact answers_length limit inside 0xd9 0xda 0xdb _ short (fun _ => rfl) (fun _ => rfl)
      (fun _ => rfl) (answers_text content)

theorem answers_array_image (size : Nat) (short : size < 2 ^ 32) {after : List UInt8}
    {result : Except Fault Value} (tail : Answers (array limit inside size) after result) :
    Answers (single limit inside) (arrayImage size ++ after) result := by
  rw [arrayImage]
  by_cases fixed : size < 16
  · rw [if_pos fixed]
    refine answers_fixed limit inside ?_ tail
    intro start
    rw [marked, marker_fixed_array _ fixed]
  · rw [if_neg fixed]
    exact answers_wide limit inside 0xdc 0xdd _ short (fun _ => rfl) (fun _ => rfl) tail

theorem answers_map_image (size : Nat) (short : size < 2 ^ 32) {after : List UInt8}
    {result : Except Fault Value} (tail : Answers (map limit inside size) after result) :
    Answers (single limit inside) (mapImage size ++ after) result := by
  rw [mapImage]
  by_cases fixed : size < 16
  · rw [if_pos fixed]
    refine answers_fixed limit inside ?_ tail
    intro start
    rw [marked, marker_fixed_map _ fixed]
  · rw [if_neg fixed]
    exact answers_wide limit inside 0xde 0xdf _ short (fun _ => rfl) (fun _ => rfl) tail

/-! Numbers. Both writers choose the smallest form; every form reads back to the same number. -/
theorem answers_header (marker : UInt8) (width amount : Nat) (small : amount < 256 ^ width)
    (found : Nat → Value)
    (leads : ∀ start, marked limit inside start marker = (do return found (← number width))) :
    Answers (single limit inside) (Writer.header marker width amount) (.ok (found amount)) := by
  have sized := answers_sized limit inside marker width amount small leads
    (answers_done (found amount))
  rwa [List.append_nil] at sized

theorem answers_alone {lead : UInt8} {found : Value}
    (leads : ∀ start, marked limit inside start lead = (do return found)) :
    Answers (single limit inside) [lead] (.ok found) := by
  apply answers_lead
  intro start
  rw [leads start]
  exact answers_done found

theorem marker_fixed_int (amount : Nat) (small : amount < 0x80) :
    Marker.ofByte (.ofNat amount) = .fixInt amount := by
  simp only [Marker.ofByte, Utf8.byte_code amount (by omega)]
  rw [if_pos small]

theorem marker_negative_int (amount : Nat) (low : 0xe0 ≤ amount) (high : amount < 0x100) :
    Marker.ofByte (.ofNat amount) = .negativeFixInt ((amount : Int) - 256) := by
  simp only [Marker.ofByte, Utf8.byte_code amount high]
  repeat rw [if_neg (by omega)]

theorem of_unsigned_small (amount : Nat) (small : amount < 2 ^ 63) :
    Value.ofUnsigned (.ofNat amount) = .integer (.ofNat amount) := by
  have kept : (UInt64.ofNat amount).toNat = amount := by
    simp only [UInt64.toNat_ofNat']
    omega
  rw [Value.ofUnsigned, kept, if_pos small]
  rfl

theorem answers_unsigned (amount : Nat) (small : amount < 2 ^ 64) :
    Answers (single limit inside) (Writer.unsignedBytes amount)
      (.ok (.ofUnsigned (.ofNat amount))) := by
  let read := fun found : Nat => Value.ofUnsigned (.ofNat found)
  rw [Writer.unsignedBytes]
  by_cases fixed : amount < 0x80
  · rw [if_pos fixed, of_unsigned_small amount (by omega)]
    apply answers_alone
    intro start
    rw [marked, marker_fixed_int amount fixed]
  · rw [if_neg fixed]
    by_cases byte : amount < 2 ^ 8
    · rw [if_pos byte]
      exact answers_header limit inside 0xcc 1 amount (by omega) read fun _ => rfl
    · rw [if_neg byte]
      by_cases half : amount < 2 ^ 16
      · rw [if_pos half]
        exact answers_header limit inside 0xcd 2 amount (by omega) read fun _ => rfl
      · rw [if_neg half]
        by_cases word : amount < 2 ^ 32
        · rw [if_pos word]
          exact answers_header limit inside 0xce 4 amount (by omega) read fun _ => rfl
        · rw [if_neg word]
          exact answers_header limit inside 0xcf 8 amount (by omega) read fun _ => rfl

/-- A negative number in one of the wider forms, as its residue. -/
theorem answers_residue (marker : UInt8) (width : Nat) (amount : Int)
    (low : -2 ^ (8 * width - 1) ≤ amount) (negative : amount < 0) (positive : 0 < width)
    (leads : ∀ start, marked limit inside start marker = signed width) :
    Answers (single limit inside) (Writer.header marker width (amount + 2 ^ (8 * width)).toNat)
      (.ok (.integer (.ofInt amount))) := by
  have double : (2 : Int) ^ (8 * width) = 2 * 2 ^ (8 * width - 1) := by
    rw [← Int.pow_succ']
    congr 1
    omega
  have half : (0 : Int) < 2 ^ (8 * width - 1) := Int.pow_pos (by decide)
  have bytes : (256 : Nat) ^ width = 2 ^ (8 * width) := by
    rw [Nat.pow_mul]
  have cast : ((2 ^ (8 * width) : Nat) : Int) = 2 ^ (8 * width) := by
    push_cast
    rfl
  have residue : (((amount + 2 ^ (8 * width)).toNat : Nat) : Int) = amount + 2 ^ (8 * width) :=
    Int.toNat_of_nonneg (by omega)
  have back : Int.bmod ((amount + 2 ^ (8 * width)).toNat : Nat) (2 ^ (8 * width)) = amount := by
    rw [residue, ← cast, Int.add_bmod_right]
    exact Int.bmod_eq_of_le (by omega) (by omega)
  have small : (amount + 2 ^ (8 * width)).toNat < 256 ^ width := by
    rw [bytes]
    omega
  have read := answers_header limit inside marker width _ small
    (fun found => .integer (.ofInt (Int.bmod found (2 ^ (8 * width))))) leads
  rwa [back] at read

theorem answers_signed (amount : Int64) :
    Answers (single limit inside) (Writer.signedBytes amount.toInt) (.ok (.integer amount)) := by
  have lower := amount.le_toInt
  have upper := amount.toInt_lt
  have same : Int64.ofInt amount.toInt = amount := Int64.ofInt_toInt amount
  rw [Writer.signedBytes]
  by_cases positive : 0 ≤ amount.toInt
  · rw [if_pos positive]
    have read := answers_unsigned limit inside amount.toInt.toNat (by omega)
    rw [of_unsigned_small _ (by omega)] at read
    have kept : Int64.ofNat amount.toInt.toNat = amount := by
      rw [← Int64.ofInt_eq_ofNat, Int.toNat_of_nonneg positive, same]
    rwa [kept] at read
  · rw [if_neg positive]
    by_cases fixed : -32 ≤ amount.toInt
    · rw [if_pos fixed]
      have code : ((amount.toInt + 2 ^ 8).toNat : Int) - 256 = amount.toInt := by omega
      have single : Writer.bigEndian 1 (amount.toInt + 2 ^ 8).toNat =
          [.ofNat (amount.toInt + 2 ^ 8).toNat] := by
        rw [Writer.bigEndian, Writer.bigEndian, List.nil_append,
          Nat.mod_eq_of_lt (by omega)]
      rw [single]
      apply answers_alone
      intro start
      rw [marked, marker_negative_int _ (by omega) (by omega), code]
      simp only [same]
    · rw [if_neg fixed]
      have negative : amount.toInt < 0 := by omega
      by_cases byte : -2 ^ 7 ≤ amount.toInt
      · rw [if_pos byte]
        have read := answers_residue limit inside 0xd0 1 amount.toInt byte negative (by decide)
          fun _ => rfl
        rwa [same] at read
      · rw [if_neg byte]
        by_cases half : -2 ^ 15 ≤ amount.toInt
        · rw [if_pos half]
          have read := answers_residue limit inside 0xd1 2 amount.toInt half negative (by decide)
            fun _ => rfl
          rwa [same] at read
        · rw [if_neg half]
          by_cases word : -2 ^ 31 ≤ amount.toInt
          · rw [if_pos word]
            have read := answers_residue limit inside 0xd2 4 amount.toInt word negative (by decide)
              fun _ => rfl
            rwa [same] at read
          · rw [if_neg word]
            have read := answers_residue limit inside 0xd3 8 amount.toInt lower negative
              (by decide) fun _ => rfl
            rwa [same] at read

theorem answers_float (amount : Binary64) :
    Answers (single limit inside) (Writer.header 0xcb 8 amount.bits.toNat)
      (.ok (.float amount)) := by
  have small : amount.bits.toNat < 256 ^ 8 := amount.bits.toNat_lt
  have read := answers_header limit inside 0xcb 8 amount.bits.toNat small
    (fun found => .float (.ofPattern found)) fun _ => rfl
  have kept : Binary64.ofPattern amount.bits.toNat = amount := by
    rw [Binary64.ofPattern, UInt64.ofNat_toNat]
  rwa [kept] at read

end Leads

end Interchange.MessagePack.Read
