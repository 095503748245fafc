import Interchange.MessagePack.Writer
import Interchange.Proofs.ValueParts
/-!
The bytes of a value, as a function. A writer that does not run into a length beyond 32 bits
appends exactly these bytes to what it holds, and nothing else about it changes. A writer that
runs into one does not come to an end.
-/
namespace Interchange.MessagePack

-- What the headers can say of a value, its parts aside.
def Sized : Value → Prop
  | .str text => (Utf8.encode text).length < 2 ^ 32
  | .bytes content => content.length < 2 ^ 32
  | .array items => items.length < 2 ^ 32
  | .object entries =>
    entries.length < 2 ^ 32 ∧ ∀ entry ∈ entries, (Utf8.encode entry.1).length < 2 ^ 32
  | _ => True

instance : DecidablePred Sized
  | .str text => inferInstanceAs (Decidable ((Utf8.encode text).length < 2 ^ 32))
  | .bytes content => inferInstanceAs (Decidable (content.length < 2 ^ 32))
  | .array items => inferInstanceAs (Decidable (items.length < 2 ^ 32))
  | .object entries =>
    inferInstanceAs (Decidable
      (entries.length < 2 ^ 32 ∧ ∀ entry ∈ entries, (Utf8.encode entry.1).length < 2 ^ 32))
  | .null | .bool _ | .integer _ | .unsigned _ | .float _ => .isTrue trivial

namespace Writer

def Appends (write : Write Unit) (bytes : List UInt8) : Prop :=
  ∀ writer, write writer = .ok () ⟨writer.buffer ++ bytes⟩

theorem appends_emit (bytes : List UInt8) : Appends (emit bytes) bytes := fun _ => rfl

theorem appends_done : Appends (pure ()) [] := by
  intro writer
  change EStateM.Result.ok () writer = .ok () ⟨writer.buffer ++ []⟩
  simp

theorem appends_both {first second : Write Unit} {before after : List UInt8}
    (head : Appends first before) (tail : Appends second after) :
    Appends (do first; second) (before ++ after) := by
  intro writer
  have joined : writer.buffer ++ before ++ after = writer.buffer ++ (before ++ after) :=
    Array.ext' (by simp)
  have next := tail ⟨writer.buffer ++ before⟩
  simp only [joined] at next
  simp only [bind, EStateM.bind, head writer, next]

end Writer

/-! The parts of an image, each with the write that leaves it. -/
def wideImage (marker16 marker32 : UInt8) (size : Nat) : List UInt8 :=
  if size < 2 ^ 16 then Writer.header marker16 2 size else Writer.header marker32 4 size

def lengthImage (marker8 marker16 marker32 : UInt8) (size : Nat) : List UInt8 :=
  if size < 2 ^ 8 then Writer.header marker8 1 size else wideImage marker16 marker32 size

def textImage (text : String) : List UInt8 :=
  let content := Utf8.encode text
  (if content.length < 32 then [.ofNat (0xa0 + content.length)]
    else lengthImage 0xd9 0xda 0xdb content.length) ++ content

def arrayImage (size : Nat) : List UInt8 :=
  if size < 16 then [.ofNat (0x90 + size)] else wideImage 0xdc 0xdd size

def mapImage (size : Nat) : List UInt8 :=
  if size < 16 then [.ofNat (0x80 + size)] else wideImage 0xde 0xdf size

mutual
def image : Value → List UInt8
  | .null => [0xc0]
  | .bool flag => [if flag then 0xc3 else 0xc2]
  | .integer number => Writer.signedBytes number.toInt
  | .unsigned number => Writer.unsignedBytes number.toNat
  | .float number => Writer.header 0xcb 8 number.bits.toNat
  | .str text => textImage text
  | .bytes content => lengthImage 0xc4 0xc5 0xc6 content.length ++ content
  | .array items => arrayImage items.length ++ imageItems items
  | .object entries => mapImage entries.length ++ imageEntries entries
termination_by structural value => value
def imageItems : List Value → List UInt8
  | [] => []
  | item :: rest => image item ++ imageItems rest
termination_by structural items => items
def imageEntries : List (String × Value) → List UInt8
  | [] => []
  | (key, item) :: rest => textImage key ++ (image item ++ imageEntries rest)
termination_by structural entries => entries
end

namespace Writer

theorem appends_wide (marker16 marker32 : UInt8) (size : Nat) (short : size < 2 ^ 32) :
    Appends (wideLength size marker16 marker32) (wideImage marker16 marker32 size) := by
  rw [wideLength, wideImage]
  by_cases half : size < 2 ^ 16
  · rw [if_pos half, if_pos half]
    exact appends_emit _
  · rw [if_neg half, if_neg half, if_pos short]
    exact appends_emit _

theorem appends_length (marker8 marker16 marker32 : UInt8) (size : Nat) (short : size < 2 ^ 32) :
    Appends (length size marker8 marker16 marker32)
      (lengthImage marker8 marker16 marker32 size) := by
  rw [length, lengthImage]
  by_cases byte : size < 2 ^ 8
  · rw [if_pos byte, if_pos byte]
    exact appends_emit _
  · rw [if_neg byte, if_neg byte]
    exact appends_wide _ _ size short

theorem appends_text (text : String) (short : (Utf8.encode text).length < 2 ^ 32) :
    Appends (str text) (textImage text) := by
  rw [str, textImage]
  by_cases fixed : (Utf8.encode text).length < 32
  · simp only [fixed, ↓reduceIte]
    exact appends_both (appends_emit _) (appends_emit _)
  · simp only [fixed, ↓reduceIte]
    exact appends_both (appends_length _ _ _ _ short) (appends_emit _)

theorem appends_array_header (size : Nat) (short : size < 2 ^ 32) :
    Appends (arrayHeader size) (arrayImage size) := by
  rw [arrayHeader, arrayImage]
  by_cases fixed : size < 16
  · rw [if_pos fixed, if_pos fixed]
    exact appends_emit _
  · rw [if_neg fixed, if_neg fixed]
    exact appends_wide _ _ size short

theorem appends_map_header (size : Nat) (short : size < 2 ^ 32) :
    Appends (mapHeader size) (mapImage size) := by
  rw [mapHeader, mapImage]
  by_cases fixed : size < 16
  · rw [if_pos fixed, if_pos fixed]
    exact appends_emit _
  · rw [if_neg fixed, if_neg fixed]
    exact appends_wide _ _ size short

theorem appends_items (items : List Value)
    (each : ∀ item ∈ items, Appends (value item) (image item)) :
    Appends (values items) (imageItems items) := by
  induction items with
  | nil => exact appends_done
  | cons item rest ih =>
      obtain ⟨head, tail⟩ := List.forall_mem_cons.mp each
      exact appends_both head (ih tail)

theorem appends_entries (entries : List (String × Value))
    (keys : ∀ entry ∈ entries, (Utf8.encode entry.1).length < 2 ^ 32)
    (each : ∀ entry ∈ entries, Appends (value entry.2) (image entry.2)) :
    Appends (members entries) (imageEntries entries) := by
  induction entries with
  | nil => exact appends_done
  | cons entry rest ih =>
      obtain ⟨key, item⟩ := entry
      obtain ⟨headKey, tailKeys⟩ := List.forall_mem_cons.mp keys
      obtain ⟨head, tail⟩ := List.forall_mem_cons.mp each
      exact appends_both (appends_text key headKey) (appends_both head (ih tailKeys tail))

theorem appends_value (content : Value) :
    content.Every Sized → Appends (value content) (image content) := by
  induction content using Value.inside_induction with
  | step content ih =>
      intro sized
      have here := Value.every_here sized
      cases content with
      | str text => exact appends_text text here
      | bytes content => exact appends_both (appends_length _ _ _ _ here) (appends_emit _)
      | array items =>
          refine appends_both (appends_array_header _ here) (appends_items items ?_)
          intro item member
          exact ih item (.item member) (Value.every_item sized member)
      | object entries =>
          refine appends_both (appends_map_header _ here.1) (appends_entries entries here.2 ?_)
          intro entry member
          exact ih entry.2 (.entry member) (Value.every_entry sized member)
      | _ => exact appends_emit _

/-! What a write that comes to an end says of the value. -/
def Ends (write : Write Unit) : Prop := ∃ before after, write before = .ok () after

theorem ends_both {first second : Write Unit} (ends : Ends (do first; second)) :
    Ends first ∧ Ends second := by
  obtain ⟨before, after, done⟩ := ends
  change EStateM.bind first (fun _ => second) before = .ok () after at done
  unfold EStateM.bind at done
  cases head : first before with
  | ok result middle =>
      rw [head] at done
      exact ⟨⟨before, middle, head⟩, ⟨middle, after, done⟩⟩
  | error fault middle =>
      rw [head] at done
      contradiction

theorem ends_wide {marker16 marker32 : UInt8} {size : Nat}
    (ends : Ends (wideLength size marker16 marker32)) : size < 2 ^ 32 := by
  rcases Nat.lt_or_ge size (2 ^ 32) with short | large
  · exact short
  · obtain ⟨before, after, done⟩ := ends
    rw [wideLength, if_neg (by omega), if_neg (Nat.not_lt.mpr large)] at done
    contradiction

theorem ends_length {marker8 marker16 marker32 : UInt8} {size : Nat}
    (ends : Ends (length size marker8 marker16 marker32)) : size < 2 ^ 32 := by
  rw [length] at ends
  split at ends
  · omega
  · exact ends_wide ends

theorem ends_text {text : String} (ends : Ends (str text)) : (Utf8.encode text).length < 2 ^ 32 := by
  rw [str] at ends
  dsimp only at ends
  split at ends
  · omega
  · exact ends_length (ends_both ends).1

theorem ends_array_header {size : Nat} (ends : Ends (arrayHeader size)) : size < 2 ^ 32 := by
  rw [arrayHeader] at ends
  split at ends
  · omega
  · exact ends_wide ends

theorem ends_map_header {size : Nat} (ends : Ends (mapHeader size)) : size < 2 ^ 32 := by
  rw [mapHeader] at ends
  split at ends
  · omega
  · exact ends_wide ends

theorem ends_items {items : List Value} (ends : Ends (values items)) :
    ∀ item ∈ items, Ends (value item) := by
  induction items with
  | nil => exact List.forall_mem_nil _
  | cons item rest ih =>
      obtain ⟨head, tail⟩ := ends_both ends
      exact List.forall_mem_cons.mpr ⟨head, ih tail⟩

theorem ends_entries {entries : List (String × Value)} (ends : Ends (members entries)) :
    ∀ entry ∈ entries, (Utf8.encode entry.1).length < 2 ^ 32 ∧ Ends (value entry.2) := by
  induction entries with
  | nil => exact List.forall_mem_nil _
  | cons entry rest ih =>
      obtain ⟨key, item⟩ := entry
      obtain ⟨name, others⟩ := ends_both ends
      obtain ⟨head, tail⟩ := ends_both others
      exact List.forall_mem_cons.mpr ⟨⟨ends_text name, head⟩, ih tail⟩

theorem ends_sized (content : Value) : Ends (value content) → content.Every Sized := by
  induction content using Value.inside_induction with
  | step content ih =>
      intro ends
      cases content with
      | str text => exact (Value.every_scalar _ _ rfl).mpr (ends_text ends)
      | bytes content => exact (Value.every_scalar _ _ rfl).mpr (ends_length (ends_both ends).1)
      | array items =>
          obtain ⟨header, parts⟩ := ends_both ends
          have each := ends_items parts
          exact (Value.every_array _ _).mpr ⟨ends_array_header header,
            fun item member => ih item (.item member) (each item member)⟩
      | object entries =>
          obtain ⟨header, parts⟩ := ends_both ends
          have each := ends_entries parts
          exact (Value.every_object _ _).mpr ⟨⟨ends_map_header header,
              fun entry member => (each entry member).1⟩,
            fun entry member => ih entry.2 (.entry member) (each entry member).2⟩
      | _ => exact (Value.every_scalar _ _ rfl).mpr trivial

end Writer

/-- Encoding succeeds with the image, whatever the writer was left with before. -/
theorem encode_image (content : Value) (sized : content.Every Sized) (writer : Writer) :
    (Writer.encode content).run writer = .ok (image content) .fresh := by
  have written := Writer.appends_value content sized .fresh
  have taken : (Writer.fresh.buffer ++ image content).toList = image content := by
    simp [Writer.fresh]
  have run : (Writer.encode content).run writer =
      EStateM.bind (Writer.value content) (fun _ => Writer.take) .fresh := rfl
  rw [run]
  simp only [EStateM.bind, written]
  exact congrArg (EStateM.Result.ok · Writer.fresh) taken

theorem encode_sized (content : Value) (sized : content.Every Sized) :
    encode content = .ok (image content) := by
  rw [encode, encode_image content sized]

/-- A value is written just if its lengths fit 32 bits. -/
theorem encode_ok_iff (content : Value) (bytes : List UInt8) :
    encode content = .ok bytes ↔ content.Every Sized ∧ bytes = image content := by
  constructor
  · intro encoded
    have sized : content.Every Sized := by
      apply Writer.ends_sized
      have run : (Writer.encode content).run .fresh =
          EStateM.bind (Writer.value content) (fun _ => Writer.take) .fresh := rfl
      rw [encode, run] at encoded
      unfold EStateM.bind at encoded
      cases written : Writer.value content .fresh with
      | ok result after => exact ⟨.fresh, after, written⟩
      | error fault after =>
          rw [written] at encoded
          contradiction
    exact ⟨sized, Except.ok.inj (encoded.symm.trans (encode_sized content sized))⟩
  · rintro ⟨sized, rfl⟩
    exact encode_sized content sized

end Interchange.MessagePack
