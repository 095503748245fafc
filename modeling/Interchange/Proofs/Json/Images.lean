import Interchange.Json.Printer
/-!
The bytes of a JSON document, as a function. The printer appends exactly these bytes to whatever it has
printed before.
-/
namespace Interchange

theorem Utf8.encode_chars_append (left right : List Char) :
    encodeChars (left ++ right) = encodeChars left ++ encodeChars right := by
  simp [encodeChars]

namespace Json.Tree

-- What stands between an item and the one before it.
def separator (first : Bool) : List UInt8 := if first then [] else Utf8.encodeChars [',']

mutual
def image : Tree → List UInt8
  | .null => Utf8.encodeChars "null".toList
  | .bool flag => Utf8.encodeChars (if flag then "true" else "false").toList
  | .number content => Utf8.encodeChars content.text
  | .str text => Utf8.encodeChars (quoted text)
  | .array items => Utf8.encodeChars ['['] ++ (imageItems true items ++ Utf8.encodeChars [']'])
  | .object entries =>
    Utf8.encodeChars ['\x7b'] ++ (imageEntries true entries ++ Utf8.encodeChars ['\x7d'])
termination_by structural tree => tree
def imageItems (first : Bool) : List Tree → List UInt8
  | [] => []
  | item :: rest => separator first ++ (image item ++ imageItems false rest)
termination_by structural items => items
def imageEntries (first : Bool) : List (String × Tree) → List UInt8
  | [] => []
  | (key, item) :: rest =>
    separator first ++ (Utf8.encodeChars (quoted key) ++
      (Utf8.encodeChars [':'] ++ (image item ++ imageEntries false rest)))
termination_by structural entries => entries
end

/-! Induction over the documents inside a document. -/
inductive Part : Tree → Tree → Prop where
  | item {item : Tree} {items : List Tree} (member : item ∈ items) : Part item (.array items)
  | entry {key : String} {item : Tree} {entries : List (String × Tree)}
      (member : (key, item) ∈ entries) : Part item (.object entries)

theorem part_smaller {part tree : Tree} (inside : Part part tree) : sizeOf part < sizeOf tree := by
  cases inside with
  | item member =>
      have smaller := List.sizeOf_lt_of_mem member
      simp only [Tree.array.sizeOf_spec]
      omega
  | entry member =>
      have smaller := List.sizeOf_lt_of_mem member
      simp only [Prod.mk.sizeOf_spec] at smaller
      simp only [Tree.object.sizeOf_spec]
      omega

theorem part_induction {motive : Tree → Prop}
    (step : ∀ tree, (∀ part, Part part tree → motive part) → motive tree) (tree : Tree) :
    motive tree :=
  step tree fun part inside =>
    have := part_smaller inside
    part_induction step part
termination_by sizeOf tree

theorem emit_bytes (out : Array UInt8) (text : List Char) :
    (emit out text).toList = out.toList ++ Utf8.encodeChars text := by
  simp [emit]

theorem separated (out : Array UInt8) (first : Bool) :
    (if first then out else emit out [',']).toList = out.toList ++ separator first := by
  cases first with
  | true => simp [separator]
  | false => simp [separator, emit_bytes]

theorem print_items (items : List Tree)
    (each : ∀ item ∈ items, ∀ out, (print out item).toList = out.toList ++ image item)
    (out : Array UInt8) (first : Bool) :
    (printItems out first items).toList = out.toList ++ imageItems first items := by
  induction items generalizing out first with
  | nil => simp [printItems, imageItems]
  | cons item rest ih =>
      obtain ⟨head, tail⟩ := List.forall_mem_cons.mp each
      rw [printItems, ih tail, head, separated, imageItems]
      simp only [List.append_assoc]

theorem print_entries (entries : List (String × Tree))
    (each : ∀ entry ∈ entries, ∀ out, (print out entry.2).toList = out.toList ++ image entry.2)
    (out : Array UInt8) (first : Bool) :
    (printEntries out first entries).toList = out.toList ++ imageEntries first entries := by
  induction entries generalizing out first with
  | nil => simp [printEntries, imageEntries]
  | cons entry rest ih =>
      obtain ⟨key, item⟩ := entry
      obtain ⟨head, tail⟩ := List.forall_mem_cons.mp each
      simp only [printEntries]
      rw [ih tail, head, emit_bytes, emit_bytes, separated, imageEntries]
      simp only [List.append_assoc]

theorem print_image (tree : Tree) :
    ∀ out, (print out tree).toList = out.toList ++ image tree := by
  induction tree using part_induction with
  | step tree ih =>
      intro out
      cases tree with
      | array items =>
          rw [print, emit_bytes, print_items items (fun item member => ih item (.item member)),
            emit_bytes, image]
          simp only [List.append_assoc]
      | object entries =>
          rw [print, emit_bytes,
            print_entries entries (fun entry member => ih entry.2 (.entry member)), emit_bytes,
            image]
          simp only [List.append_assoc]
      | _ => exact emit_bytes _ _

theorem bytes_image (tree : Tree) : tree.bytes = image tree := by
  rw [bytes, print_image]
  rfl

/-! No part of a document is longer than the document, and it has no more parts than bytes. -/
theorem items_count (items : List Tree) : items.length ≤ (imageItems false items).length := by
  induction items with
  | nil => exact Nat.le_refl 0
  | cons item rest ih =>
      have comma : (separator false).length = 1 := by decide
      simp only [imageItems, List.length_append, List.length_cons, comma]
      omega

theorem entries_count (entries : List (String × Tree)) :
    entries.length ≤ (imageEntries false entries).length := by
  induction entries with
  | nil => exact Nat.le_refl 0
  | cons entry rest ih =>
      have comma : (separator false).length = 1 := by decide
      simp only [imageEntries, List.length_append, List.length_cons, comma]
      omega

theorem item_length (first : Bool) (items : List Tree) (item : Tree) (member : item ∈ items) :
    item.image.length ≤ (imageItems first items).length := by
  induction items generalizing first with
  | nil => contradiction
  | cons head rest ih =>
      simp only [imageItems, List.length_append]
      rcases List.mem_cons.mp member with rfl | later
      · omega
      · have shorter := ih false later
        omega

theorem entry_length (first : Bool) (entries : List (String × Tree)) (entry : String × Tree)
    (member : entry ∈ entries) : entry.2.image.length ≤ (imageEntries first entries).length := by
  induction entries generalizing first with
  | nil => contradiction
  | cons head rest ih =>
      simp only [imageEntries, List.length_append]
      rcases List.mem_cons.mp member with rfl | later
      · omega
      · have shorter := ih false later
        omega

theorem array_bound {items : List Tree} {bound : Nat} (within : (array items).image.length ≤ bound) :
    items.length ≤ bound ∧ ∀ item ∈ items, item.image.length ≤ bound := by
  have bracket : (Utf8.encodeChars ['[']).length = 1 := by decide
  simp only [image, List.length_append, bracket] at within
  constructor
  · cases items with
    | nil => exact Nat.zero_le bound
    | cons item rest =>
        have count := items_count rest
        simp only [imageItems, List.length_append, List.length_cons] at within ⊢
        omega
  · intro item member
    have shorter := item_length true items item member
    omega

theorem object_bound {entries : List (String × Tree)} {bound : Nat}
    (within : (object entries).image.length ≤ bound) :
    entries.length ≤ bound ∧ ∀ entry ∈ entries, entry.2.image.length ≤ bound := by
  have brace : (Utf8.encodeChars ['\x7b']).length = 1 := by decide
  simp only [image, List.length_append, brace] at within
  constructor
  · cases entries with
    | nil => exact Nat.zero_le bound
    | cons entry rest =>
        have count := entries_count rest
        simp only [imageEntries, List.length_append, List.length_cons] at within ⊢
        omega
  · intro entry member
    have shorter := entry_length true entries entry member
    omega

end Json.Tree

end Interchange
