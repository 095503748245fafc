import Interchange.Proofs.Json.ContainerReads
/-!
A document is read back from its text, with its floats reread. The reader of a value takes exactly the
bytes of that value, so the bytes of a container are taken item by item up to its end.
-/
namespace Interchange.Json

namespace Number

-- Numbers that are written in digits; `negative` is for numbers below zero.
inductive Proper : Number → Prop where
  | natural (amount : UInt64) : Proper (.natural amount)
  | negative {amount : Int64} (below : amount.toInt < 0) : Proper (.negative amount)
  | float {amount : Binary64} (finite : amount.isFinite) : Proper (.float amount)

end Number

namespace Tree

/-- A document of proper numbers and distinct keys that nests no deeper than a budget. -/
inductive Readable : Nat → Tree → Prop where
  | null {budget : Nat} : Readable budget .null
  | bool {budget : Nat} (flag : Bool) : Readable budget (.bool flag)
  | number {budget : Nat} {content : Number} (proper : content.Proper) :
      Readable budget (.number content)
  | str {budget : Nat} (text : String) : Readable budget (.str text)
  | array {budget : Nat} {items : List Tree} (each : ∀ item ∈ items, Readable budget item) :
      Readable (budget + 1) (.array items)
  | object {budget : Nat} {entries : List (String × Tree)}
      (distinct : (entries.map (·.1)).Nodup)
      (each : ∀ entry ∈ entries, Readable budget entry.2) :
      Readable (budget + 1) (.object entries)

end Tree

namespace Read

theorem single_number (content : Number) (proper : content.Proper) (bound : Nat)
    (inside : Option (Read Tree)) (rest : List UInt8) (apart : Apart rest) :
    single bound inside (Utf8.encodeChars content.text ++ rest) =
      .ok (.number content.reread, rest) := by
  cases proper with
  | natural amount => exact single_natural bound inside rest amount apart
  | negative below => exact single_below bound inside rest _ below apart
  | float finite => exact single_float _ finite bound inside rest apart

/-- Text of digits and signs begins like a number. -/
theorem numerals_begin (text : List Char) (numeric : text ⊆ numerals) (filled : text ≠ []) :
    Begins (Utf8.encodeChars text) := by
  cases text with
  | nil => contradiction
  | cons character others =>
      have member : character ∈ numerals := numeric List.mem_cons_self
      obtain ⟨bytes, visible⟩ := numeral_bytes character member
      have ends : ∀ character ∈ numerals, code character ≠ code ']' ∧
          code character ≠ code '\x7d' := forall_mem_of_all _ _ (by decide)
      refine ⟨code character, Utf8.encodeChars others, ?_, visible, ends character member⟩
      rw [← List.singleton_append, Utf8.encode_chars_append, ← List.singleton_append]
      simp [Utf8.encodeChars, bytes]

theorem number_begins (content : Number) (proper : content.Proper) :
    Begins (Utf8.encodeChars content.text) := by
  cases proper with
  | natural amount => exact numerals_begin _ (digits_numerals _) Nat.toDigits_ne_nil
  | negative below =>
      refine numerals_begin _ (List.cons_subset.mpr ⟨by decide, digits_numerals _⟩) ?_
      exact List.cons_ne_nil _ _
  | @float amount finite =>
      refine numerals_begin _ (float_numerals amount finite) ?_
      intro empty
      have read := decode_float amount finite
      rw [show floatText amount = [] from empty] at read
      cases read

theorem image_begins {budget : Nat} {content : Tree} (readable : content.Readable budget) :
    Begins content.image := by
  cases readable with
  | null => exact ⟨code 'n', _, rfl, by decide⟩
  | bool flag =>
      cases flag with
      | true => exact ⟨code 't', _, rfl, by decide⟩
      | false => exact ⟨code 'f', _, rfl, by decide⟩
  | number proper => exact number_begins _ proper
  | str text => exact ⟨code '"', _, rfl, by decide⟩
  | array each => exact ⟨code '[', _, rfl, by decide⟩
  | object distinct each => exact ⟨code '\x7b', _, rfl, by decide⟩

/-- Documents without parts are read alike under every budget. -/
theorem single_takes {budget bound : Nat} {content : Tree}
    (reads : ∀ inside rest, Apart rest →
      single bound inside (content.image ++ rest) = .ok (content.reread, rest)) :
    Takes (tree bound budget) content := by
  intro rest apart
  cases budget with
  | zero => exact reads none rest apart
  | succ smaller => exact reads (some (tree bound smaller)) rest apart

/-- A readable document is read back from its text, whatever is behind that. -/
theorem tree_taken {budget : Nat} {content : Tree} (readable : content.Readable budget)
    (bound : Nat) (enough : content.image.length ≤ bound) : Takes (tree bound budget) content := by
  induction readable with
  | null => exact single_takes fun inside rest _ => single_null bound inside rest
  | bool flag => exact single_takes fun inside rest _ => single_bool bound inside rest flag
  | number proper => exact single_takes (single_number _ proper bound)
  | str text => exact single_takes fun inside rest _ => single_quoted bound inside rest text
  | @array budget items each ih =>
      obtain ⟨count, shorter⟩ := Tree.array_bound enough
      have opening : Utf8.encodeChars ['['] = [code '['] := by decide
      have closing : Utf8.encodeChars [']'] = [code ']'] := by decide
      intro rest apart
      rw [Tree.image, opening, closing, List.append_assoc, List.append_assoc,
        List.singleton_append, List.singleton_append]
      exact (single_array (tree bound budget) bound _).trans (array_taken _ bound items rest
        (fun item member => ih item member (shorter item member))
        (fun item member => image_begins (each item member)) count)
  | @object budget entries distinct each ih =>
      obtain ⟨count, shorter⟩ := Tree.object_bound enough
      have opening : Utf8.encodeChars ['\x7b'] = [code '\x7b'] := by decide
      have closing : Utf8.encodeChars ['\x7d'] = [code '\x7d'] := by decide
      intro rest apart
      rw [Tree.image, opening, closing, List.append_assoc, List.append_assoc,
        List.singleton_append, List.singleton_append]
      exact (single_object (tree bound budget) bound _).trans (object_taken _ bound entries rest
        (fun entry member => ih entry member (shorter entry member)) count distinct)

end Read

/-- Documents are read back from their own bytes, with their floats reread. -/
theorem parse_bytes (content : Tree) (readable : content.Readable maxDepth) :
    parse content.bytes = .ok content.reread := by
  have none : Read.Apart [] := by
    intro byte head
    cases head
  have taken := Read.tree_taken readable content.bytes.length
    (Nat.le_of_eq (by rw [Tree.bytes_image])) [] none
  rw [List.append_nil, ← Tree.bytes_image] at taken
  have whole : Read.document content.bytes.length content.bytes = .ok (content.reread, []) := by
    rw [Read.document, Read.bind_read _ _ taken, Read.bind_read _ _ (Read.blanks_skipped [])]
    rfl
  rw [parse, whole]

end Interchange.Json
