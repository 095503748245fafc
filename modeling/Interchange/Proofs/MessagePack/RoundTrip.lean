import Interchange.Proofs.MessagePack.Answers
import Interchange.Proofs.NormalizedValues
/-!
Reading undoes writing. The image of a value is read as the value's normal form if its containers
nest within the budget, and refused as too deep otherwise, whatever bytes stand behind it.
-/
namespace Interchange.MessagePack

namespace Read

section Bounded
variable {α β : Type} (limit : Nat)

-- A result that stands only within a bound of the nesting.
def bounded (fits : Prop) [Decidable fits] (found : α) : Except Fault α :=
  if fits then .ok found else .error (.tooDeep limit)

theorem bounded_ok {fits : Prop} [Decidable fits] (holds : fits) (found : α) :
    bounded limit fits found = .ok found := by
  rw [bounded, if_pos holds]

/-- A read that fits leads to the next one; a read that does not is the end of both. -/
theorem answers_bounded {first : Read α} {next : α → Read β} {before after : List UInt8}
    {fits others all : Prop} [Decidable fits] [Decidable others] [Decidable all] {found : α}
    {result : β} (both : all ↔ fits ∧ others)
    (head : Answers first before (bounded limit fits found))
    (tail : Answers (next found) after (bounded limit others result)) :
    Answers (first >>= next) (before ++ after) (bounded limit all result) := by
  by_cases fit : fits
  · have same : bounded limit all result = bounded limit others result := by
      simp only [bounded, both, fit, true_and]
    rw [bounded_ok limit fit] at head
    rw [same]
    exact answers_then head tail
  · have short : bounded limit all result = .error (.tooDeep limit) := by
      simp only [bounded, both, fit, false_and, ↓reduceIte]
    rw [bounded, if_neg fit] at head
    rw [short]
    exact answers_stop head

theorem answers_bounded_map {first : Read α} {before : List UInt8} {fits all : Prop}
    [Decidable fits] [Decidable all] {found : α} (change : α → β) (same : all ↔ fits)
    (head : Answers first before (bounded limit fits found)) :
    Answers (do return change (← first)) before (bounded limit all (change found)) := by
  have whole : bounded limit True (change found) = .ok (change found) := if_pos trivial
  have tail : Answers (pure (change found)) [] (bounded limit True (change found)) := by
    rw [whole]
    exact answers_done (change found)
  have both : all ↔ fits ∧ True := same.trans (iff_of_eq (and_true fits)).symm
  rw [← List.append_nil before]
  exact answers_bounded limit both head tail

end Bounded

section Containers
variable (limit budget : Nat) (item : Read Value)

-- The read of one part gives its normal form, if the part nests within the budget.
def Undoes (part : Value) : Prop :=
  Answers item (image part) (bounded limit (part.height ≤ budget) part.normalize)

/-- Items are read one after the other; the first that is too deep ends the read. -/
theorem answers_items (parts : List Value) (each : ∀ part ∈ parts, Undoes limit budget item part)
    (done : List Value) :
    Answers (items item parts.length done) (imageItems parts)
      (bounded limit (Value.heightItems parts ≤ budget)
        (done.reverse ++ parts.map Value.normalize)) := by
  induction parts generalizing done with
  | nil =>
      have within : Value.heightItems [] ≤ budget := Nat.zero_le budget
      rw [bounded_ok limit within, List.map_nil, List.append_nil]
      exact answers_done done.reverse
  | cons part rest ih =>
      obtain ⟨head, tail⟩ := List.forall_mem_cons.mp each
      have others := ih tail (part.normalize :: done)
      rw [List.reverse_cons, List.append_assoc, List.singleton_append] at others
      refine answers_bounded limit ?_ head others
      rw [Value.heightItems, Nat.max_le]

theorem answers_key (name : String) (done : List (String × Value))
    (reads : Answers item (textImage name) (.ok (.str name)))
    (fresh : Entries.has name done = false) :
    Answers (key item done) (textImage name) (.ok name) := by
  apply answers_from
  intro start
  apply answers_end reads
  simp only [fresh, Bool.false_eq_true, ↓reduceIte]
  exact answers_done name

/-- A key that is new to the entries so far and to those that follow stays new to all. -/
theorem fresh_entries (name : String) (content : Value) (done rest : List (String × Value))
    (fresh : ∀ part ∈ rest, Entries.has part.1 done = false)
    (apart : name ∉ rest.map (·.1)) :
    ∀ part ∈ rest, Entries.has part.1 ((name, content) :: done) = false := by
  intro part member
  have different : name ≠ part.1 := by
    intro same
    exact apart (same ▸ List.mem_map_of_mem member)
  have before := fresh part member
  simp only [Entries.has, List.any_cons, Bool.or_eq_false_iff] at before ⊢
  exact ⟨by simpa using different, before⟩

theorem answers_entries (parts : List (String × Value))
    (keys : ∀ part ∈ parts, Answers item (textImage part.1) (.ok (.str part.1)))
    (each : ∀ part ∈ parts, Undoes limit budget item part.2) (done : List (String × Value))
    (fresh : ∀ part ∈ parts, Entries.has part.1 done = false)
    (distinct : (parts.map (·.1)).Nodup) :
    Answers (entries item parts.length done) (imageEntries parts)
      (bounded limit (Value.heightEntries parts ≤ budget)
        (done.reverse ++ parts.map fun part => (part.1, part.2.normalize))) := by
  induction parts generalizing done with
  | nil =>
      have within : Value.heightEntries [] ≤ budget := Nat.zero_le budget
      rw [bounded_ok limit within, List.map_nil, List.append_nil]
      exact answers_done done.reverse
  | cons part rest ih =>
      obtain ⟨name, content⟩ := part
      obtain ⟨headKey, tailKeys⟩ := List.forall_mem_cons.mp keys
      obtain ⟨head, tail⟩ := List.forall_mem_cons.mp each
      obtain ⟨headFresh, tailFresh⟩ := List.forall_mem_cons.mp fresh
      rw [List.map_cons, List.nodup_cons] at distinct
      have others := ih tailKeys tail ((name, content.normalize) :: done)
        (fresh_entries name content.normalize done rest tailFresh distinct.1) distinct.2
      rw [List.reverse_cons, List.append_assoc, List.singleton_append] at others
      apply answers_then (answers_key item name done headKey headFresh)
      refine answers_bounded limit ?_ head others
      rw [Value.heightEntries, Nat.max_le]

end Containers

section Values
variable (limit : Nat)

-- What reads the parts of a container under a budget.
def inner : Nat → Option (Read Value)
  | 0 => none
  | smaller + 1 => some (value limit smaller)

theorem value_single (budget : Nat) : value limit budget = single limit (inner limit budget) := by
  cases budget <;> rfl

theorem answers_array (budget : Nat) (parts : List Value)
    (each : ∀ smaller, ∀ part ∈ parts, Undoes limit smaller (value limit smaller) part) :
    Answers (array limit (inner limit budget) parts.length) (imageItems parts)
      (bounded limit ((Value.array parts).height ≤ budget) (Value.array parts).normalize) := by
  rw [Value.normalize, Value.normalize_items]
  cases budget with
  | zero =>
      have beyond : ¬ (Value.array parts).height ≤ 0 := by simp [Value.height]
      rw [bounded, if_neg beyond]
      exact answers_fault (.tooDeep limit) _
  | succ smaller =>
      have read := answers_items limit smaller (value limit smaller) parts (each smaller) []
      refine answers_bounded_map limit Value.array ?_ read
      rw [Value.height, Nat.add_le_add_iff_right]

theorem answers_map_entries (budget : Nat) (parts : List (String × Value))
    (keys : ∀ part ∈ parts, (Utf8.encode part.1).length < 2 ^ 32)
    (each : ∀ smaller, ∀ part ∈ parts, Undoes limit smaller (value limit smaller) part.2)
    (distinct : (parts.map (·.1)).Nodup) :
    Answers (map limit (inner limit budget) parts.length) (imageEntries parts)
      (bounded limit ((Value.object parts).height ≤ budget) (Value.object parts).normalize) := by
  rw [Value.normalize, Value.normalize_entries]
  cases budget with
  | zero =>
      have beyond : ¬ (Value.object parts).height ≤ 0 := by simp [Value.height]
      rw [bounded, if_neg beyond]
      exact answers_fault (.tooDeep limit) _
  | succ smaller =>
      have texts : ∀ part ∈ parts,
          Answers (value limit smaller) (textImage part.1) (.ok (.str part.1)) := by
        intro part member
        rw [value_single]
        exact answers_text_image limit (inner limit smaller) part.1 (keys part member)
      have read := answers_entries limit smaller (value limit smaller) parts texts (each smaller)
        [] (fun _ _ => rfl) distinct
      refine answers_bounded_map limit Value.object ?_ read
      rw [Value.height, Nat.add_le_add_iff_right]

/-- The image of a value is read as its normal form, up to the budget and not beyond. -/
theorem value_undoes (content : Value) :
    content.Every Sized → content.Every Value.DistinctKeys →
      ∀ budget, Undoes limit budget (value limit budget) content := by
  induction content using Value.inside_induction with
  | step content ih =>
      intro sized distinct budget
      have here := Value.every_here sized
      rw [Undoes, value_single]
      cases content with
      | null => exact answers_alone limit _ fun _ => rfl
      | bool flag =>
          cases flag with
          | true => exact answers_alone limit _ fun _ => rfl
          | false => exact answers_alone limit _ fun _ => rfl
      | integer number => exact answers_signed limit _ number
      | unsigned number =>
          have read := answers_unsigned limit (inner limit budget) number.toNat number.toNat_lt
          rwa [UInt64.ofNat_toNat] at read
      | float number => exact answers_float limit _ number
      | str text => exact answers_text_image limit _ text here
      | bytes content =>
          exact answers_length limit _ 0xc4 0xc5 0xc6 _ here (fun _ => rfl) (fun _ => rfl)
            (fun _ => rfl) (answers_map Value.bytes (answers_bytes content))
      | array parts =>
          apply answers_array_image limit _ parts.length here
          apply answers_array
          intro smaller part member
          exact ih part (.item member) (Value.every_item sized member)
            (Value.every_item distinct member) smaller
      | object parts =>
          apply answers_map_image limit _ parts.length here.1
          apply answers_map_entries limit budget parts here.2 ?_ (Value.every_here distinct)
          intro smaller part member
          exact ih part.2 (.entry member) (Value.every_entry sized member)
            (Value.every_entry distinct member) smaller

end Values

end Read

theorem decode_image (content : Value) (sized : content.Every Sized)
    (distinct : content.Every Value.DistinctKeys) (limit : Nat) :
    decodeWithin limit (image content) =
      if content.height ≤ limit then .ok content.normalize else .error (.tooDeep limit) := by
  have read := Read.value_undoes limit content sized distinct limit [] 0
  rw [List.append_nil] at read
  rw [decodeWithin, read]
  by_cases shallow : content.height ≤ limit
  · simp [Read.bounded, shallow, Except.map]
  · simp [Read.bounded, shallow, Except.map]

end Interchange.MessagePack
