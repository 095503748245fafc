import Interchange.Proofs.CanonicalValues
/-!
A cursor in its input. Whatever length a header gives, reads stay within the bytes that are there and
move past each of them once. A part takes a byte at least, so a container has no more parts than bytes
behind it, and a count beyond these bytes is never counted to its end.
-/
namespace Interchange

namespace Value

-- All values inside a value and itself, and the keys of all its maps.
mutual
def pieces : Value → Nat
  | .array items => piecesItems items + 1
  | .object entries => piecesEntries entries + 1
  | _ => 1
termination_by structural value => value
def piecesItems : List Value → Nat
  | [] => 0
  | item :: rest => pieces item + piecesItems rest
termination_by structural items => items
def piecesEntries : List (String × Value) → Nat
  | [] => 0
  | (_, value) :: rest => 1 + pieces value + piecesEntries rest
termination_by structural entries => entries
end

end Value

namespace MessagePack

/-- A place in the given bytes: those from its offset on are still to come. -/
def Cursor.Within (bytes : List UInt8) (cursor : Cursor) : Prop :=
  cursor.offset ≤ bytes.length ∧ cursor.rest = bytes.drop cursor.offset

theorem Cursor.within_start (bytes : List UInt8) : (⟨bytes, 0⟩ : Cursor).Within bytes :=
  ⟨Nat.zero_le _, rfl⟩

theorem Cursor.within_rest {bytes : List UInt8} {cursor : Cursor} (within : cursor.Within bytes) :
    cursor.rest.length = bytes.length - cursor.offset := by
  rw [within.2, List.length_drop]

/-! The least that parts take. -/
section Sizes

theorem spells_filled {bytes : List UInt8} {text : String} (spells : Spells bytes text) :
    0 < bytes.length := by
  cases spells with
  | sized head => exact Nat.zero_lt_succ _

theorem denotes_some {bytes : List UInt8} {value : Value} (denotes : Denotes bytes value) :
    0 < bytes.length := by
  obtain ⟨lead, behind, rfl⟩ := Read.denotes_filled denotes
  exact Nat.zero_lt_succ _

theorem sequence_count {each : List UInt8 → Value → Prop} {bytes : List UInt8} {items : List Value}
    (some : ∀ part item, each part item → 0 < part.length) (parts : Sequence each bytes items) :
    items.length ≤ bytes.length := by
  induction parts with
  | nil => exact Nat.le_refl 0
  | cons first others ih =>
      have here := some _ _ first
      rw [List.length_cons, List.length_append]
      omega

theorem members_count {key : List UInt8 → String → Prop} {each : List UInt8 → Value → Prop}
    {bytes : List UInt8} {entries : List (String × Value)}
    (called : ∀ named name, key named name → 0 < named.length)
    (some : ∀ part item, each part item → 0 < part.length) (parts : Members key each bytes entries) :
    2 * entries.length ≤ bytes.length := by
  induction parts with
  | nil => exact Nat.le_refl 0
  | cons named first others ih =>
      have front := called _ _ named
      have here := some _ _ first
      rw [List.length_cons, List.length_append, List.length_append]
      omega

theorem sequence_pieces {bytes : List UInt8} {items : List Value}
    (parts : Sequence Denotes bytes items)
    (each : ∀ item ∈ items, ∀ part, Denotes part item → item.pieces ≤ part.length) :
    Value.piecesItems items ≤ bytes.length := by
  induction parts with
  | nil => exact Nat.le_refl 0
  | cons first others ih =>
      obtain ⟨here, behind⟩ := List.forall_mem_cons.mp each
      rw [Value.piecesItems, List.length_append]
      exact Nat.add_le_add (here _ first) (ih behind)

theorem members_pieces {bytes : List UInt8} {entries : List (String × Value)}
    (parts : Members Spells Denotes bytes entries)
    (each : ∀ entry ∈ entries, ∀ part, Denotes part entry.2 → entry.2.pieces ≤ part.length) :
    Value.piecesEntries entries ≤ bytes.length := by
  induction parts with
  | nil => exact Nat.le_refl 0
  | cons called first others ih =>
      obtain ⟨here, behind⟩ := List.forall_mem_cons.mp each
      rw [Value.piecesEntries, List.length_append, List.length_append, Nat.add_assoc]
      exact Nat.add_le_add (spells_filled called) (Nat.add_le_add (here _ first) (ih behind))

/-- Every value and every key has a byte of its own, the leading one. -/
theorem denotes_pieces (value : Value) :
    ∀ bytes, Denotes bytes value → value.pieces ≤ bytes.length := by
  induction value using Value.inside_induction with
  | step value ih =>
      intro bytes denotes
      have some := denotes_some denotes
      cases value with
      | array items =>
          cases denotes with
          | list head parts =>
              have inside := sequence_pieces parts fun item member => ih item (.item member)
              simp only [Value.pieces, List.length_cons, List.length_append]
              omega
          | shortNatural _ held | shortNegative _ _ held | natural _ held | integer _ held =>
              exact held.elim
      | object entries =>
          cases denotes with
          | map head parts distinct =>
              have inside := members_pieces parts fun entry member => ih entry.2 (.entry member)
              simp only [Value.pieces, List.length_cons, List.length_append]
              omega
          | shortNatural _ held | shortNegative _ _ held | natural _ held | integer _ held =>
              exact held.elim
      | _ => exact some

end Sizes

namespace Read

section Forward
variable {bytes : List UInt8} {cursor after : Cursor}

theorem accepts_within {α : Type} {read : Read α} {language : Language α} {found : α}
    (accepts : Accepts read language) (within : cursor.Within bytes)
    (ended : read cursor = .ok (found, after)) :
    after.Within bytes ∧
      ∃ taken, language taken found ∧ after.offset = cursor.offset + taken.length := by
  obtain ⟨taken, inside, whole, moved⟩ := (accepts cursor found after).mp ended
  obtain ⟨low, left⟩ := within
  have size := congrArg List.length (left.symm.trans whole)
  rw [List.length_drop, List.length_append] at size
  refine ⟨⟨by omega, ?_⟩, taken, inside, moved⟩
  rw [moved, ← List.drop_drop, ← left, whole, List.drop_left]

theorem accepts_forward {α : Type} {read : Read α} {language : Language α} {found : α}
    (accepts : Accepts read language) (within : cursor.Within bytes)
    (ended : read cursor = .ok (found, after)) :
    after.Within bytes ∧ cursor.offset ≤ after.offset := by
  obtain ⟨inside, taken, -, moved⟩ := accepts_within accepts within ended
  exact ⟨inside, by omega⟩

/-- A slice is taken just if the bytes reach so far. -/
theorem bytes_within (within : cursor.Within bytes) (size : Nat) :
    Read.bytes size cursor =
      if cursor.offset + size ≤ bytes.length then
        .ok ((bytes.drop cursor.offset).take size,
          ⟨bytes.drop (cursor.offset + size), cursor.offset + size⟩)
      else .error (.endOfInput cursor.offset) := by
  have left := Cursor.within_rest within
  split
  · rename_i enough
    refine (accepts_bytes size cursor _ _).mpr ⟨_, ⟨?_, rfl⟩, ?_, ?_⟩
    · rw [List.length_take, List.length_drop]
      omega
    · rw [← List.drop_drop, List.take_append_drop]
      exact within.2
    · rw [List.length_take, List.length_drop]
      simp only
      omega
  · rename_i short
    have low := within.1
    rw [Read.bytes]
    cases cut : split? size [] cursor.rest with
    | none => rfl
    | some parts =>
        obtain ⟨content, long, -, whole⟩ := (split_iff _ _ _ _ _).mp cut
        rw [whole, List.length_append] at left
        omega

variable {limit budget count : Nat}

-- All reads that a decoder is put together from.
inductive Used (limit : Nat) : {α : Type} → Read α → Prop where
  | byte : Used limit byte
  | bytes (size : Nat) : Used limit (Read.bytes size)
  | number (width : Nat) : Used limit (number width)
  | text (size : Nat) : Used limit (text size)
  | content (size : Nat) : Used limit (content size)
  | signed (width : Nat) : Used limit (signed width)
  | extension : Used limit extension
  | items (budget count : Nat) (done : List Value) :
      Used limit (items (value limit budget) count done)
  | key (budget : Nat) (done : List (String × Value)) : Used limit (key (value limit budget) done)
  | entries (budget count : Nat) (done : List (String × Value)) :
      Used limit (entries (value limit budget) count done)
  | array (budget size : Nat) : Used limit (array limit (inner limit budget) size)
  | map (budget size : Nat) : Used limit (map limit (inner limit budget) size)
  | marked (budget start : Nat) (lead : UInt8) :
      Used limit (marked limit (inner limit budget) start lead)
  | single (budget : Nat) : Used limit (single limit (inner limit budget))
  | value (budget : Nat) : Used limit (value limit budget)

theorem inner_agrees (limit budget : Nat) :
    Option.Rel Accepts (inner limit budget) (Read.within budget) := by
  cases budget with
  | zero => exact .none
  | succ smaller => exact .some (accepts_value limit smaller)

theorem used_forward {α : Type} {read : Read α} {found : α} (used : Used limit read)
    (within : cursor.Within bytes) (ended : read cursor = .ok (found, after)) :
    after.Within bytes ∧ cursor.offset ≤ after.offset := by
  cases used with
  | byte => exact accepts_forward accepts_byte within ended
  | bytes size => exact accepts_forward (accepts_bytes size) within ended
  | number width => exact accepts_forward (accepts_number width) within ended
  | text size => exact accepts_forward (accepts_text size) within ended
  | content size => exact accepts_forward (accepts_content size) within ended
  | signed width => exact accepts_forward (accepts_result width _) within ended
  | extension => exact accepts_forward accepts_extension within ended
  | items budget count done =>
      exact accepts_forward (accepts_items (accepts_value limit budget) count done) within ended
  | key budget done =>
      exact accepts_forward (accepts_key (accepts_value limit budget) done) within ended
  | entries budget count done =>
      exact accepts_forward (accepts_entries (accepts_value limit budget) count done) within ended
  | array budget size =>
      exact accepts_forward (accepts_array limit size (inner_agrees limit budget)) within ended
  | map budget size =>
      exact accepts_forward (accepts_map_entries limit size (inner_agrees limit budget)) within ended
  | marked budget start lead =>
      exact accepts_forward (accepts_marked limit start lead (inner_agrees limit budget)) within
        ended
  | single budget =>
      exact accepts_forward (accepts_single limit (inner_agrees limit budget)) within ended
  | value budget => exact accepts_forward (accepts_value limit budget) within ended

theorem value_strict {found : Value} (within : cursor.Within bytes)
    (ended : value limit budget cursor = .ok (found, after)) : cursor.offset < after.offset := by
  obtain ⟨-, taken, ⟨denotes, -⟩, moved⟩ :=
    accepts_within (accepts_value limit budget) within ended
  have some := denotes_some denotes
  omega

theorem items_strict {done found : List Value} (within : cursor.Within bytes)
    (ended : items (value limit budget) count done cursor = .ok (found, after)) :
    cursor.offset + count ≤ after.offset := by
  obtain ⟨-, taken, ⟨parts, sequence, long, -⟩, moved⟩ :=
    accepts_within (accepts_items (accepts_value limit budget) count done) within ended
  have least := sequence_count (fun _ _ here => denotes_some here.1) sequence
  omega

theorem entries_strict {done found : List (String × Value)} (within : cursor.Within bytes)
    (ended : entries (value limit budget) count done cursor = .ok (found, after)) :
    cursor.offset + 2 * count ≤ after.offset := by
  obtain ⟨-, taken, ⟨parts, members, long, -⟩, moved⟩ :=
    accepts_within (accepts_entries (accepts_value limit budget) count done) within ended
  have least := members_count (fun _ _ here => denotes_some here.1)
    (fun _ _ here => denotes_some here.1) members
  omega

end Forward

/-! Counts beyond the bytes that are there. -/
section Rounds

-- A read that takes a byte at least whenever it ends well.
def Advances {α : Type} (read : Read α) : Prop :=
  ∀ cursor found after, read cursor = .ok (found, after) → after.rest.length < cursor.rest.length

theorem accepts_advances {α : Type} {read : Read α} {language : Language α}
    (accepts : Accepts read language)
    (some : ∀ taken found, language taken found → 0 < taken.length) : Advances read := by
  intro cursor found after ended
  obtain ⟨taken, inside, whole, -⟩ := (accepts cursor found after).mp ended
  have least := some taken found inside
  rw [whole, List.length_append]
  omega

theorem then_same {α β : Type} {first : Read α} {next other : α → Read β} {cursor : Cursor}
    (same : ∀ found after, first cursor = .ok (found, after) → next found after = other found after) :
    (first >>= next) cursor = (first >>= other) cursor := by
  simp only [bind, StateT.bind]
  cases ended : first cursor with
  | error fault => rfl
  | ok result => exact same result.1 result.2 ended

variable {item : Read Value}

/-- Two counts that the bytes do not reach are read alike: both stop where the bytes do. -/
theorem items_beyond (advances : Advances item) {first second : Nat} (done : List Value)
    (cursor : Cursor) (beyond : cursor.rest.length < first) (past : cursor.rest.length < second) :
    items item first done cursor = items item second done cursor := by
  induction first generalizing second done cursor with
  | zero => contradiction
  | succ first ih =>
      obtain ⟨second, rfl⟩ := Nat.exists_eq_succ_of_ne_zero (by omega : second ≠ 0)
      refine then_same fun found after ended => ?_
      have shorter := advances cursor found after ended
      exact ih (found :: done) after (by omega) (by omega)

theorem entries_beyond (advances : Advances item) (named : ∀ done, Advances (key item done))
    {first second : Nat} (done : List (String × Value)) (cursor : Cursor)
    (beyond : cursor.rest.length < 2 * first) (past : cursor.rest.length < 2 * second) :
    entries item first done cursor = entries item second done cursor := by
  induction first generalizing second done cursor with
  | zero => contradiction
  | succ first ih =>
      obtain ⟨second, rfl⟩ := Nat.exists_eq_succ_of_ne_zero (by omega : second ≠ 0)
      refine then_same fun name middle called => then_same fun found after ended => ?_
      have front := named done cursor name middle called
      have shorter := advances middle found after ended
      exact ih ((name, found) :: done) after (by omega) (by omega)

variable (limit budget : Nat)

theorem value_advances : Advances (value limit budget) :=
  accepts_advances (accepts_value limit budget) fun _ _ here => denotes_some here.1

theorem key_advances (done : List (String × Value)) : Advances (key (value limit budget) done) :=
  accepts_advances (accepts_key (accepts_value limit budget) done) fun _ _ here =>
    denotes_some here.1.1

end Rounds

/-- What reads do from a place in their input. A slice is there or is not taken; no read goes back;
parts take a byte at least, and those that are not there are not counted. -/
structure Confined (limit : Nat) (bytes : List UInt8) (cursor : Cursor) : Prop where
  slice : ∀ size, Read.bytes size cursor =
    if cursor.offset + size ≤ bytes.length then
      .ok ((bytes.drop cursor.offset).take size,
        ⟨bytes.drop (cursor.offset + size), cursor.offset + size⟩)
    else .error (.endOfInput cursor.offset)
  forward : ∀ {α : Type} (read : Read α), Used limit read → ∀ found after,
    read cursor = .ok (found, after) → after.Within bytes ∧ cursor.offset ≤ after.offset
  value : ∀ budget found after, value limit budget cursor = .ok (found, after) →
    cursor.offset < after.offset
  items : ∀ budget count done found after,
    items (Read.value limit budget) count done cursor = .ok (found, after) →
    cursor.offset + count ≤ after.offset
  entries : ∀ budget count done found after,
    entries (Read.value limit budget) count done cursor = .ok (found, after) →
    cursor.offset + 2 * count ≤ after.offset
  fewItems : ∀ budget count done, bytes.length - cursor.offset < count →
    Read.items (Read.value limit budget) count done cursor =
      Read.items (Read.value limit budget) (bytes.length - cursor.offset + 1) done cursor
  fewEntries : ∀ budget count done, bytes.length - cursor.offset < 2 * count →
    Read.entries (Read.value limit budget) count done cursor =
      Read.entries (Read.value limit budget) ((bytes.length - cursor.offset) / 2 + 1) done cursor

theorem confined {limit : Nat} {bytes : List UInt8} {cursor : Cursor}
    (within : cursor.Within bytes) : Confined limit bytes cursor where
  slice := bytes_within within
  forward := fun _ used _ _ ended => used_forward used within ended
  value := fun _ _ _ ended => value_strict within ended
  items := fun _ _ _ _ _ ended => items_strict within ended
  entries := fun _ _ _ _ _ ended => entries_strict within ended
  fewItems := by
    intro budget count done beyond
    rw [← Cursor.within_rest within] at beyond ⊢
    exact items_beyond (value_advances limit budget) done cursor beyond (by omega)
  fewEntries := by
    intro budget count done beyond
    rw [← Cursor.within_rest within] at beyond ⊢
    exact entries_beyond (value_advances limit budget) (key_advances limit budget) done cursor
      beyond (by omega)

end Read

end MessagePack

end Interchange
