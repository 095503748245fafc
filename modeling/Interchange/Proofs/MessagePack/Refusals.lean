import Interchange.Proofs.MessagePack.CursorBounds
/-!
Refused bytes. A fault tells where the decoder stood: behind some bytes that open a value, that is, behind
the heads of the containers around it and the parts that each of them has so far. So a fault
points into the input, and what it says of the bytes there can be read off them.
-/
namespace Interchange.MessagePack

-- What may stand before a value; and before a key, with the entries that its map has so far.
mutual
inductive Opened : List UInt8 → Prop where
  | start : Opened []
  | item {before digits body : List UInt8} {lead : UInt8} {items : List Value} {size : Nat}
      (opened : Opened before) (head : Head listForms lead digits size)
      (parts : Sequence Denotes body items) (more : items.length < size) :
      Opened (before ++ lead :: (digits ++ body))
  | key {before : List UInt8} {entries : List (String × Value)} (keyed : Keyed before entries) :
      Opened before
  | content {before named : List UInt8} {entries : List (String × Value)} {name : String}
      (keyed : Keyed before entries) (called : Spells named name)
      (fresh : name ∉ entries.map (·.1)) : Opened (before ++ named)
inductive Keyed : List UInt8 → List (String × Value) → Prop where
  | entry {before digits body : List UInt8} {lead : UInt8} {entries : List (String × Value)}
      {size : Nat} (opened : Opened before) (head : Head mapForms lead digits size)
      (parts : Members Spells Denotes body entries) (distinct : (entries.map (·.1)).Nodup)
      (more : entries.length < size) : Keyed (before ++ lead :: (digits ++ body)) entries
end

/-- The faults of the decoder, each with what the input is like where it points. -/
inductive Refused (limit : Nat) : List UInt8 → Fault → Prop where
  | endOfInput {before rest : List UInt8} : Refused limit (before ++ rest) (.endOfInput before.length)
  | invalidText {before digits content rest : List UInt8} {lead : UInt8} (opened : Opened before)
      (head : Head textForms lead digits content.length)
      (unreadable : Utf8.decode content = none) :
      Refused limit ((before ++ lead :: digits) ++ (content ++ rest))
        (.invalidText (before ++ lead :: digits).length)
  | invalidByte {before rest : List UInt8} (opened : Opened before) :
      Refused limit (before ++ 0xc1 :: rest) (.invalidByte 0xc1 before.length)
  | unsupportedExtension {bytes : List UInt8} (tag : Int8) :
      Refused limit bytes (.unsupportedExtension tag)
  | keyNotText {before named rest : List UInt8} {entries : List (String × Value)} {value : Value}
      (keyed : Keyed before entries) (denoted : Denotes named value)
      (other : ∀ text, value ≠ .str text) :
      Refused limit (before ++ (named ++ rest)) (.keyNotText before.length)
  | repeatedKey {before named rest : List UInt8} {entries : List (String × Value)} {name : String}
      (keyed : Keyed before entries) (called : Spells named name)
      (known : name ∈ entries.map (·.1)) :
      Refused limit (before ++ (named ++ rest)) (.repeatedKey before.length)
  | tooDeep {bytes : List UInt8} : Refused limit bytes (.tooDeep limit)
  | trailing {taken rest : List UInt8} {value : Value} (denoted : Denotes taken value)
      (left : rest ≠ []) : Refused limit (taken ++ rest) (.trailing rest.length)

/-! What a fault says of the length of the input. -/
section Located

def Fault.Located (bytes : List UInt8) : Fault → Prop
  | .endOfInput offset => offset ≤ bytes.length
  | .invalidText offset => offset < bytes.length
  | .invalidByte byte offset => offset < bytes.length ∧ byte = 0xc1 ∧ bytes[offset]? = some 0xc1
  | .keyNotText offset => offset < bytes.length
  | .repeatedKey offset => offset < bytes.length
  | .trailing count => 0 < count ∧ count < bytes.length
  | .unsupportedExtension _ => True
  | .tooDeep _ => True
  | .tooLarge _ => False

theorem inside_of_part {before part rest : List UInt8} (some : 0 < part.length) :
    before.length < (before ++ (part ++ rest)).length := by
  rw [List.length_append, List.length_append]
  omega

/-- No bytes at all are text, so bytes that are none are some. -/
theorem unreadable_some {content : List UInt8} (unreadable : Utf8.decode content = none) :
    0 < content.length := by
  cases content with
  | nil => contradiction
  | cons => exact Nat.zero_lt_succ _

theorem refused_located {limit : Nat} {bytes : List UInt8} {fault : Fault}
    (refused : Refused limit bytes fault) : fault.Located bytes := by
  cases refused with
  | @endOfInput before rest =>
      rw [Fault.Located, List.length_append]
      exact Nat.le_add_right _ _
  | invalidText _ _ unreadable => exact inside_of_part (unreadable_some unreadable)
  | @invalidByte before rest =>
      refine ⟨@inside_of_part before [0xc1] rest (by decide), rfl, ?_⟩
      rw [List.getElem?_append_right (Nat.le_refl _), Nat.sub_self]
      rfl
  | keyNotText _ denoted => exact inside_of_part (denotes_some denoted)
  | repeatedKey _ called => exact inside_of_part (spells_filled called)
  | trailing denoted left =>
      have front := denotes_some denoted
      have behind := List.length_pos_iff.mpr left
      rw [Fault.Located, List.length_append]
      omega
  | unsupportedExtension | tooDeep => trivial

end Located

/-! One more part behind others. -/
section Appended

theorem sequence_snoc {each : List UInt8 → Value → Prop} {bytes part : List UInt8}
    {items : List Value} {item : Value} (parts : Sequence each bytes items)
    (last : each part item) : Sequence each (bytes ++ part) (items ++ [item]) := by
  induction parts with
  | nil =>
      rw [List.nil_append, ← List.append_nil part]
      exact .cons last .nil
  | cons first others ih =>
      rw [List.append_assoc]
      exact .cons first ih

theorem members_snoc {key : List UInt8 → String → Prop} {each : List UInt8 → Value → Prop}
    {bytes named part : List UInt8} {entries : List (String × Value)} {name : String}
    {content : Value} (parts : Members key each bytes entries) (called : key named name)
    (last : each part content) :
    Members key each (bytes ++ (named ++ part)) (entries ++ [(name, content)]) := by
  induction parts with
  | nil =>
      rw [List.nil_append, ← List.append_nil part]
      exact .cons called last .nil
  | cons first second others ih =>
      rw [List.append_assoc, List.append_assoc]
      exact .cons first second ih

theorem has_reverse (name : String) (entries : List (String × Value)) :
    Entries.has name entries.reverse = true ↔ name ∈ entries.map (·.1) := by
  simp [Entries.has]

end Appended

namespace Read

variable {limit : Nat}

/-- A read behind these bytes fails only as the bytes there account for. -/
def Refuses {α : Type} (limit : Nat) (before : List UInt8) (read : Read α) : Prop :=
  ∀ rest fault, read ⟨rest, before.length⟩ = .error fault → Refused limit (before ++ rest) fault

section Composition
variable {α β : Type} {before : List UInt8}

theorem refuses_done (result : α) : Refuses limit before (pure result) :=
  fun _ _ failed => nomatch failed

theorem refuses_fault {fault : Fault} (told : ∀ rest, Refused limit (before ++ rest) fault) :
    Refuses limit before (throw fault : Read α) := by
  rintro rest fault ⟨⟩
  exact told rest

/-- What the first read took stands before the second. -/
theorem refuses_then {first : Read α} {next : α → Read β} {language : Language α}
    (accepts : Accepts first language) (head : Refuses limit before first)
    (tail : ∀ taken found, language taken found → Refuses limit (before ++ taken) (next found)) :
    Refuses limit before (first >>= next) := by
  intro rest fault failed
  simp only [bind, StateT.bind] at failed
  cases started : first ⟨rest, before.length⟩ with
  | error early =>
      rw [started] at failed
      obtain rfl := Except.error.inj failed
      exact head rest _ started
  | ok result =>
      obtain ⟨found, left, offset⟩ := result
      obtain ⟨taken, inside, whole, moved⟩ := (accepts _ found ⟨left, offset⟩).mp started
      obtain rfl : rest = taken ++ left := whole
      obtain rfl : offset = before.length + taken.length := moved
      rw [started] at failed
      have behind := tail taken found inside left fault
      rw [List.length_append, List.append_assoc] at behind
      exact behind failed

theorem refuses_from {next : Nat → Read β} (here : Refuses limit before (next before.length)) :
    Refuses limit before (offset >>= next) :=
  fun rest fault failed => here rest fault failed

theorem refuses_map {first : Read α} {language : Language α} (change : α → β)
    (accepts : Accepts first language) (head : Refuses limit before first) :
    Refuses limit before (do return change (← first)) :=
  refuses_then accepts head fun _ found _ => refuses_done (change found)

theorem refuses_bytes (size : Nat) : Refuses limit before (Read.bytes size) := by
  intro rest fault failed
  rw [Read.bytes] at failed
  cases cut : split? size [] rest with
  | some parts =>
      rw [cut] at failed
      contradiction
  | none =>
      rw [cut] at failed
      obtain rfl := Except.error.inj failed
      exact .endOfInput

theorem refuses_byte : Refuses limit before byte := by
  intro rest fault failed
  cases rest with
  | cons next others => contradiction
  | nil =>
      obtain rfl := Except.error.inj failed
      exact .endOfInput

theorem refuses_number (width : Nat) : Refuses limit before (number width) :=
  refuses_map _ (accepts_bytes width) (refuses_bytes width)

theorem refuses_content (size : Nat) : Refuses limit before (content size) :=
  refuses_map Value.bytes (accepts_bytes size) (refuses_bytes size)

theorem refuses_extension : Refuses limit before extension :=
  refuses_then accepts_byte refuses_byte fun _ tag _ =>
    refuses_fault fun _ => .unsupportedExtension tag.toInt8

end Composition

section Opened
variable {before digits : List UInt8} {lead : UInt8} {size : Nat}

theorem refuses_text (opened : Opened before) (head : Head textForms lead digits size) :
    Refuses limit (before ++ lead :: digits) (text size) := by
  refine refuses_from (refuses_then (accepts_bytes size) (refuses_bytes size) ?_)
  rintro _ content ⟨long, rfl⟩
  cases unreadable : Utf8.decode content with
  | some text => exact refuses_done (Value.str text)
  | none =>
      refine refuses_fault fun rest => ?_
      rw [List.append_assoc]
      exact .invalidText opened (long ▸ head) unreadable

variable {budget : Nat}
  (each : ∀ before, Opened before → Refuses limit before (value limit budget))
include each

theorem refuses_items (opened : Opened before) (head : Head listForms lead digits size)
    {body : List UInt8} {found : List Value} (parts : Sequence Denotes body found) (count : Nat)
    (total : found.length + count = size) (done : List Value) :
    Refuses limit (before ++ lead :: (digits ++ body)) (items (value limit budget) count done) := by
  induction count generalizing body found done with
  | zero => exact refuses_done done.reverse
  | succ count ih =>
      refine refuses_then (accepts_value limit budget)
        (each _ (.item opened head parts (by omega))) ?_
      rintro taken next ⟨denotes, -⟩
      have behind := ih (sequence_snoc parts denotes)
        (by rw [List.length_append, List.length_singleton]; omega) (next :: done)
      rwa [← List.append_assoc, ← List.cons_append, ← List.append_assoc] at behind

theorem refuses_key {entries : List (String × Value)} (keyed : Keyed before entries) :
    Refuses limit before (key (value limit budget) entries.reverse) := by
  refine refuses_from (refuses_then (accepts_value limit budget) (each _ (.key keyed)) ?_)
  rintro named found ⟨denotes, -⟩
  cases found with
  | str name =>
      cases known : Entries.has name entries.reverse with
      | true =>
          simp only [known, ↓reduceIte]
          refine refuses_fault fun rest => ?_
          rw [List.append_assoc]
          exact .repeatedKey keyed ((denotes_text_iff named name).mp denotes)
            ((has_reverse name entries).mp known)
      | false =>
          simp only [known, Bool.false_eq_true, ↓reduceIte]
          exact refuses_done name
  | _ =>
      refine refuses_fault fun rest => ?_
      rw [List.append_assoc]
      exact .keyNotText keyed denotes nofun

theorem refuses_entries (opened : Opened before) (head : Head mapForms lead digits size)
    {body : List UInt8} {found : List (String × Value)} (parts : Members Spells Denotes body found)
    (distinct : (found.map (·.1)).Nodup) (count : Nat) (total : found.length + count = size) :
    Refuses limit (before ++ lead :: (digits ++ body))
      (entries (value limit budget) count found.reverse) := by
  induction count generalizing body found with
  | zero => exact refuses_done _
  | succ count ih =>
      have keyed := Keyed.entry opened head parts distinct (by omega)
      refine refuses_then (accepts_key (accepts_value limit budget) _) (refuses_key each keyed) ?_
      rintro named name ⟨⟨denotes, -⟩, new⟩
      have called := (denotes_text_iff named name).mp denotes
      have fresh : name ∉ found.map (·.1) := by
        rw [← has_reverse, new]
        decide
      refine refuses_then (accepts_value limit budget) (each _ (.content keyed called fresh)) ?_
      rintro taken next ⟨content, -⟩
      have apart : ((found ++ [(name, next)]).map (·.1)).Nodup := by
        rw [List.map_append]
        exact List.nodup_append.mpr ⟨distinct, List.nodup_singleton name, by grind⟩
      have behind := ih (members_snoc parts called content) apart
        (by rw [List.length_append, List.length_singleton]; omega)
      rw [List.reverse_append] at behind
      simpa using behind

end Opened

section Leads
variable {budget : Nat}

-- The parts of a container under a budget, where there are any.
def RefusesInside (limit budget : Nat) : Prop :=
  match budget with
  | 0 => True
  | smaller + 1 => ∀ before, Opened before → Refuses limit before (value limit smaller)

variable {before digits : List UInt8} {lead : UInt8} {size width : Nat}
  (each : RefusesInside limit budget) (opened : Opened before)
include each opened

theorem refuses_array (head : Head listForms lead digits size) :
    Refuses limit (before ++ lead :: digits) (array limit (inner limit budget) size) := by
  cases budget with
  | zero => exact refuses_fault fun rest => .tooDeep
  | succ smaller =>
      have parts := refuses_items each opened head .nil size (Nat.zero_add size) []
      rw [List.append_nil] at parts
      exact refuses_map Value.array (accepts_items (accepts_value limit smaller) size []) parts

theorem refuses_object (head : Head mapForms lead digits size) :
    Refuses limit (before ++ lead :: digits) (map limit (inner limit budget) size) := by
  cases budget with
  | zero => exact refuses_fault fun rest => .tooDeep
  | succ smaller =>
      have parts := refuses_entries each opened head .nil List.nodup_nil size (Nat.zero_add size)
      rw [List.append_nil] at parts
      exact refuses_map Value.object (accepts_entries (accepts_value limit smaller) size []) parts

omit each opened in
/-- A length in the digits behind a leading byte, for whatever is read by it. -/
theorem refuses_sized {next : Nat → Read Value}
    (tail : ∀ digits, digits.length = width →
      Refuses limit (before ++ lead :: digits) (next (spelled digits))) :
    Refuses limit (before ++ [lead]) (do next (← number width)) := by
  refine refuses_then (accepts_number width) (refuses_number width) ?_
  rintro digits _ ⟨long, rfl⟩
  have behind := tail digits long
  rwa [List.append_cons] at behind

omit each opened in
theorem never_used (marker : Marker.ofByte lead = .neverUsed) : lead = 0xc1 := by
  have all : ∀ code < 256, Marker.ofByte (.ofNat code) = .neverUsed → UInt8.ofNat code = 0xc1 := by
    decide +kernel
  have one := all lead.toNat lead.toNat_lt
  rw [UInt8.ofNat_toNat] at one
  exact one marker

theorem refuses_marked :
    Refuses limit (before ++ [lead])
      (marked limit (inner limit budget) before.length lead) := by
  have leading := marker_leads lead
  rw [marked]
  cases marker : Marker.ofByte lead with
  | fixMap size =>
      obtain ⟨small, rfl⟩ : size < 16 ∧ lead = .ofNat (0x80 + size) := by
        simpa [marker, leads] using leading
      exact refuses_object each opened (.short small)
  | fixArray size =>
      obtain ⟨small, rfl⟩ : size < 16 ∧ lead = .ofNat (0x90 + size) := by
        simpa [marker, leads] using leading
      exact refuses_array each opened (.short small)
  | fixStr size =>
      obtain ⟨small, rfl⟩ : size < 32 ∧ lead = .ofNat (0xa0 + size) := by
        simpa [marker, leads] using leading
      exact refuses_text opened (.short small)
  | str width =>
      rw [marker] at leading
      refine refuses_sized fun digits long => refuses_text opened (.long ?_)
      exact long ▸ of_decide_eq_true leading
  | array width =>
      rw [marker] at leading
      refine refuses_sized fun digits long => refuses_array each opened (.long ?_)
      exact long ▸ of_decide_eq_true leading
  | map width =>
      rw [marker] at leading
      refine refuses_sized fun digits long => refuses_object each opened (.long ?_)
      exact long ▸ of_decide_eq_true leading
  | neverUsed =>
      obtain rfl := never_used marker
      refine refuses_fault fun rest => ?_
      rw [List.append_assoc]
      exact .invalidByte opened
  | bin width => exact refuses_sized fun digits _ => refuses_content (spelled digits)
  | ext width => exact refuses_then (accepts_number width) (refuses_number width) fun _ _ _ =>
      refuses_extension
  | float32 => exact refuses_map _ (accepts_number 4) (refuses_number 4)
  | float64 => exact refuses_map _ (accepts_number 8) (refuses_number 8)
  | unsigned width => exact refuses_map _ (accepts_number width) (refuses_number width)
  | signed width => exact refuses_map _ (accepts_number width) (refuses_number width)
  | fixExt => exact refuses_extension
  | fixInt _ | nil | bool _ | negativeFixInt _ => exact refuses_done _

theorem refuses_single : Refuses limit before (single limit (inner limit budget)) := by
  refine refuses_from (refuses_then accepts_byte refuses_byte ?_)
  rintro _ lead rfl
  exact refuses_marked each opened

end Leads

/-- The bytes and the containers before a value are all that its faults depend on. -/
theorem refuses_value (limit budget : Nat) {before : List UInt8} (opened : Opened before) :
    Refuses limit before (value limit budget) := by
  induction budget generalizing before with
  | zero => exact @refuses_single limit 0 before trivial opened
  | succ budget ih => exact @refuses_single limit (budget + 1) before (fun _ => ih) opened

end Read

theorem decode_refused {limit : Nat} {bytes : List UInt8} {fault : Fault}
    (failed : decodeWithin limit bytes = .error fault) : Refused limit bytes fault := by
  rw [decodeWithin] at failed
  cases read : Read.value limit limit ⟨bytes, 0⟩ with
  | error early =>
      rw [read] at failed
      obtain rfl := Except.error.inj failed
      exact Read.refuses_value limit limit .start bytes _ read
  | ok ended =>
      obtain ⟨value, rest, offset⟩ := ended
      obtain ⟨taken, ⟨denoted, -⟩, whole, -⟩ :=
        (Read.accepts_value limit limit _ _ ⟨rest, offset⟩).mp read
      obtain rfl : bytes = taken ++ rest := whole
      rw [read] at failed
      cases rest with
      | nil => contradiction
      | cons next others =>
          obtain rfl := Except.error.inj failed
          exact .trailing denoted (List.cons_ne_nil next others)

/-- The decoder stays within its input, whatever the headers there say: no read leaves it or goes back. A
decoded value has no more parts than there were bytes, and every fault points into these. -/
theorem decode_within_input (limit : Nat) (bytes : List UInt8) :
    (⟨bytes, 0⟩ : Cursor).Within bytes ∧
    (∀ cursor : Cursor, cursor.Within bytes → Read.Confined limit bytes cursor) ∧
    (∀ value, decodeWithin limit bytes = .ok value → value.pieces ≤ bytes.length) ∧
    ∀ fault, decodeWithin limit bytes = .error fault →
      Refused limit bytes fault ∧ fault.Located bytes := by
  refine ⟨Cursor.within_start bytes, fun cursor => Read.confined, ?pieces, ?faults⟩
  case pieces =>
    intro value decoded
    exact denotes_pieces value bytes ((decode_eq_ok_iff limit bytes value).mp decoded).1
  case faults =>
    intro fault failed
    have refused := decode_refused failed
    exact ⟨refused, refused_located refused⟩

/-- A map that repeats a key, and one that ends before it does. -/
theorem within_repeated_key :
    let repeated : List UInt8 := [0x82, 0xa1, 0x61, 0x01, 0xa1, 0x61, 0x02]
    let single : List UInt8 := [0x81, 0xa1, 0x61, 0x01]
    let value := Value.object [("a", .integer 1)]
    decodeWithin 1 repeated = .error (.repeatedKey 4) ∧ decodeWithin 1 single = .ok value ∧
      Read.Confined 1 repeated ⟨[0xa1, 0x61, 0x02], 4⟩ ∧
      Refused 1 repeated (.repeatedKey 4) ∧ 4 < repeated.length ∧ value.pieces ≤ single.length := by
  intro repeated single value
  have refused : decodeWithin 1 repeated = .error (.repeatedKey 4) := rfl
  have decoded : decodeWithin 1 single = .ok value := rfl
  obtain ⟨-, confined, -, faults⟩ := decode_within_input 1 repeated
  obtain ⟨-, -, pieces, -⟩ := decode_within_input 1 single
  obtain ⟨told, located⟩ := faults _ refused
  exact ⟨refused, decoded, confined ⟨_, 4⟩ ⟨by decide, rfl⟩, told, located, pieces value decoded⟩

/-! Four thousand million items are announced, and none of them is there. -/
example : decode [0xdd, 0xff, 0xff, 0xff, 0xff] = .error (.endOfInput 5) := rfl

end Interchange.MessagePack
