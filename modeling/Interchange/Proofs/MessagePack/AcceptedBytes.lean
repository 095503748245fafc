import Interchange.Proofs.MessagePack.LeadingBytes
import Interchange.Proofs.MessagePack.RoundTrip
/-!
The decoder accepts exactly its grammar. Behind each leading byte a read takes the bytes of one
language; with the budget of nesting in the statement, a value is read from bytes exactly if they denote it
and it does not nest beyond the budget.
-/
namespace Interchange.MessagePack

namespace Read

section Parts
variable {item : Read Value} {each : Language Value}

theorem accepts_items (accepts : Accepts item each) (count : Nat) (done : List Value) :
    Accepts (items item count done) fun taken found => ∃ parts, Sequence each taken parts ∧
      parts.length = count ∧ found = done.reverse ++ parts := by
  induction count generalizing done with
  | zero =>
      refine accepts_same ?_ (accepts_done done.reverse)
      intro taken found
      constructor
      · rintro ⟨rfl, rfl⟩
        exact ⟨[], .nil, rfl, (List.append_nil _).symm⟩
      · rintro ⟨parts, sequence, none, rfl⟩
        cases sequence with
        | nil => exact ⟨rfl, List.append_nil _⟩
        | cons => contradiction
  | succ count ih =>
      refine accepts_same ?_ (accepts_then accepts _ fun next => ih (next :: done))
      intro taken found
      constructor
      · rintro ⟨next, leading, behind, first, ⟨parts, others, rfl, rfl⟩, rfl⟩
        exact ⟨next :: parts, .cons first others, rfl, by simp⟩
      · rintro ⟨parts, sequence, long, rfl⟩
        cases sequence with
        | nil => contradiction
        | cons first others =>
            exact ⟨_, _, _, first, ⟨_, others, Nat.succ.inj long, by simp⟩, rfl⟩

theorem accepts_key (accepts : Accepts item each) (done : List (String × Value)) :
    Accepts (key item done) fun taken name =>
      each taken (.str name) ∧ Entries.has name done = false := by
  apply accepts_from
  intro start
  refine accepts_same ?_ (accepts_then accepts (fun found taken name =>
    taken = [] ∧ found = .str name ∧ Entries.has name done = false) fun found => ?_)
  · intro taken name
    constructor
    · rintro ⟨found, leading, behind, first, ⟨rfl, rfl, fresh⟩, rfl⟩
      exact ⟨by rwa [List.append_nil], fresh⟩
    · rintro ⟨first, fresh⟩
      exact ⟨_, taken, [], first, ⟨rfl, rfl, fresh⟩, (List.append_nil taken).symm⟩
  · cases found with
    | str text =>
        cases known : Entries.has text done with
        | true =>
            simp only [known, ↓reduceIte]
            refine accepts_same ?_ (accepts_fault (.repeatedKey start))
            intro taken name
            constructor
            · exact False.elim
            · rintro ⟨-, same, fresh⟩
              rw [← Value.str.inj same, known] at fresh
              contradiction
        | false =>
            simp only [known, Bool.false_eq_true, ↓reduceIte]
            refine accepts_same ?_ (accepts_done text)
            intro taken name
            constructor
            · rintro ⟨rfl, rfl⟩
              exact ⟨rfl, rfl, known⟩
            · rintro ⟨rfl, same, -⟩
              exact ⟨rfl, (Value.str.inj same).symm⟩
    | _ =>
        refine accepts_same ?_ (accepts_fault (.keyNotText start))
        intro taken name
        simp

theorem has_cons (name known : String) (content : Value) (done : List (String × Value)) :
    Entries.has name ((known, content) :: done) = false ↔
      known ≠ name ∧ Entries.has name done = false := by
  simp [Entries.has]

/-- A first key that is new, and others that are new behind it, are distinct and new together. -/
theorem fresh_cons (name : String) (content : Value) (parts done : List (String × Value)) :
    Entries.has name done = false ∧ (parts.map (·.1)).Nodup ∧
        (∀ part ∈ parts, Entries.has part.1 ((name, content) :: done) = false) ↔
      (((name, content) :: parts).map (·.1)).Nodup ∧
        ∀ part ∈ (name, content) :: parts, Entries.has part.1 done = false := by
  simp only [has_cons, List.map_cons, List.nodup_cons, List.mem_map, List.forall_mem_cons]
  grind

theorem accepts_entries (accepts : Accepts item each) (count : Nat)
    (done : List (String × Value)) :
    Accepts (entries item count done) fun taken found => ∃ parts,
      Members (fun bytes name => each bytes (.str name)) each taken parts ∧
        parts.length = count ∧ ((parts.map (·.1)).Nodup ∧
          ∀ part ∈ parts, Entries.has part.1 done = false) ∧ found = done.reverse ++ parts := by
  induction count generalizing done with
  | zero =>
      refine accepts_same ?_ (accepts_done done.reverse)
      intro taken found
      constructor
      · rintro ⟨rfl, rfl⟩
        exact ⟨[], .nil, rfl, ⟨List.nodup_nil, by simp⟩, (List.append_nil _).symm⟩
      · rintro ⟨parts, members, none, -, rfl⟩
        cases members with
        | nil => exact ⟨rfl, List.append_nil _⟩
        | cons => contradiction
  | succ count ih =>
      refine accepts_same ?_ (accepts_then (accepts_key accepts done) _ fun name =>
        accepts_then accepts _ fun next => ih ((name, next) :: done))
      intro taken found
      constructor
      · rintro ⟨name, leading, behind, ⟨called, fresh⟩,
          ⟨next, middle, last, first, ⟨parts, others, rfl, apart, rfl⟩, rfl⟩, rfl⟩
        exact ⟨(name, next) :: parts, .cons called first others, rfl,
          (fresh_cons name next parts done).mp ⟨fresh, apart⟩, by simp⟩
      · rintro ⟨parts, members, long, apart, rfl⟩
        cases members with
        | nil => contradiction
        | cons called first others =>
            obtain ⟨fresh, behind⟩ := (fresh_cons _ _ _ done).mpr apart
            exact ⟨_, _, _, ⟨called, fresh⟩,
              ⟨_, _, _, first, ⟨_, others, Nat.succ.inj long, behind, by simp⟩, rfl⟩, rfl⟩

end Parts

/-! One value, by its leading byte. -/
section Leads
variable {inside : Option (Read Value)} {parts : Option (Language Value)}

theorem accepts_sized {next : Nat → Read Value} {language : Nat → Language Value} (width : Nat)
    (each : ∀ size, Accepts (next size) (language size)) :
    Accepts (do next (← number width)) (Counted width language) := by
  refine accepts_same ?_ (accepts_then (accepts_number width) _ each)
  intro taken value
  constructor
  · rintro ⟨size, digits, content, ⟨long, rfl⟩, inside, rfl⟩
    exact ⟨digits, content, long, inside, rfl⟩
  · rintro ⟨digits, content, long, inside, rfl⟩
    exact ⟨_, digits, content, ⟨long, rfl⟩, inside, rfl⟩

theorem accepts_result (width : Nat) (result : Nat → Value) :
    Accepts (do return result (← number width)) (Number width result) := by
  refine accepts_same ?_ (accepts_map result (accepts_number width))
  intro taken value
  constructor
  · rintro ⟨found, ⟨long, rfl⟩, rfl⟩
    exact ⟨long, rfl⟩
  · rintro ⟨long, rfl⟩
    exact ⟨_, ⟨long, rfl⟩, rfl⟩

theorem accepts_content (size : Nat) : Accepts (content size) (ContentOf size) := by
  refine accepts_same ?_ (accepts_map Value.bytes (accepts_bytes size))
  intro taken value
  constructor
  · rintro ⟨found, ⟨long, rfl⟩, rfl⟩
    exact ⟨long, rfl⟩
  · rintro ⟨long, rfl⟩
    exact ⟨taken, ⟨long, rfl⟩, rfl⟩

theorem accepts_array (limit size : Nat) (agree : Option.Rel Accepts inside parts) :
    Accepts (array limit inside size) (ListOf parts size) := by
  cases agree with
  | none =>
      refine accepts_same ?_ (accepts_fault (.tooDeep limit))
      simp [ListOf]
  | some accepts =>
      refine accepts_same ?_ (accepts_map Value.array (accepts_items accepts size []))
      intro taken value
      constructor
      · rintro ⟨items, ⟨_, sequence, long, rfl⟩, rfl⟩
        exact ⟨_, rfl, _, sequence, long, rfl⟩
      · rintro ⟨each, ⟨⟩, items, sequence, long, rfl⟩
        exact ⟨items, ⟨items, sequence, long, rfl⟩, rfl⟩

theorem accepts_map_entries (limit size : Nat) (agree : Option.Rel Accepts inside parts) :
    Accepts (map limit inside size) (MapOf parts size) := by
  cases agree with
  | none =>
      refine accepts_same ?_ (accepts_fault (.tooDeep limit))
      simp [MapOf]
  | some accepts =>
      refine accepts_same ?_ (accepts_map Value.object (accepts_entries accepts size []))
      intro taken value
      constructor
      · rintro ⟨entries, ⟨_, members, long, ⟨distinct, -⟩, rfl⟩, rfl⟩
        exact ⟨_, rfl, _, members, long, distinct, rfl⟩
      · rintro ⟨each, ⟨⟩, entries, members, long, distinct, rfl⟩
        exact ⟨entries, ⟨entries, members, long, ⟨distinct, fun _ _ => rfl⟩, rfl⟩, rfl⟩

theorem accepts_extension : Accepts extension fun _ _ => False := by
  refine accepts_same ?_ (accepts_then accepts_byte _ fun tag =>
    accepts_fault (.unsupportedExtension tag.toInt8))
  simp

theorem accepts_marked (limit start : Nat) (lead : UInt8)
    (agree : Option.Rel Accepts inside parts) :
    Accepts (marked limit inside start lead) (Behind parts (Marker.ofByte lead)) := by
  rw [marked]
  cases Marker.ofByte lead with
  | fixInt number => exact accepts_done _
  | fixMap size => exact accepts_map_entries limit size agree
  | fixArray size => exact accepts_array limit size agree
  | fixStr size => exact accepts_text size
  | nil => exact accepts_done _
  | neverUsed => exact accepts_fault _
  | bool flag => exact accepts_done _
  | bin width => exact accepts_sized width accepts_content
  | ext width =>
      refine accepts_same ?_ (accepts_then (accepts_number width) _ fun _ => accepts_extension)
      simp [Behind]
  | float32 => exact accepts_result 4 _
  | float64 => exact accepts_result 8 _
  | unsigned width => exact accepts_result width _
  | signed width => exact accepts_result width _
  | fixExt => exact accepts_extension
  | str width => exact accepts_sized width accepts_text
  | array width => exact accepts_sized width fun size => accepts_array limit size agree
  | map width => exact accepts_sized width fun size => accepts_map_entries limit size agree
  | negativeFixInt number => exact accepts_done _

theorem accepts_single (limit : Nat) (agree : Option.Rel Accepts inside parts) :
    Accepts (single limit inside) fun taken value => ∃ lead behind,
      taken = lead :: behind ∧ Behind parts (Marker.ofByte lead) behind value := by
  apply accepts_from
  intro start
  refine accepts_same ?_ (accepts_then accepts_byte _ fun lead =>
    accepts_marked limit start lead agree)
  intro taken value
  constructor
  · rintro ⟨lead, leading, behind, rfl, inside, rfl⟩
    exact ⟨lead, behind, rfl, inside⟩
  · rintro ⟨lead, behind, rfl, inside⟩
    exact ⟨lead, [lead], behind, rfl, inside, rfl⟩

end Leads

/-! The budget of nesting. A container spends one level on its parts. -/
section Budget

-- What the parts of a container may be under a budget.
def within : Nat → Option (Language Value)
  | 0 => none
  | smaller + 1 => some fun bytes part => Denotes bytes part ∧ part.height ≤ smaller

theorem sequence_within (bytes : List UInt8) (parts : List Value) (budget : Nat) :
    Sequence (fun bytes part => Denotes bytes part ∧ part.height ≤ budget) bytes parts ↔
      Sequence Denotes bytes parts ∧ Value.heightItems parts ≤ budget := by
  constructor
  · intro sequence
    induction sequence with
    | nil => exact ⟨.nil, Nat.zero_le budget⟩
    | cons first others ih =>
        exact ⟨.cons first.1 ih.1, Nat.max_le.mpr ⟨first.2, ih.2⟩⟩
  · rintro ⟨sequence, shallow⟩
    induction sequence with
    | nil => exact .nil
    | cons first others ih =>
        obtain ⟨here, behind⟩ := Nat.max_le.mp shallow
        exact .cons ⟨first, here⟩ (ih behind)

theorem members_within (bytes : List UInt8) (parts : List (String × Value)) (budget : Nat) :
    Members (fun bytes name => Denotes bytes (.str name) ∧ (Value.str name).height ≤ budget)
        (fun bytes part => Denotes bytes part ∧ part.height ≤ budget) bytes parts ↔
      Members (fun bytes name => Denotes bytes (.str name)) Denotes bytes parts ∧
        Value.heightEntries parts ≤ budget := by
  constructor
  · intro members
    induction members with
    | nil => exact ⟨.nil, Nat.zero_le budget⟩
    | cons called first others ih =>
        exact ⟨.cons called.1 first.1 ih.1, Nat.max_le.mpr ⟨first.2, ih.2⟩⟩
  · rintro ⟨members, shallow⟩
    induction members with
    | nil => exact .nil
    | cons called first others ih =>
        obtain ⟨here, behind⟩ := Nat.max_le.mp shallow
        exact .cons ⟨called, Nat.zero_le budget⟩ ⟨first, here⟩ (ih behind)

theorem list_within (size budget : Nat) (taken : List UInt8) (value : Value) :
    ListOf (within budget) size taken value ↔
      ListOf (some Denotes) size taken value ∧ value.height ≤ budget := by
  constructor
  · rintro ⟨each, inside, items, sequence, long, rfl⟩
    cases budget with
    | zero => contradiction
    | succ smaller =>
        cases inside
        obtain ⟨denoted, shallow⟩ := (sequence_within _ _ _).mp sequence
        exact ⟨⟨_, rfl, items, denoted, long, rfl⟩, Nat.succ_le_succ shallow⟩
  · rintro ⟨⟨each, ⟨⟩, items, sequence, long, rfl⟩, shallow⟩
    cases budget with
    | zero => simp [Value.height] at shallow
    | succ smaller =>
        exact ⟨_, rfl, items,
          (sequence_within _ _ _).mpr ⟨sequence, Nat.le_of_succ_le_succ shallow⟩, long, rfl⟩

theorem map_within (size budget : Nat) (taken : List UInt8) (value : Value) :
    MapOf (within budget) size taken value ↔
      MapOf (some Denotes) size taken value ∧ value.height ≤ budget := by
  constructor
  · rintro ⟨each, inside, entries, members, long, distinct, rfl⟩
    cases budget with
    | zero => contradiction
    | succ smaller =>
        cases inside
        obtain ⟨denoted, shallow⟩ := (members_within _ _ _).mp members
        exact ⟨⟨_, rfl, entries, denoted, long, distinct, rfl⟩, Nat.succ_le_succ shallow⟩
  · rintro ⟨⟨each, ⟨⟩, entries, members, long, distinct, rfl⟩, shallow⟩
    cases budget with
    | zero => simp [Value.height] at shallow
    | succ smaller =>
        exact ⟨_, rfl, entries,
          (members_within _ _ _).mpr ⟨members, Nat.le_of_succ_le_succ shallow⟩, long, distinct, rfl⟩

theorem sized_within {width budget : Nat} {next other : Nat → Language Value}
    (each : ∀ size taken value, next size taken value ↔
      other size taken value ∧ Value.height value ≤ budget) (taken : List UInt8) (value : Value) :
    Counted width next taken value ↔ Counted width other taken value ∧ value.height ≤ budget := by
  simp only [Counted, each]
  grind

/-- What holds scalars only is the same under every budget. -/
theorem scalar_within {language : Language Value} (budget : Nat)
    (scalar : ∀ taken value, language taken value → value.height = 0) (taken : List UInt8)
    (value : Value) : language taken value ↔ language taken value ∧ value.height ≤ budget := by
  constructor
  · intro inside
    have flat := scalar taken value inside
    exact ⟨inside, flat ▸ Nat.zero_le budget⟩
  · exact And.left

theorem lone_within {result : Value} (budget : Nat) (flat : result.height = 0)
    (taken : List UInt8) (value : Value) :
    Lone result taken value ↔ Lone result taken value ∧ value.height ≤ budget := by
  refine scalar_within budget ?_ taken value
  rintro taken value ⟨rfl, rfl⟩
  exact flat

theorem number_within {width : Nat} {result : Nat → Value} (budget : Nat)
    (flat : ∀ found, (result found).height = 0) (taken : List UInt8) (value : Value) :
    Number width result taken value ↔ Number width result taken value ∧ value.height ≤ budget := by
  refine scalar_within budget ?_ taken value
  rintro taken value ⟨long, rfl⟩
  exact flat _

theorem unsigned_flat (number : UInt64) : (Value.ofUnsigned number).height = 0 := by
  rw [Value.ofUnsigned]
  split <;> rfl

theorem text_within (size budget : Nat) (taken : List UInt8) (value : Value) :
    TextOf size taken value ↔ TextOf size taken value ∧ value.height ≤ budget := by
  refine scalar_within budget ?_ taken value
  rintro taken value ⟨text, rfl, long, rfl⟩
  rfl

theorem content_within (size budget : Nat) (taken : List UInt8) (value : Value) :
    ContentOf size taken value ↔ ContentOf size taken value ∧ value.height ≤ budget := by
  refine scalar_within budget ?_ taken value
  rintro taken value ⟨long, rfl⟩
  rfl

theorem behind_within (marker : Marker) (budget : Nat) (taken : List UInt8) (value : Value) :
    Behind (within budget) marker taken value ↔
      Behind (some Denotes) marker taken value ∧ value.height ≤ budget := by
  cases marker with
  | fixInt number => exact lone_within budget rfl taken value
  | fixMap size => exact map_within size budget taken value
  | fixArray size => exact list_within size budget taken value
  | fixStr size => exact text_within size budget taken value
  | nil => exact lone_within budget rfl taken value
  | bool flag => exact lone_within budget rfl taken value
  | bin width => exact sized_within (content_within · budget) taken value
  | float32 =>
      simp only [Behind]
      exact number_within budget (fun _ => rfl) taken value
  | float64 =>
      simp only [Behind]
      exact number_within budget (fun _ => rfl) taken value
  | unsigned width => exact number_within budget (fun _ => unsigned_flat _) taken value
  | signed width =>
      simp only [Behind]
      exact number_within budget (fun _ => rfl) taken value
  | str width => exact sized_within (text_within · budget) taken value
  | array width => exact sized_within (list_within · budget) taken value
  | map width => exact sized_within (map_within · budget) taken value
  | negativeFixInt number => exact lone_within budget rfl taken value
  | neverUsed | ext _ | fixExt => exact (false_and _).symm.to_iff

theorem denotes_iff_behind (bytes : List UInt8) (value : Value) :
    Denotes bytes value ↔ ∃ lead behind, bytes = lead :: behind ∧
      Behind (some Denotes) (Marker.ofByte lead) behind value := by
  constructor
  · intro denotes
    obtain ⟨lead, behind, rfl⟩ := denotes_filled denotes
    exact ⟨lead, behind, rfl, behind_of_denotes denotes⟩
  · rintro ⟨lead, behind, rfl, inside⟩
    exact denotes_of_behind inside

/-- Under a budget a value is read from the bytes that denote it, if it nests no deeper. -/
theorem accepts_value (limit budget : Nat) :
    Accepts (value limit budget) fun taken found => Denotes taken found ∧ found.height ≤ budget := by
  have agree : Option.Rel Accepts (inner limit budget) (within budget) := by
    cases budget with
    | zero => exact .none
    | succ smaller => exact .some (accepts_value limit smaller)
  rw [value_single]
  refine accepts_same ?_ (accepts_single limit agree)
  intro taken found
  simp only [behind_within, denotes_iff_behind]
  grind

end Budget

end Read

theorem decode_eq_ok_iff (limit : Nat) (bytes : List UInt8) (value : Value) :
    decodeWithin limit bytes = .ok value ↔ Denotes bytes value ∧ value.height ≤ limit := by
  have accepts := Read.accepts_value limit limit ⟨bytes, 0⟩
  rw [decodeWithin]
  constructor
  · intro decoded
    cases read : Read.value limit limit ⟨bytes, 0⟩ with
    | error fault =>
        rw [read] at decoded
        contradiction
    | ok ended =>
        obtain ⟨found, rest, offset⟩ := ended
        obtain ⟨taken, denoted, whole, -⟩ := (accepts found ⟨rest, offset⟩).mp read
        obtain rfl : bytes = taken ++ rest := whole
        simp only [read] at decoded
        cases rest with
        | nil =>
            cases decoded
            rwa [List.append_nil]
        | cons byte others => contradiction
  · intro denoted
    have read := (accepts value ⟨[], 0 + bytes.length⟩).mpr
      ⟨bytes, denoted, (List.append_nil bytes).symm, rfl⟩
    rw [read]
    rfl

/-- The decoder accepts exactly the bytes of the grammar, up to its limit of nesting and with
nothing behind them; a higher limit keeps every result. -/
theorem decode_accepts_grammar (limit : Nat) (bytes : List UInt8) (value : Value) :
    (decodeWithin limit bytes = .ok value ↔ Denotes bytes value ∧ value.height ≤ limit) ∧
    ∀ higher, limit ≤ higher → decodeWithin limit bytes = .ok value →
      decodeWithin higher bytes = .ok value := by
  refine ⟨decode_eq_ok_iff limit bytes value, ?_⟩
  intro higher raised decoded
  obtain ⟨denoted, shallow⟩ := (decode_eq_ok_iff limit bytes value).mp decoded
  exact (decode_eq_ok_iff higher bytes value).mpr ⟨denoted, Nat.le_trans shallow raised⟩

/-- A map whose key and number both take more bytes than they need, within one level and two. -/
theorem longer_forms_accepted :
    let bytes : List UInt8 := [0x81, 0xd9, 0x01, 0x61, 0xcd, 0x00, 0x07]
    let value := Value.object [("a", .integer 7)]
    decodeWithin 1 bytes = .ok value ∧
      (decodeWithin 1 bytes = .ok value ↔ Denotes bytes value ∧ value.height ≤ 1) ∧
      decodeWithin 2 bytes = .ok value := by
  intro bytes value
  have decoded : decodeWithin 1 bytes = .ok value := rfl
  obtain ⟨accepted, kept⟩ := decode_accepts_grammar 1 bytes value
  exact ⟨decoded, accepted, kept 2 (by decide) decoded⟩

end Interchange.MessagePack
