import Interchange.Proofs.MessagePack.Languages
/-!
Bytes that arrive later. A read over bytes and the same read over these bytes with others behind them
tell the same, unless the first one stops where its bytes end. So what was refused for another reason
stays refused for it, and bytes that were cut off are recognised by nothing but their end.
-/
namespace Interchange.MessagePack

/-- The same place in the same bytes, with others behind them. -/
def Cursor.extended (cursor : Cursor) (more : List UInt8) : Cursor :=
  ⟨cursor.rest ++ more, cursor.offset⟩

-- The offset behind the last byte, which no read moves.
def Cursor.finish (cursor : Cursor) : Nat := cursor.offset + cursor.rest.length

namespace Read

/-- What a read over more bytes gives, by what it gave over the bytes up to `finish`. -/
inductive Resumed {α : Type} (finish : Nat) (more : List UInt8) :
    Except Fault (α × Cursor) → Except Fault (α × Cursor) → Prop where
  | short {offset : Nat} {other : Except Fault (α × Cursor)} (within : offset ≤ finish) :
      Resumed finish more (.error (.endOfInput offset)) other
  | fault {fault : Fault} (early : ∀ count, fault ≠ .trailing count) :
      Resumed finish more (.error fault) (.error fault)
  | found {result : α} {after : Cursor} (kept : after.finish = finish) :
      Resumed finish more (.ok (result, after)) (.ok (result, after.extended more))

/-- A read that tells the same when bytes are added behind those it has. -/
def Steady {α : Type} (read : Read α) : Prop :=
  ∀ cursor more, Resumed cursor.finish more (read cursor) (read (cursor.extended more))

section Composition
variable {α β : Type}

theorem steady_done (result : α) : Steady (pure result) :=
  fun _ _ => .found rfl

theorem steady_fault (fault : Fault) (early : ∀ count, fault ≠ .trailing count) :
    Steady (throw fault : Read α) :=
  fun _ _ => .fault early

theorem steady_then {first : Read α} {next : α → Read β} (head : Steady first)
    (tail : ∀ result, Steady (next result)) : Steady (first >>= next) := by
  intro cursor more
  have started := head cursor more
  simp only [bind, StateT.bind]
  generalize first cursor = before at started
  generalize first (cursor.extended more) = behind at started
  cases started with
  | short within => exact .short within
  | fault early => exact .fault early
  | @found result after kept =>
      rw [← kept]
      exact tail result after more

theorem steady_from {next : Nat → Read β} (each : ∀ start, Steady (next start)) :
    Steady (offset >>= next) :=
  fun cursor more => each cursor.offset cursor more

theorem steady_map {first : Read α} (change : α → β) (head : Steady first) :
    Steady (do return change (← first)) :=
  steady_then head fun result => steady_done (change result)

end Composition

theorem steady_bytes (size : Nat) : Steady (bytes size) := by
  rintro ⟨rest, offset⟩ more
  simp only [bytes, Cursor.extended]
  cases cut : split? size [] rest with
  | none => exact .short (Nat.le_add_right offset _)
  | some parts =>
      obtain ⟨taken, left⟩ := parts
      obtain ⟨_, long, rfl, rfl⟩ := (split_iff _ _ _ _ _).mp cut
      have further : split? size [] (taken ++ left ++ more) = some (taken, left ++ more) :=
        (split_iff _ _ _ _ _).mpr ⟨taken, long, rfl, List.append_assoc taken left more⟩
      rw [further]
      refine .found ?_
      rw [Cursor.finish, Cursor.finish, List.length_append, long, Nat.add_assoc]

theorem steady_byte : Steady byte := by
  rintro ⟨rest, offset⟩ more
  cases rest with
  | nil => exact .short (Nat.le_refl offset)
  | cons next others =>
      refine .found ?_
      simp only [Cursor.finish, List.length_cons]
      omega

theorem steady_number (width : Nat) : Steady (number width) :=
  steady_map _ (steady_bytes width)

theorem steady_text (size : Nat) : Steady (text size) := by
  refine steady_from fun start => steady_then (steady_bytes size) fun content => ?_
  cases Utf8.decode content with
  | some text => exact steady_done (Value.str text)
  | none => exact steady_fault (.invalidText start) nofun

theorem steady_content (size : Nat) : Steady (content size) :=
  steady_map Value.bytes (steady_bytes size)

theorem steady_extension : Steady extension :=
  steady_then steady_byte fun tag => steady_fault (.unsupportedExtension tag.toInt8) nofun

theorem steady_sized {next : Nat → Read Value} (width : Nat) (each : ∀ size, Steady (next size)) :
    Steady (do next (← number width)) :=
  steady_then (steady_number width) each

section Containers
variable {item : Read Value}

theorem steady_items (each : Steady item) (count : Nat) (done : List Value) :
    Steady (items item count done) := by
  induction count generalizing done with
  | zero => exact steady_done done.reverse
  | succ count ih => exact steady_then each fun next => ih (next :: done)

theorem steady_key (each : Steady item) (done : List (String × Value)) :
    Steady (key item done) := by
  refine steady_from fun start => steady_then each fun found => ?_
  cases found with
  | str text =>
      cases known : Entries.has text done with
      | true =>
          simp only [known, ↓reduceIte]
          exact steady_fault (.repeatedKey start) nofun
      | false =>
          simp only [known, Bool.false_eq_true, ↓reduceIte]
          exact steady_done text
  | _ => exact steady_fault (.keyNotText start) nofun

theorem steady_entries (each : Steady item) (count : Nat) (done : List (String × Value)) :
    Steady (entries item count done) := by
  induction count generalizing done with
  | zero => exact steady_done done.reverse
  | succ count ih =>
      exact steady_then (steady_key each done) fun name =>
        steady_then each fun next => ih ((name, next) :: done)

end Containers

section Leads
variable (limit : Nat) {inside : Option (Read Value)}

theorem steady_array (parts : ∀ item ∈ inside, Steady item) (size : Nat) :
    Steady (array limit inside size) := by
  cases inside with
  | none => exact steady_fault (.tooDeep limit) nofun
  | some item => exact steady_map Value.array (steady_items (parts item rfl) size [])

theorem steady_object (parts : ∀ item ∈ inside, Steady item) (size : Nat) :
    Steady (map limit inside size) := by
  cases inside with
  | none => exact steady_fault (.tooDeep limit) nofun
  | some item => exact steady_map Value.object (steady_entries (parts item rfl) size [])

theorem steady_marked (parts : ∀ item ∈ inside, Steady item) (start : Nat) (lead : UInt8) :
    Steady (marked limit inside start lead) := by
  rw [marked]
  cases Marker.ofByte lead with
  | fixInt number => exact steady_done _
  | fixMap size => exact steady_object limit parts size
  | fixArray size => exact steady_array limit parts size
  | fixStr size => exact steady_text size
  | nil => exact steady_done _
  | neverUsed => exact steady_fault (.invalidByte lead start) nofun
  | bool flag => exact steady_done _
  | bin width => exact steady_sized width steady_content
  | ext width => exact steady_then (steady_number width) fun _ => steady_extension
  | float32 => exact steady_map _ (steady_number 4)
  | float64 => exact steady_map _ (steady_number 8)
  | unsigned width => exact steady_map _ (steady_number width)
  | signed width => exact steady_map _ (steady_number width)
  | fixExt => exact steady_extension
  | str width => exact steady_sized width steady_text
  | array width => exact steady_sized width (steady_array limit parts)
  | map width => exact steady_sized width (steady_object limit parts)
  | negativeFixInt number => exact steady_done _

theorem steady_single (parts : ∀ item ∈ inside, Steady item) : Steady (single limit inside) :=
  steady_from fun start => steady_then steady_byte (steady_marked limit parts start)

end Leads

theorem steady_value (limit budget : Nat) : Steady (value limit budget) := by
  induction budget with
  | zero => exact steady_single limit nofun
  | succ budget ih =>
      refine steady_single limit ?_
      rintro item ⟨⟩
      exact ih

end Read

/-- What decoding gives with bytes added behind a whole input, by what it gave without them. -/
inductive Continued (finish : Nat) (more : List UInt8) :
    Except Fault Value → Except Fault Value → Prop where
  | short {offset : Nat} {other : Except Fault Value} (within : offset ≤ finish) :
      Continued finish more (.error (.endOfInput offset)) other
  | fault {fault : Fault} (early : ∀ count, fault ≠ .trailing count) :
      Continued finish more (.error fault) (.error fault)
  | same {value : Value} (none : more = []) : Continued finish more (.ok value) (.ok value)
  | behind {value : Value} (some : more ≠ []) :
      Continued finish more (.ok value) (.error (.trailing more.length))
  | trailing (count : Nat) :
      Continued finish more (.error (.trailing count)) (.error (.trailing (count + more.length)))

theorem decode_continued (limit : Nat) (bytes more : List UInt8) :
    Continued bytes.length more (decodeWithin limit bytes) (decodeWithin limit (bytes ++ more)) := by
  have resumed := Read.steady_value limit limit ⟨bytes, 0⟩ more
  rw [Cursor.finish, Cursor.extended, Nat.zero_add] at resumed
  rw [decodeWithin, decodeWithin]
  generalize Read.value limit limit ⟨bytes, 0⟩ = before at resumed
  generalize Read.value limit limit ⟨bytes ++ more, 0⟩ = after at resumed
  cases resumed with
  | short within => exact .short within
  | fault early => exact .fault early
  | @found value ended kept =>
      obtain ⟨rest, offset⟩ := ended
      cases rest with
      | cons next others =>
          have total : (next :: others ++ more).length = (next :: others).length + more.length :=
            List.length_append
          simp only [Cursor.extended, List.isEmpty_cons, List.cons_append, Bool.false_eq_true,
            ↓reduceIte] at total ⊢
          rw [total]
          exact .trailing (next :: others).length
      | nil =>
          cases more with
          | nil => exact .same rfl
          | cons next others => exact .behind (List.cons_ne_nil next others)

/-- Bytes that decode are cut off at their end wherever they are cut, and nothing may follow them;
what is refused for any other reason than its end is refused for the same reason with bytes behind it,
and bytes left over are counted with those. -/
theorem decode_further_bytes (limit : Nat) (bytes : List UInt8) :
    (∀ value, decodeWithin limit bytes = .ok value →
      (∀ front more, bytes = front ++ more → more ≠ [] →
        ∃ offset ≤ front.length, decodeWithin limit front = .error (.endOfInput offset)) ∧
      ∀ more, more ≠ [] → decodeWithin limit (bytes ++ more) = .error (.trailing more.length)) ∧
    (∀ fault, decodeWithin limit bytes = .error fault → (∀ offset, fault ≠ .endOfInput offset) →
      (∀ count, fault ≠ .trailing count) →
      ∀ more, decodeWithin limit (bytes ++ more) = .error fault) ∧
    ∀ count, decodeWithin limit bytes = .error (.trailing count) →
      ∀ more, decodeWithin limit (bytes ++ more) = .error (.trailing (count + more.length)) := by
  refine ⟨fun value decoded => ⟨?before, ?behind⟩, ?fault, ?trailing⟩
  case before =>
    rintro front more rfl some
    have continued := decode_continued limit front more
    rw [decoded] at continued
    generalize decodeWithin limit front = start at continued
    cases continued with
    | @short offset _ within => exact ⟨offset, within, rfl⟩
    | same none => exact absurd none some
  case behind =>
    intro more some
    have continued := decode_continued limit bytes more
    rw [decoded] at continued
    generalize decodeWithin limit (bytes ++ more) = whole at continued
    cases continued with
    | same none => exact absurd none some
    | behind _ => rfl
  case fault =>
    intro fault decoded inside early more
    have continued := decode_continued limit bytes more
    rw [decoded] at continued
    generalize decodeWithin limit (bytes ++ more) = whole at continued
    cases continued with
    | @short offset _ within => exact absurd rfl (inside offset)
    | fault _ => rfl
    | trailing count => exact absurd rfl (early count)
  case trailing =>
    intro count decoded more
    have continued := decode_continued limit bytes more
    rw [decoded] at continued
    generalize decodeWithin limit (bytes ++ more) = whole at continued
    cases continued with
    | fault early => exact absurd rfl (early count)
    | trailing _ => rfl

/-- A map of one entry, cut behind its key and followed by a nil; a map that repeats its key; and
a nil with two bytes left over. -/
theorem further_bytes_map :
    let whole : List UInt8 := [0x81, 0xa1, 0x61, 0x07]
    let repeated : List UInt8 := [0x82, 0xa1, 0x61, 0x07, 0xa1, 0x61, 0x08]
    decodeWithin 1 whole = .ok (.object [("a", .integer 7)]) ∧
      (∃ offset ≤ 3, decodeWithin 1 [0x81, 0xa1, 0x61] = .error (.endOfInput offset)) ∧
      decodeWithin 1 (whole ++ [0xc0]) = .error (.trailing 1) ∧
      decodeWithin 1 repeated = .error (.repeatedKey 4) ∧
      (∀ more, decodeWithin 1 (repeated ++ more) = .error (.repeatedKey 4)) ∧
      decodeWithin 0 [0xc0, 0x00, 0x01] = .error (.trailing 2) ∧
      ∀ more, decodeWithin 0 ([0xc0, 0x00, 0x01] ++ more) = .error (.trailing (2 + more.length)) := by
  intro whole repeated
  have decoded : decodeWithin 1 whole = .ok (.object [("a", .integer 7)]) := rfl
  have refused : decodeWithin 1 repeated = .error (.repeatedKey 4) := rfl
  have left : decodeWithin 0 [0xc0, 0x00, 0x01] = .error (.trailing 2) := rfl
  obtain ⟨before, behind⟩ := (decode_further_bytes 1 whole).1 _ decoded
  exact ⟨decoded, before [0x81, 0xa1, 0x61] [0x07] rfl nofun, behind [0xc0] nofun, refused,
    (decode_further_bytes 1 repeated).2.1 _ refused nofun nofun, left,
    (decode_further_bytes 0 [0xc0, 0x00, 0x01]).2.2 2 left⟩

end Interchange.MessagePack
