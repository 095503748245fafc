import Interchange.MessagePack.Reader
import Interchange.Proofs.Utf8Reading
import Interchange.Proofs.MessagePack.Grammar
/-!
What a read accepts, as a language: the bytes that it may take together with what it finds in them.
Languages compose as reads do, so each read is described once, in both directions at a time.
-/
namespace Interchange.MessagePack.Read

abbrev Language (α : Type) := List UInt8 → α → Prop

/-- A read succeeds exactly by taking bytes of its language, and moves past them. -/
def Accepts {α : Type} (read : Read α) (language : Language α) : Prop :=
  ∀ cursor found after, read cursor = .ok (found, after) ↔
    ∃ taken, language taken found ∧ cursor.rest = taken ++ after.rest ∧
      after.offset = cursor.offset + taken.length

section Composition
variable {α β : Type}

theorem accepts_same {read : Read α} {language other : Language α}
    (same : ∀ taken found, language taken found ↔ other taken found)
    (accepts : Accepts read language) : Accepts read other := by
  intro cursor found after
  simp only [accepts cursor found after, same]

theorem accepts_done (result : α) :
    Accepts (pure result) fun taken found => taken = [] ∧ found = result := by
  rintro ⟨rest, offset⟩ found ⟨left, moved⟩
  constructor
  · rintro ⟨⟩
    exact ⟨[], ⟨rfl, rfl⟩, rfl, rfl⟩
  · rintro ⟨taken, ⟨rfl, rfl⟩, whole, past⟩
    obtain rfl : rest = left := whole
    obtain rfl : moved = offset := past
    rfl

theorem accepts_fault (fault : Fault) :
    Accepts (throw fault : Read α) fun _ _ => False := by
  intro cursor found after
  constructor
  · rintro ⟨⟩
  · rintro ⟨taken, impossible, -⟩
    exact impossible.elim

theorem accepts_then {first : Read α} {next : α → Read β} {head : Language α}
    (before : Accepts first head) (tail : α → Language β)
    (after : ∀ found, Accepts (next found) (tail found)) :
    Accepts (first >>= next) fun taken result => ∃ found leading behind,
      head leading found ∧ tail found behind result ∧ taken = leading ++ behind := by
  intro cursor result ended
  constructor
  · intro ran
    simp only [bind, StateT.bind] at ran
    cases started : first cursor with
    | error fault =>
        rw [started] at ran
        contradiction
    | ok middle =>
        rw [started] at ran
        obtain ⟨found, between⟩ := middle
        obtain ⟨leading, inHead, whole, moved⟩ := (before cursor found between).mp started
        obtain ⟨behind, inTail, rest, further⟩ := (after found between result ended).mp ran
        refine ⟨leading ++ behind, ⟨found, leading, behind, inHead, inTail, rfl⟩, ?_, ?_⟩
        · rw [whole, rest, List.append_assoc]
        · rw [further, moved, List.length_append, Nat.add_assoc]
  · rintro ⟨taken, ⟨found, leading, behind, inHead, inTail, rfl⟩, whole, moved⟩
    have started := (before cursor found ⟨behind ++ ended.rest, cursor.offset + leading.length⟩).mpr
      ⟨leading, inHead, by rw [whole, List.append_assoc], rfl⟩
    have followed := (after found ⟨behind ++ ended.rest, cursor.offset + leading.length⟩
      result ended).mpr
        ⟨behind, inTail, rfl, by rw [moved, List.length_append, Nat.add_assoc]⟩
    simp only [bind, StateT.bind, started]
    exact followed

theorem accepts_from {next : Nat → Read β} {language : Language β}
    (each : ∀ start, Accepts (next start) language) : Accepts (offset >>= next) language :=
  fun cursor => each cursor.offset cursor

theorem accepts_map {first : Read α} {head : Language α} (change : α → β)
    (accepts : Accepts first head) :
    Accepts (do return change (← first)) fun taken result =>
      ∃ found, head taken found ∧ result = change found := by
  refine accepts_same ?_ (accepts_then accepts _ fun found => accepts_done (change found))
  intro taken result
  constructor
  · rintro ⟨found, leading, behind, inHead, ⟨rfl, rfl⟩, rfl⟩
    exact ⟨found, by rwa [List.append_nil], rfl⟩
  · rintro ⟨found, inHead, rfl⟩
    exact ⟨found, taken, [], inHead, ⟨rfl, rfl⟩, (List.append_nil taken).symm⟩

end Composition

theorem split_iff (size : Nat) (before rest taken left : List UInt8) :
    split? size before rest = some (taken, left) ↔
      ∃ content, content.length = size ∧ taken = before.reverse ++ content ∧
        rest = content ++ left := by
  fun_induction split? size before rest with
  | case1 before rest =>
      simp only [Option.some.injEq, Prod.mk.injEq, List.length_eq_zero_iff, exists_eq_left,
        List.append_nil, List.nil_append, eq_comm]
  | case2 size before =>
      constructor
      · rintro ⟨⟩
      · rintro ⟨content, long, -, whole⟩
        rw [(List.append_eq_nil_iff.mp whole.symm).1] at long
        contradiction
  | case3 before size byte rest ih =>
      rw [ih]
      constructor
      · rintro ⟨content, rfl, rfl, rfl⟩
        exact ⟨byte :: content, rfl, by simp, rfl⟩
      · rintro ⟨content, long, rfl, whole⟩
        cases content with
        | nil => simp at long
        | cons first others =>
            obtain ⟨rfl, rfl⟩ := List.cons.inj whole
            exact ⟨others, by simpa using long, by simp, rfl⟩

theorem accepts_bytes (size : Nat) :
    Accepts (bytes size) fun taken found => taken.length = size ∧ found = taken := by
  rintro ⟨rest, offset⟩ found ⟨left, moved⟩
  rw [bytes]
  constructor
  · intro ran
    cases cut : split? size [] rest with
    | none =>
        rw [cut] at ran
        contradiction
    | some parts =>
        rw [cut] at ran
        obtain ⟨content, behind⟩ := parts
        obtain ⟨_, long, rfl, whole⟩ := (split_iff _ _ _ _ _).mp cut
        cases ran
        exact ⟨_, ⟨long, rfl⟩, whole, by rw [long]⟩
  · rintro ⟨taken, ⟨long, rfl⟩, whole, past⟩
    have cut := (split_iff size [] rest found left).mpr ⟨found, long, rfl, whole⟩
    obtain rfl : moved = offset + found.length := past
    simp only [cut, long]

theorem accepts_byte : Accepts byte fun taken found => taken = [found] := by
  rintro ⟨rest, offset⟩ found ⟨left, moved⟩
  rw [byte]
  constructor
  · intro ran
    cases rest with
    | nil => contradiction
    | cons next others =>
        cases ran
        exact ⟨[found], rfl, rfl, rfl⟩
  · rintro ⟨taken, rfl, whole, past⟩
    obtain rfl : rest = found :: left := whole
    obtain rfl : moved = offset + 1 := past
    rfl

theorem fold_spelled (digits : List UInt8) (total : Nat) :
    digits.foldl (fun total digit => total * 256 + digit.toNat) total =
      total * 256 ^ digits.length + spelled digits := by
  induction digits generalizing total with
  | nil => simp [spelled]
  | cons digit rest ih =>
      rw [List.foldl_cons, ih, spelled, List.length_cons, Nat.pow_succ', Nat.add_mul,
        Nat.mul_assoc, Nat.add_assoc]

theorem accepts_number (width : Nat) :
    Accepts (number width) fun taken found => taken.length = width ∧ found = spelled taken := by
  refine accepts_same ?_ (accepts_map _ (accepts_bytes width))
  intro taken found
  constructor
  · rintro ⟨digits, ⟨long, rfl⟩, rfl⟩
    exact ⟨long, by rw [fold_spelled, Nat.zero_mul, Nat.zero_add]⟩
  · rintro ⟨long, rfl⟩
    exact ⟨taken, ⟨long, rfl⟩, by rw [fold_spelled, Nat.zero_mul, Nat.zero_add]⟩

theorem accepts_text (size : Nat) :
    Accepts (text size) fun taken found =>
      ∃ text, taken = Utf8.encode text ∧ taken.length = size ∧ found = Value.str text := by
  apply accepts_from
  intro start
  refine accepts_same ?_ (accepts_then (accepts_bytes size) (fun content taken found =>
    taken = [] ∧ ∃ text, content = Utf8.encode text ∧ found = Value.str text) fun content => ?_)
  · intro taken found
    constructor
    · rintro ⟨content, leading, behind, ⟨long, rfl⟩, ⟨rfl, text, rfl, rfl⟩, rfl⟩
      exact ⟨text, by rw [List.append_nil], by rwa [List.append_nil], rfl⟩
    · rintro ⟨text, rfl, long, rfl⟩
      exact ⟨_, _, [], ⟨long, rfl⟩, ⟨rfl, text, rfl, rfl⟩, (List.append_nil _).symm⟩
  · cases read : Utf8.decode content with
    | some text =>
        have spelled := (Utf8.decode_eq_some_iff content text).mp read
        refine accepts_same ?_ (accepts_done (Value.str text))
        intro taken found
        constructor
        · rintro ⟨rfl, rfl⟩
          exact ⟨rfl, text, spelled, rfl⟩
        · rintro ⟨rfl, other, same, rfl⟩
          rw [spelled, ← Utf8.decode_eq_some_iff, Utf8.decode_encode] at same
          exact ⟨rfl, by rw [Option.some.inj same]⟩
    | none =>
        refine accepts_same ?_ (accepts_fault (.invalidText start))
        intro taken found
        constructor
        · exact False.elim
        · rintro ⟨-, text, same, -⟩
          rw [(Utf8.decode_eq_some_iff content text).mpr same] at read
          contradiction

end Interchange.MessagePack.Read
