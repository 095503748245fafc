import Mathlib.Data.List.Forall2
import Interchange.Proofs.NormalizedValues
import Interchange.Proofs.ScalarRoundTrip
/-!
What a reader may answer for a value that was written, told part by part and without any pass over
the value. A format is told apart from others by the form it gives to bytes and by the items
that it keeps. There is one such answer at most, so a pass that gives one gives the only one.
-/
namespace Interchange

section Related
variable {α β : Type} {relates : α → β → Prop}

theorem related_source {left : List α} {right : List β}
    (each : List.Forall₂ relates left right) (result : β) (member : result ∈ right) :
    ∃ source ∈ left, relates source result := by
  induction each with
  | nil => simp at member
  | cons related _ ih =>
      rcases List.mem_cons.mp member with rfl | later
      · exact ⟨_, List.mem_cons_self, related⟩
      · obtain ⟨source, held, found⟩ := ih later
        exact ⟨source, List.mem_cons_of_mem _ held, found⟩

theorem related_imp {other : α → β → Prop} {left : List α} {right : List β}
    (each : List.Forall₂ relates left right)
    (implies : ∀ source ∈ left, ∀ result, relates source result → other source result) :
    List.Forall₂ other left right :=
  ((List.forall₂_and_left left right).mpr ⟨implies, each⟩).imp fun _ _ both => both.1 _ both.2

theorem related_unique {items : List α} {first second : List β}
    (unique : ∀ item ∈ items, ∀ one other, relates item one → relates item other → one = other)
    (left : List.Forall₂ relates items first) (right : List.Forall₂ relates items second) :
    first = second := by
  induction left generalizing second with
  | nil => cases right; rfl
  | cons related _ ih =>
      cases right with
      | cons again others =>
          obtain ⟨here, later⟩ := List.forall_mem_cons.mp unique
          rw [here _ _ related again, ih later others]

end Related

namespace Value

theorem entries_same {first second : List (String × Value)}
    (keys : first.map (·.1) = second.map (·.1)) (values : first.map (·.2) = second.map (·.2)) :
    first = second := by
  rw [← List.zip_unzip first, ← List.zip_unzip second, List.unzip_eq_map, List.unzip_eq_map,
    keys, values]

section Retold
variable (form : List UInt8 → Value) (keeps : Value → Bool)

/-- A value told again: the items that are kept, bytes in their form, an unsigned number in the
signed word where it fits, and all else, keys and order included, as it was. -/
inductive Retold : Value → Value → Prop where
  | null : Retold .null .null
  | bool (flag : Bool) : Retold (.bool flag) (.bool flag)
  | integer (number : Int64) : Retold (.integer number) (.integer number)
  | small {natural : UInt64} {signed : Int64} (same : signed.toInt = natural.toNat) :
      Retold (.unsigned natural) (.integer signed)
  | large {natural : UInt64} (high : 2 ^ 63 ≤ natural.toNat) :
      Retold (.unsigned natural) (.unsigned natural)
  | float (number : Binary64) : Retold (.float number) (.float number)
  | str (text : String) : Retold (.str text) (.str text)
  | bytes (content : List UInt8) : Retold (.bytes content) (form content)
  | array {items told : List Value} (each : List.Forall₂ Retold (items.filter keeps) told) :
      Retold (.array items) (.array told)
  | object {entries told : List (String × Value)} (keys : told.map (·.1) = entries.map (·.1))
      (each : List.Forall₂ Retold (entries.map (·.2)) (told.map (·.2))) :
      Retold (.object entries) (.object told)

variable {form keeps}

/-- Telling goes on behind the word that readers choose for an unsigned number. -/
theorem retold_unsigned (tell : Value → Value)
    (integer : ∀ number, tell (.integer number) = .integer number)
    (unsigned : ∀ number, tell (.unsigned number) = .unsigned number) (natural : UInt64) :
    Retold form keeps (.unsigned natural) (tell (.ofUnsigned natural)) := by
  rw [ofUnsigned]
  split
  case isTrue low =>
    rw [integer]
    exact .small (signed_word natural low)
  case isFalse high =>
    rw [unsigned]
    exact .large (Nat.le_of_not_lt high)

theorem retold_unique (value : Value) :
    ∀ first second, Retold form keeps value first → Retold form keeps value second →
      first = second := by
  induction value using inside_induction with
  | step value ih =>
      intro first second left right
      cases left with
      | @small natural signed same =>
          have below := signed.toInt_lt
          cases right with
          | small again => rw [Int64.toInt_inj.mp (same.trans again.symm)]
          | large high => omega
      | large high =>
          cases right with
          | @small natural signed again =>
              have below := signed.toInt_lt
              omega
          | large => rfl
      | array each =>
          cases right with
          | array others =>
              have unique := related_unique (fun item held => ih item
                (.item (List.mem_filter.mp held).1)) each others
              rw [unique]
      | object keys each =>
          cases right with
          | object names others =>
              have unique := related_unique (fun part held => by
                obtain ⟨entry, member, rfl⟩ := List.mem_map.mp held
                exact ih entry.2 (.entry member)) each others
              rw [entries_same (keys.trans names.symm) unique]
      | _ => cases right; rfl

/-- A pass that tells scalars again, keeps some items and goes on inside containers. -/
theorem retold_pass (tell : Value → Value)
    (scalar : ∀ value, value.isContainer = false → Retold form keeps value (tell value))
    (array : ∀ items, tell (.array items) = .array ((items.filter keeps).map tell))
    (object : ∀ entries,
      tell (.object entries) = .object (entries.map fun entry => (entry.1, tell entry.2)))
    (value : Value) : Retold form keeps value (tell value) := by
  induction value using inside_induction with
  | step value ih =>
      cases value with
      | array items =>
          rw [array]
          refine .array (List.forall₂_map_right_iff.mpr (List.forall₂_same.mpr ?_))
          exact fun item kept => ih item (.item (List.mem_filter.mp kept).1)
      | object entries =>
          rw [object]
          refine .object (by simp) ?_
          rw [List.map_map, List.forall₂_map_left_iff, List.forall₂_map_right_iff,
            List.forall₂_same]
          exact fun entry member => ih entry.2 (.entry member)
      | _ => exact scalar _ rfl

section Parts
variable (plain : ∀ content, (form content).isContainer = false)
include plain

/-- Every part of what is told is a part of the value, told. -/
theorem retold_source {part told : Value} (inside : Inside part told) :
    ∀ value, Retold form keeps value told →
      ∃ source, Inside source value ∧ Retold form keeps source part := by
  induction inside with
  | @item part items member =>
      intro value retold
      generalize whole : Value.array items = told at retold
      cases retold with
      | array each =>
          obtain rfl := Value.array.inj whole
          obtain ⟨source, kept, retold⟩ := related_source each part member
          exact ⟨source, .item (List.mem_filter.mp kept).1, retold⟩
      | bytes content =>
          have flat := plain content
          rw [← whole] at flat
          contradiction
      | _ => contradiction
  | @entry key part entries member =>
      intro value retold
      generalize whole : Value.object entries = told at retold
      cases retold with
      | object keys each =>
          obtain rfl := Value.object.inj whole
          obtain ⟨source, held, retold⟩ := related_source each part (List.mem_map_of_mem member)
          obtain ⟨entry, declared, rfl⟩ := List.mem_map.mp held
          exact ⟨entry.2, .entry declared, retold⟩
      | bytes content =>
          have flat := plain content
          rw [← whole] at flat
          contradiction
      | _ => contradiction
  | deeper inner outer ihInner ihOuter =>
      intro value retold
      obtain ⟨middle, within, retold⟩ := ihOuter value retold
      obtain ⟨source, deeper, retold⟩ := ihInner middle retold
      exact ⟨source, .deeper deeper within, retold⟩

theorem retold_every {holds after : Value → Prop}
    (here : ∀ value told, Retold form keeps value told → holds value → after told)
    {value told : Value} (retold : Retold form keeps value told) (every : value.Every holds) :
    told.Every after := by
  rintro part (rfl | inside)
  · exact here value part retold (every_here every)
  · obtain ⟨source, within, retold⟩ := retold_source plain inside value retold
    exact here source part retold (every source (Or.inr within))

theorem retold_height (value : Value) :
    ∀ told, Retold form keeps value told → told.height ≤ value.height := by
  induction value using inside_induction with
  | step value ih =>
      intro told retold
      have lower : ∀ part, Inside part told → part.height < value.height := by
        intro part inside
        obtain ⟨source, within, retold⟩ := retold_source plain inside value retold
        exact Nat.lt_of_le_of_lt (ih source within part retold) (inside_lower source value within)
      cases retold with
      | @array items told each =>
          exact Nat.succ_le_succ ((height_items told _).mpr fun part member =>
            Nat.le_of_lt_succ (lower part (.item member)))
      | @object entries told keys each =>
          exact Nat.succ_le_succ ((height_entries told _).mpr fun entry member =>
            Nat.le_of_lt_succ (lower entry.2 (.entry member)))
      | bytes content =>
          have flat := plain content
          cases shape : form content <;> simp_all [height, isContainer]
      | _ => exact Nat.le_refl _

end Parts

end Retold

end Value

end Interchange
