import Mathlib.Data.List.Perm.Basic
import Interchange.Proofs.RetoldValues
import Interchange.Validation.Check
/-!
Values up to the order of keys. Two values are reorderings of each other if they differ in nothing but
the order in which the entries of their maps arrived, at any depth. Looking up a key, telling
kinds apart and reading scalars do not see the difference.
-/
namespace Interchange

section Keyed
variable {α β : Type}

/-- Entries under the same key. -/
inductive SameKey (relates : α → β → Prop) : String × α → String × β → Prop where
  | mk {key : String} {item : α} {other : β} (related : relates item other) :
      SameKey relates (key, item) (key, other)

/-- Collections with the same keys in any order, and related items under each. -/
inductive AnyOrder (relates : α → β → Prop) : List (String × α) → List (String × β) → Prop where
  | mk {left middle : List (String × α)} {right : List (String × β)} (moved : left.Perm middle)
      (each : List.Forall₂ (SameKey relates) middle right) : AnyOrder relates left right

variable {relates : α → β → Prop}

theorem same_key_lookup {left : List (String × α)} {right : List (String × β)}
    (each : List.Forall₂ (SameKey relates) left right) (key : String) :
    Option.Rel relates (left.lookup key) (right.lookup key) := by
  induction each with
  | nil => exact .none
  | cons first _ ih =>
      cases first with
      | @mk name item other related =>
          by_cases same : key = name
          · simpa [same] using Option.Rel.some related
          · simpa [List.lookup_cons, beq_eq_false_iff_ne.mpr same] using ih

/-- Under distinct keys the order of entries does not show in look-ups. -/
theorem perm_lookup {left right : List (String × α)} (distinct : (left.map (·.1)).Nodup)
    (moved : left.Perm right) (key : String) : left.lookup key = right.lookup key := by
  have also : (right.map (·.1)).Nodup := (moved.map (·.1)).nodup_iff.mp distinct
  apply Option.ext
  intro item
  constructor
  · intro found
    exact Value.lookup_of_mem key item right also
      (moved.mem_iff.mp (Value.mem_of_lookup key item left found))
  · intro found
    exact Value.lookup_of_mem key item left distinct
      (moved.mem_iff.mpr (Value.mem_of_lookup key item right found))

theorem any_order_lookup {left : List (String × α)} {right : List (String × β)}
    (distinct : (left.map (·.1)).Nodup) (alike : AnyOrder relates left right) (key : String) :
    Option.Rel relates (left.lookup key) (right.lookup key) := by
  obtain ⟨moved, each⟩ := alike
  rw [perm_lookup distinct moved key]
  exact same_key_lookup each key

end Keyed

/-! Results of related items are related, one by one or under their keys. -/
section Through
variable {α β γ δ : Type} {relates : α → β → Prop} {first : γ → α → Prop} {second : δ → β → Prop}
  {results : γ → δ → Prop}

theorem related_through {left : List α} {right : List β} {founds : List γ} {others : List δ}
    (found : List.Forall₂ first founds left) (each : List.Forall₂ relates left right)
    (again : List.Forall₂ second others right)
    (respects : ∀ item ∈ left, ∀ other result after, first result item → relates item other →
      second after other → results result after) :
    List.Forall₂ results founds others := by
  induction each generalizing founds others with
  | nil =>
      cases found
      cases again
      exact .nil
  | cons related _ ih =>
      cases found with
      | cons result found =>
          cases again with
          | cons after again =>
              obtain ⟨here, later⟩ := List.forall_mem_cons.mp respects
              exact .cons (here _ _ _ result related after) (ih found again later)

theorem any_order_through {left : List (String × α)} {right : List (String × β)}
    {founds : List (String × γ)} {others : List (String × δ)}
    (found : List.Forall₂ (SameKey first) founds left) (alike : AnyOrder relates left right)
    (again : List.Forall₂ (SameKey second) others right)
    (respects : ∀ entry ∈ left, ∀ other result after, first result entry.2 →
      relates entry.2 other → second after other → results result after) :
    AnyOrder results founds others := by
  obtain ⟨moved, each⟩ := alike
  have both : Relation.Comp (List.Forall₂ (SameKey first)) List.Perm founds _ :=
    ⟨left, found, moved⟩
  -- The results are moved along with what they were found for.
  rw [List.forall₂_comp_perm_eq_perm_comp_forall₂] at both
  obtain ⟨middle, kept, there⟩ := both
  refine ⟨kept, related_through there each again ?_⟩
  rintro entry member other result after ⟨held⟩ ⟨related⟩ ⟨last⟩
  exact .mk (respects _ (moved.mem_iff.mpr member) _ _ _ held related last)

end Through

theorem related_zipIdx {α β : Type} {relates : α → β → Prop} {left : List α} {right : List β}
    (each : List.Forall₂ relates left right) (start : Nat) :
    List.Forall₂ (fun item other => relates item.1 other.1 ∧ item.2 = other.2)
      (left.zipIdx start) (right.zipIdx start) := by
  induction each generalizing start with
  | nil => exact .nil
  | cons related _ ih => exact .cons ⟨related, rfl⟩ (ih (start + 1))

namespace Value

/-- The same value but for the order of entries in its maps. -/
inductive Reordered : Value → Value → Prop where
  | scalar {value : Value} (flat : value.isContainer = false) : Reordered value value
  | array {items others : List Value} (each : List.Forall₂ Reordered items others) :
      Reordered (.array items) (.array others)
  | object {entries middle others : List (String × Value)} (moved : entries.Perm middle)
      (each : List.Forall₂ (SameKey Reordered) middle others) :
      Reordered (.object entries) (.object others)

theorem reordered_refl (value : Value) : Reordered value value := by
  induction value using inside_induction with
  | step value ih =>
      cases value with
      | array items =>
          exact .array (List.forall₂_same.mpr fun item member => ih item (.item member))
      | object entries =>
          refine .object (.refl entries) (List.forall₂_same.mpr fun entry member => ?_)
          exact .mk (ih entry.2 (.entry member))
      | _ => exact .scalar rfl

theorem reordered_kind {value other : Value} (reordered : Reordered value other) :
    value.kind = other.kind := by
  cases reordered <;> rfl

theorem reordered_null {value other : Value} (reordered : Reordered value other) :
    value.isNull = other.isNull := by
  cases reordered <;> rfl

end Value

theorem Shape.accepts_reordered {Entity : Type} (shape : Shape Entity) {value other : Value}
    (reordered : Value.Reordered value other) : shape.accepts value = shape.accepts other := by
  cases reordered with
  | scalar => rfl
  | array => cases shape <;> rfl
  | object => cases shape <;> rfl

/-- Scalars that were read of reordered values: raw values are reordered, others are the same. -/
def ScalarType.Same : (type : ScalarType) → type.Carrier → type.Carrier → Prop
  | .value => Value.Reordered
  | .bool | .str | .bytes | .identifier | .integer _ | .single | .double => (· = ·)

theorem ScalarType.same_refl (type : ScalarType) (found : type.Carrier) : type.Same found found := by
  cases type with
  | value => exact Value.reordered_refl found
  | _ => exact rfl

theorem ScalarType.read_reordered (type : ScalarType) {value other : Value}
    (reordered : Value.Reordered value other) :
    Option.Rel type.Same (type.read? value) (type.read? other) := by
  cases reordered with
  | scalar flat =>
      cases type.read? value with
      | none => exact .none
      | some found => exact .some (type.same_refl found)
  | array each =>
      cases type with
      | value => exact .some (.array each)
      | _ => exact .none
  | object moved each =>
      cases type with
      | value => exact .some (.object moved each)
      | _ => exact .none

end Interchange
