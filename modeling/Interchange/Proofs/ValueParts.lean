import Interchange.Value
/-!
Induction over what a value holds. A nested value is smaller than its container, so a fact
about every value may assume itself of the values inside; a fold then is a map over
the parts of a container.
-/
namespace Interchange.Value

inductive Inside : Value → Value → Prop where
  | item {item : Value} {items : List Value} (member : item ∈ items) :
      Inside item (.array items)
  | entry {key : String} {value : Value} {entries : List (String × Value)}
      (member : (key, value) ∈ entries) : Inside value (.object entries)
  | deeper {part middle value : Value} (inner : Inside part middle)
      (outer : Inside middle value) : Inside part value

theorem inside_smaller (part value : Value) (inside : Inside part value) :
    sizeOf part < sizeOf value := by
  induction inside with
  | item member =>
      have smaller := List.sizeOf_lt_of_mem member
      simp only [Value.array.sizeOf_spec]
      omega
  | entry member =>
      have smaller := List.sizeOf_lt_of_mem member
      simp only [Prod.mk.sizeOf_spec] at smaller
      simp only [Value.object.sizeOf_spec]
      omega
  | deeper inner outer ihInner ihOuter => exact Nat.lt_trans ihInner ihOuter

theorem inside_induction {motive : Value → Prop}
    (step : ∀ value, (∀ part, Inside part value → motive part) → motive value)
    (value : Value) : motive value :=
  step value fun part inside =>
    have := inside_smaller part value inside
    inside_induction step part
termination_by sizeOf value

/-- A property of a value and of all that stands inside it. -/
def Every (holds : Value → Prop) (value : Value) : Prop :=
  ∀ part, part = value ∨ Inside part value → holds part

theorem every_here {holds : Value → Prop} {value : Value} (every : Every holds value) :
    holds value :=
  every value (Or.inl rfl)

theorem every_inside {holds : Value → Prop} {part value : Value} (every : Every holds value)
    (inside : Inside part value) : Every holds part := by
  intro smaller within
  rcases within with rfl | deeper
  · exact every smaller (Or.inr inside)
  · exact every smaller (Or.inr (.deeper deeper inside))

theorem every_item {holds : Value → Prop} {item : Value} {items : List Value}
    (every : Every holds (.array items)) (member : item ∈ items) : Every holds item :=
  every_inside every (.item member)

theorem every_entry {holds : Value → Prop} {entry : String × Value}
    {entries : List (String × Value)} (every : Every holds (.object entries))
    (member : entry ∈ entries) : Every holds entry.2 :=
  every_inside every (.entry member)

theorem inside_array (part : Value) (items : List Value) :
    Inside part (.array items) ↔ ∃ item ∈ items, part = item ∨ Inside part item := by
  constructor
  · intro inside
    generalize same : Value.array items = whole at inside
    induction inside with
    | @item item others member =>
        obtain rfl := Value.array.inj same
        exact ⟨item, member, Or.inl rfl⟩
    | entry member => contradiction
    | deeper inner outer ihInner ihOuter =>
        obtain ⟨item, member, found⟩ := ihOuter same
        refine ⟨item, member, Or.inr ?_⟩
        rcases found with rfl | found
        · exact inner
        · exact .deeper inner found
  · rintro ⟨item, member, rfl | deeper⟩
    · exact .item member
    · exact .deeper deeper (.item member)

theorem inside_object (part : Value) (entries : List (String × Value)) :
    Inside part (.object entries) ↔ ∃ entry ∈ entries, part = entry.2 ∨ Inside part entry.2 := by
  constructor
  · intro inside
    generalize same : Value.object entries = whole at inside
    induction inside with
    | item member => contradiction
    | @entry key value others member =>
        obtain rfl := Value.object.inj same
        exact ⟨(key, value), member, Or.inl rfl⟩
    | deeper inner outer ihInner ihOuter =>
        obtain ⟨entry, member, found⟩ := ihOuter same
        refine ⟨entry, member, Or.inr ?_⟩
        rcases found with rfl | found
        · exact inner
        · exact .deeper inner found
  · rintro ⟨entry, member, rfl | deeper⟩
    · exact .entry member
    · exact .deeper deeper (.entry member)

theorem every_array (holds : Value → Prop) (items : List Value) :
    Every holds (.array items) ↔ holds (.array items) ∧ ∀ item ∈ items, Every holds item := by
  constructor
  · intro every
    exact ⟨every_here every, fun item member => every_item every member⟩
  · rintro ⟨here, each⟩ part (rfl | inside)
    · exact here
    · obtain ⟨item, member, within⟩ := (inside_array part items).mp inside
      exact each item member part within

theorem every_object (holds : Value → Prop) (entries : List (String × Value)) :
    Every holds (.object entries) ↔
      holds (.object entries) ∧ ∀ entry ∈ entries, Every holds entry.2 := by
  constructor
  · intro every
    exact ⟨every_here every, fun entry member => every_entry every member⟩
  · rintro ⟨here, each⟩ part (rfl | inside)
    · exact here
    · obtain ⟨entry, member, within⟩ := (inside_object part entries).mp inside
      exact each entry member part within

def isContainer : Value → Bool
  | .array _ => true
  | .object _ => true
  | _ => false

theorem not_inside_scalar (part value : Value) (scalar : value.isContainer = false) :
    ¬ Inside part value := by
  intro inside
  induction inside with
  | item => contradiction
  | entry => contradiction
  | deeper inner outer ihInner ihOuter => exact ihOuter scalar

theorem every_scalar (holds : Value → Prop) (value : Value) (scalar : value.isContainer = false) :
    Every holds value ↔ holds value := by
  constructor
  · exact every_here
  · rintro here part (rfl | inside)
    · exact here
    · exact absurd inside (not_inside_scalar part value scalar)

-- The keys of a map arrive once each.
def DistinctKeys : Value → Prop
  | .object entries => (entries.map (·.1)).Nodup
  | _ => True

instance : DecidablePred DistinctKeys
  | .object entries => inferInstanceAs (Decidable (entries.map (·.1)).Nodup)
  | .null | .bool _ | .integer _ | .unsigned _ | .float _ | .str _ | .bytes _ | .array _ =>
    .isTrue trivial

section Fold
variable {α : Type u} (step : Value → Parts α → α)

theorem fold_items (items : List Value) : foldItems step items = items.map (fold step) := by
  induction items with
  | nil => rfl
  | cons item rest ih => rw [foldItems, ih, List.map_cons]

theorem fold_entries (entries : List (String × Value)) :
    foldEntries step entries = entries.map fun entry => (entry.1, fold step entry.2) := by
  induction entries with
  | nil => rfl
  | cons entry rest ih =>
      obtain ⟨key, value⟩ := entry
      rw [foldEntries, ih, List.map_cons]

theorem fold_array (items : List Value) :
    fold step (.array items) = step (.array items) (.items (items.map (fold step))) := by
  rw [fold, fold_items]

theorem fold_object (entries : List (String × Value)) :
    fold step (.object entries) = step (.object entries)
      (.entries (entries.map fun entry => (entry.1, fold step entry.2))) := by
  rw [fold, fold_entries]

end Fold

section Decided
variable (holds : Value → Prop) [DecidablePred holds]

def partsHold : Value → Parts Bool → Bool
  | value, .none => decide (holds value)
  | value, .items results => decide (holds value) && results.all id
  | value, .entries results => decide (holds value) && results.all (·.2)

theorem fold_parts_hold (value : Value) :
    fold (partsHold holds) value = true ↔ Every holds value := by
  induction value using inside_induction with
  | step value ih =>
      cases value with
      | array items =>
          rw [fold_array, every_array, partsHold, Bool.and_eq_true, decide_eq_true_iff,
            List.all_map, List.all_eq_true]
          exact and_congr_right fun _ =>
            forall₂_congr fun item member => ih item (.item member)
      | object entries =>
          rw [fold_object, every_object, partsHold, Bool.and_eq_true, decide_eq_true_iff,
            List.all_map, List.all_eq_true]
          exact and_congr_right fun _ =>
            forall₂_congr fun entry member => ih entry.2 (.entry member)
      | _ => exact decide_eq_true_iff.trans (every_scalar holds _ rfl).symm

instance : DecidablePred (Every holds) :=
  fun value => decidable_of_iff _ (fold_parts_hold holds value)

end Decided

theorem lookup_map_values {α β : Type} (key : String) (change : α → β)
    (entries : List (String × α)) :
    (entries.map fun entry => (entry.1, change entry.2)).lookup key =
      (entries.lookup key).map change := by
  induction entries with
  | nil => rfl
  | cons entry rest ih =>
      obtain ⟨name, value⟩ := entry
      by_cases same : key = name
      · simp [same]
      · simpa [List.lookup_cons, beq_eq_false_iff_ne.mpr same] using ih

theorem mem_of_lookup {α : Type} (key : String) (value : α) (entries : List (String × α))
    (found : entries.lookup key = some value) : (key, value) ∈ entries := by
  obtain ⟨before, after, split, _⟩ := List.lookup_eq_some_iff.mp found
  simp [split]

/-- Under distinct keys, a look-up finds every entry. -/
theorem lookup_of_mem {α : Type} (key : String) (value : α) (entries : List (String × α))
    (distinct : (entries.map (·.1)).Nodup) (member : (key, value) ∈ entries) :
    entries.lookup key = some value := by
  induction entries with
  | nil => simp at member
  | cons entry rest ih =>
      rw [List.map_cons, List.nodup_cons] at distinct
      rcases List.mem_cons.mp member with rfl | later
      · simp
      · have different : key ≠ entry.1 := by
          intro same
          exact distinct.1 (same ▸ List.mem_map_of_mem later)
        rw [List.lookup_cons, beq_eq_false_iff_ne.mpr different]
        exact ih distinct.2 later

end Interchange.Value
