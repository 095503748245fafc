import Interchange.Proofs.ValueParts
/-!
The value that a reader gives for what was written: an unsigned number that fits the signed word
is in the signed word, at every depth, and nothing else is changed.
-/
namespace Interchange.Value

mutual
def normalize : Value → Value
  | .unsigned number => .ofUnsigned number
  | .array items => .array (normalizeItems items)
  | .object entries => .object (normalizeEntries entries)
  | other => other
termination_by structural value => value
def normalizeItems : List Value → List Value
  | [] => []
  | item :: rest => normalize item :: normalizeItems rest
termination_by structural items => items
def normalizeEntries : List (String × Value) → List (String × Value)
  | [] => []
  | (key, value) :: rest => (key, normalize value) :: normalizeEntries rest
termination_by structural entries => entries
end

theorem normalize_items (items : List Value) : normalizeItems items = items.map normalize := by
  induction items with
  | nil => rfl
  | cons item rest ih => rw [normalizeItems, ih, List.map_cons]

theorem normalize_entries (entries : List (String × Value)) :
    normalizeEntries entries = entries.map fun entry => (entry.1, normalize entry.2) := by
  induction entries with
  | nil => rfl
  | cons entry rest ih =>
      obtain ⟨key, value⟩ := entry
      rw [normalizeEntries, ih, List.map_cons]

-- An integer in the word that readers choose for it: the unsigned one only above the signed range.
def Canonical : Value → Prop
  | .unsigned number => 2 ^ 63 ≤ number.toNat
  | _ => True

theorem normalize_canonical (value : Value) : value.Every Canonical → value.normalize = value := by
  induction value using inside_induction with
  | step value ih =>
      intro canonical
      cases value with
      | unsigned number =>
          have high : ¬ number.toNat < 2 ^ 63 := Nat.not_lt.mpr (every_here canonical)
          rw [normalize, ofUnsigned, if_neg high]
      | array items =>
          have each : ∀ item ∈ items, item.normalize = item :=
            fun item member => ih item (.item member) (every_item canonical member)
          rw [normalize, normalize_items, List.map_congr_left each, List.map_id']
      | object entries =>
          have each : ∀ entry ∈ entries, (entry.1, entry.2.normalize) = entry :=
            fun entry member => by rw [ih entry.2 (.entry member) (every_entry canonical member)]
          rw [normalize, normalize_entries, List.map_congr_left each, List.map_id']
      | _ => rfl

theorem canonical_unsigned (number : UInt64) : Canonical (.ofUnsigned number) := by
  rw [ofUnsigned]
  split
  · trivial
  · exact Nat.not_lt.mp ‹_›

-- A value that readers leave as it is: small unsigned numbers are in the signed word, and arrays
-- hold no nulls.
def Settled : Value → Prop
  | .unsigned number => 2 ^ 63 ≤ number.toNat
  | .array items => ∀ item ∈ items, item.isNull = false
  | _ => True

theorem settled_canonical {value : Value} (settled : value.Every Settled) :
    value.Every Canonical := by
  intro part within
  have here := settled part within
  cases part with
  | unsigned number => exact here
  | _ => trivial

theorem normalize_settled (value : Value) (settled : value.Every Settled) :
    value.normalize = value :=
  normalize_canonical value (settled_canonical settled)

def present (value : Value) : Bool := !value.isNull

-- No array holds a null of its own.
def ItemsPresent : Value → Prop
  | .array items => ∀ item ∈ items, item.present = true
  | _ => True

theorem settled_present {value : Value} (settled : value.Every Settled) :
    value.Every ItemsPresent := by
  intro part within
  have here := settled part within
  cases part with
  | array items =>
      intro item member
      have found : item.isNull = false := here item member
      rw [present, found]
      rfl
  | _ => trivial

theorem strip_items (items : List Value) :
    stripItems items = (items.filter present).map stripNulls := by
  induction items with
  | nil => rfl
  | cons item rest ih =>
      rw [stripItems, List.filter_cons, present]
      cases item.isNull <;> simp [ih]

theorem strip_entries (entries : List (String × Value)) :
    stripEntries entries = entries.map fun entry => (entry.1, stripNulls entry.2) := by
  induction entries with
  | nil => rfl
  | cons entry rest ih =>
      obtain ⟨key, value⟩ := entry
      rw [stripEntries, ih, List.map_cons]

theorem strip_present (value : Value) : value.Every ItemsPresent → value.stripNulls = value := by
  induction value using inside_induction with
  | step value ih =>
      intro full
      cases value with
      | array items =>
          have each : ∀ item ∈ items, item.stripNulls = item :=
            fun item member => ih item (.item member) (every_item full member)
          rw [stripNulls, strip_items, List.filter_eq_self.mpr (every_here full),
            List.map_congr_left each, List.map_id']
      | object entries =>
          have each : ∀ entry ∈ entries, (entry.1, entry.2.stripNulls) = entry :=
            fun entry member => by rw [ih entry.2 (.entry member) (every_entry full member)]
          rw [stripNulls, strip_entries, List.map_congr_left each, List.map_id']
      | _ => rfl

theorem height_items (items : List Value) (bound : Nat) :
    heightItems items ≤ bound ↔ ∀ item ∈ items, item.height ≤ bound := by
  induction items with
  | nil => simp [heightItems]
  | cons item rest ih => rw [heightItems, Nat.max_le, ih, List.forall_mem_cons]

theorem height_entries (entries : List (String × Value)) (bound : Nat) :
    heightEntries entries ≤ bound ↔ ∀ entry ∈ entries, entry.2.height ≤ bound := by
  induction entries with
  | nil => simp [heightEntries]
  | cons entry rest ih =>
      obtain ⟨key, value⟩ := entry
      rw [heightEntries, Nat.max_le, ih, List.forall_mem_cons]

theorem inside_lower (part value : Value) (inside : Inside part value) :
    part.height < value.height := by
  induction inside with
  | item member =>
      rw [height]
      exact Nat.lt_succ_of_le ((height_items _ _).mp (Nat.le_refl _) _ member)
  | entry member =>
      rw [height]
      exact Nat.lt_succ_of_le ((height_entries _ _).mp (Nat.le_refl _) _ member)
  | deeper inner outer ihInner ihOuter => exact Nat.lt_trans ihInner ihOuter

end Interchange.Value
