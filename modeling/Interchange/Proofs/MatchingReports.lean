import Interchange.Proofs.FieldFindings
import Interchange.Proofs.ReorderedValues
/-!
Reports of reordered values. Reports match if they have the same paths and, under each, descriptors
that differ in the order of keys of their stored values at most; putting reports together keeps matches.
Filing under different paths commutes, so a join of units whose paths are apart does not depend on
the order of the units.
-/
namespace Interchange

/-- Descriptors of the same problem, with stored values that are reorderings of each other. -/
structure Descriptor.Matches (left right : Descriptor) : Prop where
  category : left.category = right.category
  code : left.code = right.code
  wireKey : left.wireKey = right.wireKey
  raw : Option.Rel Value.Reordered left.raw right.raw
  locale : left.locale = right.locale

namespace Report

abbrev EntriesMatch : Entries → Entries → Prop :=
  List.Forall₂ (SameKey (List.Forall₂ Descriptor.Matches))

/-- The same paths in the same order, with matching descriptors under each. -/
def Matches (left right : Report) : Prop := EntriesMatch left.entries right.entries

theorem matches_file (path : String) {added others : List Descriptor}
    (filed : List.Forall₂ Descriptor.Matches added others) {left right : Entries}
    (matched : EntriesMatch left right) :
    EntriesMatch (file path added left) (file path others right) := by
  induction matched with
  | nil => exact .cons (.mk filed) .nil
  | cons first rest ih =>
      cases first with
      | @mk name descriptors again held =>
          rw [file, file]
          by_cases same : name = path
          · simp only [same, ↓reduceIte]
            exact .cons (.mk (List.rel_append held filed)) rest
          · by_cases before : path < name
            · simp only [same, before, ↓reduceIte]
              exact .cons (.mk filed) (.cons (.mk held) rest)
            · simp only [same, before, ↓reduceIte]
              exact .cons (.mk held) ih

theorem matches_file_all (rename : String → String) {added others left right : Entries}
    (filed : EntriesMatch added others) (matched : EntriesMatch left right) :
    EntriesMatch (fileAll rename added left) (fileAll rename others right) := by
  induction filed generalizing left right with
  | nil => exact matched
  | cons first _ ih =>
      cases first with
      | mk held => exact ih (matches_file _ held matched)

theorem matches_empty : Matches empty empty := .nil

theorem matches_single (path : String) {left right : Descriptor} (matched : left.Matches right) :
    Matches (single path left) (single path right) :=
  matches_file path (.cons matched .nil) .nil

theorem matches_merge {left right more others : Report} (matched : Matches left right)
    (added : Matches more others) : Matches (left.merge more) (right.merge others) :=
  matches_file_all id added matched

theorem matches_absorb (outer : String) {nested others left right : Report}
    (added : Matches nested others) (matched : Matches left right) :
    Matches (absorb outer nested left) (absorb outer others right) :=
  matches_file_all (joinPath outer) added matched

theorem matches_isEmpty {left right : Report} (matched : Matches left right) :
    left.isEmpty = right.isEmpty := by
  obtain ⟨entries⟩ := left
  obtain ⟨others⟩ := right
  cases matched <;> rfl

/-! Reports without a path in common can be merged in either order. -/
section Apart

theorem file_comm {path other : String} (differ : path ≠ other) (added more : List Descriptor)
    (entries : Entries) :
    file path added (file other more entries) = file other more (file path added entries) := by
  induction entries with
  | nil =>
      simp only [file]
      grind
  | cons entry rest ih =>
      simp only [file]
      grind [file]

def Apart (left right : Report) : Prop :=
  ∀ entry ∈ left.entries, ∀ other ∈ right.entries, entry.1 ≠ other.1

theorem file_all_comm_file {path : String} (descriptors : List Descriptor) {added : Entries}
    (apart : ∀ entry ∈ added, path ≠ entry.1) (entries : Entries) :
    file path descriptors (fileAll id added entries) =
      fileAll id added (file path descriptors entries) := by
  induction added generalizing entries with
  | nil => rfl
  | cons entry rest ih =>
      obtain ⟨here, later⟩ := List.forall_mem_cons.mp apart
      have moved := ih later (file entry.1 entry.2 entries)
      rw [file_comm here] at moved
      exact moved

theorem merge_comm {left right : Report} (apart : Apart left right) (report : Report) :
    (report.merge left).merge right = (report.merge right).merge left := by
  obtain ⟨first⟩ := left
  obtain ⟨second⟩ := right
  obtain ⟨entries⟩ := report
  apply congrArg Report.mk
  change fileAll id second (fileAll id first entries) = fileAll id first (fileAll id second entries)
  induction second generalizing entries with
  | nil => rfl
  | cons entry rest ih =>
      have here : ∀ other ∈ first, entry.1 ≠ other.1 :=
        fun other member => (apart other member entry List.mem_cons_self).symm
      have later : Apart ⟨first⟩ ⟨rest⟩ := fun other member another held =>
        apart other member another (List.mem_cons_of_mem _ held)
      have moved := ih later (file entry.1 entry.2 entries)
      rw [← file_all_comm_file entry.2 here] at moved
      exact moved

end Apart

end Report

/-- Sites of the same place, with stored values that are reorderings of each other. -/
structure Site.Matches (left right : Site) : Prop where
  path : left.path = right.path
  wireKey : left.wireKey = right.wireKey
  raw : Option.Rel Value.Reordered left.raw right.raw
  locale : left.locale = right.locale

namespace Outcome

inductive Matches : Outcome → Outcome → Prop where
  | valid : Matches .valid .valid
  | skip : Matches .skip .skip
  | missing : Matches .missing .missing
  | incompatible : Matches .incompatible .incompatible
  | unknownCase : Matches .unknownCase .unknownCase
  | rejected (code : String) : Matches (.rejected code) (.rejected code)
  | nested {left right : Report} (matched : left.Matches right) :
      Matches (.nested left) (.nested right)

theorem matches_of_report {left right : Report} (matched : left.Matches right) :
    Matches (ofReport left) (ofReport right) := by
  rw [ofReport, ofReport, Report.matches_isEmpty matched]
  split
  · exact .valid
  · exact .nested matched

theorem matches_report {left right : Outcome} (matched : Matches left right) {here there : Site}
    (same : here.Matches there) : (left.report here).Matches (right.report there) := by
  obtain ⟨path, key, raw, locale⟩ := here
  obtain ⟨pathToo, keyToo, rawToo, localeToo⟩ := there
  obtain ⟨rfl, rfl, held, rfl⟩ := same
  cases matched with
  | valid => exact Report.matches_empty
  | skip => exact Report.matches_empty
  | nested matched => exact Report.matches_absorb _ matched Report.matches_empty
  | _ => exact Report.matches_single _ ⟨rfl, rfl, rfl, held, rfl⟩

/-- A validator that says the same about both values keeps a match. -/
theorem matches_judged {left right : Outcome} (matched : Matches left right)
    {validator : Option Validator} {value other : Value}
    (agrees : ∀ check, validator = some check → (check value).code = (check other).code) :
    Matches (left.judged validator value) (right.judged validator other) := by
  have same : (validator.bind fun check => (check value).code) =
      validator.bind fun check => (check other).code := by
    cases validator with
    | none => rfl
    | some check => exact agrees check rfl
  cases matched with
  | valid | skip =>
      simp only [judged, isFailure, Bool.false_eq_true, ↓reduceIte, same]
      cases validator.bind fun check => (check other).code with
      | some code => exact .rejected code
      | none => exact .valid
  | missing => exact .missing
  | incompatible => exact .incompatible
  | unknownCase => exact .unknownCase
  | rejected code => exact .rejected code
  | nested matched => exact .nested matched

end Outcome

section Joins
variable {Entity ι : Type}

theorem matches_fold_merge {units others : List (Site × Work Entity)}
    (each : List.Forall₂ (fun unit other =>
      (unit.2.outcome.report unit.1).Matches (other.2.outcome.report other.1)) units others)
    {left right : Report} (matched : left.Matches right) :
    (units.foldl (fun merged unit => merged.merge (unit.2.outcome.report unit.1)) left).Matches
      (others.foldl (fun merged unit => merged.merge (unit.2.outcome.report unit.1)) right) := by
  induction each generalizing left right with
  | nil => exact matched
  | cons first _ ih => exact ih (Report.matches_merge matched first)

/-- Units whose reports match one by one have matching joins. -/
theorem matches_join {units others : List (Site × Work Entity)}
    (each : List.Forall₂ (fun unit other =>
      (unit.2.outcome.report unit.1).Matches (other.2.outcome.report other.1)) units others) :
    (joinUnits units).1.Matches (joinUnits others).1 := by
  simp only [joinUnits, Work.run_all_units]
  exact matches_fold_merge each Report.matches_empty

/-- The order of units without a path in common does not show in their join. -/
theorem join_perm {items others : List ι} (moved : items.Perm others) (unit : ι → Site × Work Entity)
    (apart : ∀ item ∈ items, ∀ other ∈ items, item ≠ other →
      ((unit item).2.outcome.report (unit item).1).Apart
        ((unit other).2.outcome.report (unit other).1)) :
    (joinUnits (items.map unit)).1 = (joinUnits (others.map unit)).1 := by
  simp only [joinUnits, Work.run_all_units, List.foldl_map]
  refine moved.foldl_eq' ?_ Report.empty
  intro item member other also merged
  by_cases same : item = other
  · rw [same]
  · exact Report.merge_comm (apart item member other also same) merged

end Joins

end Interchange
