import Mathlib.Data.List.Perm.Basic
import Interchange.Proofs.JoinedUnits
/-!
What a report holds, counted. `listed` has every descriptor with its path, once for each time that
it was filed; merging and absorbing neither lose one nor file one twice. Where all paths differ, the
contents determine the report.
-/
namespace Interchange

namespace Report

def pairs (entries : Entries) : List (String × Descriptor) :=
  entries.flatMap fun entry => entry.2.map fun descriptor => (entry.1, descriptor)

/-- The descriptors of a report, each with its path. -/
def listed (report : Report) : List (String × Descriptor) := pairs report.entries

theorem pairs_cons (path : String) (descriptors : List Descriptor) (rest : Entries) :
    pairs ((path, descriptors) :: rest) =
      (descriptors.map fun descriptor => (path, descriptor)) ++ pairs rest := rfl

theorem pairs_file (path : String) (added : List Descriptor) (entries : Entries) :
    (pairs (file path added entries)).Perm
      (pairs entries ++ added.map fun descriptor => (path, descriptor)) := by
  induction entries with
  | nil => simp [file, pairs]
  | cons entry rest ih =>
      obtain ⟨name, descriptors⟩ := entry
      rw [file, pairs_cons]
      split
      · rename_i same
        obtain rfl : name = path := same
        simp only [pairs_cons, List.map_append, List.append_assoc]
        exact .append_left _ List.perm_append_comm
      · split
        · exact List.perm_append_comm
        · rw [pairs_cons, List.append_assoc]
          exact .append_left _ ih

theorem pairs_file_all (rename : String → String) (added entries : Entries) :
    (pairs (fileAll rename added entries)).Perm
      (pairs entries ++ (pairs added).map fun pair => (rename pair.1, pair.2)) := by
  induction added generalizing entries with
  | nil => simp [fileAll, pairs]
  | cons entry rest ih =>
      obtain ⟨path, descriptors⟩ := entry
      have step := ih (file (rename path) descriptors entries)
      rw [pairs_cons, List.map_append, List.map_map, ← List.append_assoc]
      exact step.trans (.append_right _ (pairs_file (rename path) descriptors entries))

theorem listed_empty : listed empty = [] := rfl

theorem listed_single (path : String) (descriptor : Descriptor) :
    listed (single path descriptor) = [(path, descriptor)] := rfl

theorem listed_merge (left right : Report) :
    (left.merge right).listed.Perm (left.listed ++ right.listed) := by
  have combined := pairs_file_all id right.entries left.entries
  have unmoved : (pairs right.entries).map (fun pair => (id pair.1, pair.2)) =
      pairs right.entries := List.map_id _
  rw [unmoved] at combined
  exact combined

theorem listed_absorb (outer : String) (nested report : Report) :
    (absorb outer nested report).listed.Perm
      (report.listed ++ nested.listed.map fun pair => (joinPath outer pair.1, pair.2)) :=
  pairs_file_all (joinPath outer) nested.entries report.entries

theorem listed_nil_iff (report : Report) (wellFormed : report.WellFormed) :
    report.listed = [] ↔ report.isEmpty = true := by
  rw [isEmpty, List.isEmpty_iff]
  constructor
  · intro nothing
    rw [List.eq_nil_iff_forall_not_mem]
    rintro entry member
    have unfilled := List.flatMap_eq_nil_iff.mp nothing entry member
    exact wellFormed.2 entry member (List.map_eq_nil_iff.mp unfilled)
  · intro blank
    rw [listed, blank]
    rfl

/-- Under paths that all differ, every entry has one descriptor. -/
theorem entries_of_listed (report : Report) (wellFormed : report.WellFormed)
    (distinct : (report.listed.map (·.1)).Nodup) :
    report.entries = report.listed.map fun pair => (pair.1, [pair.2]) := by
  obtain ⟨entries⟩ := report
  simp only [listed] at distinct ⊢
  induction entries with
  | nil => rfl
  | cons entry rest ih =>
      obtain ⟨path, descriptors⟩ := entry
      obtain ⟨-, tail⟩ := List.pairwise_cons.mp wellFormed.1
      have restFormed : WellFormed ⟨rest⟩ :=
        ⟨tail, fun later member => wellFormed.2 later (List.mem_cons_of_mem _ member)⟩
      rw [pairs_cons, List.map_append, List.nodup_append] at distinct
      have here := wellFormed.2 (path, descriptors) List.mem_cons_self
      cases descriptors with
      | nil => exact absurd rfl here
      | cons descriptor others =>
          cases others with
          | nil =>
              have behind := ih restFormed distinct.2.1
              rw [pairs_cons, List.map_append, ← behind]
              rfl
          | cons other more => simp at distinct

end Report

namespace Outcome

theorem listed_of_report (inner : Report) (site : Site) :
    ((ofReport inner).report site).listed.Perm
      (inner.listed.map fun pair => (joinPath site.path pair.1, pair.2)) := by
  unfold ofReport
  split
  · rename_i clean
    rw [Report.isEmpty, List.isEmpty_iff] at clean
    rw [Report.listed, Report.listed, clean]
    exact .nil
  · exact Report.listed_absorb site.path inner .empty

-- A failure inside a value has something to report.
def Telling : Outcome → Prop
  | .nested inner => inner.isEmpty = false
  | _ => True

theorem of_report_telling (inner : Report) : (ofReport inner).Telling := by
  unfold ofReport
  split
  · trivial
  · rename_i filled
    exact eq_false_of_ne_true filled

/-- An outcome passes exactly if its report is blank. -/
theorem passes_iff_blank (outcome : Outcome) (site : Site) (telling : outcome.Telling)
    (sound : outcome.Sound) : outcome.isFailure = false ↔ (outcome.report site).listed = [] := by
  cases outcome with
  | nested inner =>
      have absorbed := Report.listed_absorb site.path inner .empty
      have filled : inner.listed ≠ [] := by
        intro nothing
        rw [Report.listed_nil_iff inner sound, telling] at nothing
        contradiction
      have listed : (report site (.nested inner)).listed ≠ [] := by
        intro nothing
        rw [report] at nothing
        rw [nothing, Report.listed_empty, List.nil_append] at absorbed
        exact filled (List.map_eq_nil_iff.mp absorbed.nil_eq.symm)
      simp [isFailure, listed]
  | valid => simp [isFailure, report, Report.listed_empty]
  | skip => simp [isFailure, report, Report.listed_empty]
  | _ => simp [isFailure, report, Report.listed_single]

end Outcome

variable {Entity : Type}

theorem listed_fold_merge (units : List (Site × Work Entity)) (report : Report) :
    (units.foldl (fun merged unit =>
        merged.merge (unit.2.outcome.report unit.1)) report).listed.Perm
      (report.listed ++ units.flatMap fun unit => (unit.2.outcome.report unit.1).listed) := by
  induction units generalizing report with
  | nil => simp
  | cons first rest ih =>
      rw [List.foldl_cons, List.flatMap_cons, ← List.append_assoc]
      exact (ih _).trans (.append_right _ (Report.listed_merge report _))

/-- A join holds what the reports of its units hold together. -/
theorem listed_join (units : List (Site × Work Entity)) :
    (joinUnits units).1.listed.Perm
      (units.flatMap fun unit => (unit.2.outcome.report unit.1).listed) := by
  simpa [joinUnits, Work.run_all_units, Report.listed_empty] using
    listed_fold_merge units .empty

end Interchange
