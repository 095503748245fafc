import Interchange.Validation.Work
import Interchange.Proofs.ReportEntries
/-!
What running units amounts to. Calls made before a unit do not change its outcome, so every unit has
an outcome and calls of its own; a join files what the outcomes of its units file, and calls
what they call, in their order.
-/
namespace Interchange

variable {Entity : Type}

namespace Work

mutual
theorem run_earlier_calls (earlier : List (Call Entity)) : (work : Work Entity) →
    run earlier work = ((run [] work).1, (run [] work).2 ++ earlier)
  | .done outcome => rfl
  | .wait next => run_earlier_calls earlier next
  | .call made next => by
      rw [run, run, run_earlier_calls (made :: earlier) next, run_earlier_calls [made] next]
      simp
  | .join units next => by
      have joined := run_all_earlier_calls earlier .empty units
      rw [run, run, joined]
      rw [run_earlier_calls _ (next _), run_earlier_calls (runAll [] .empty units).2 (next _)]
      simp
termination_by structural work => work
theorem run_all_earlier_calls (earlier : List (Call Entity)) (report : Report) :
    (units : List (Site × Work Entity)) →
    runAll earlier report units =
      ((runAll [] report units).1, (runAll [] report units).2 ++ earlier)
  | [] => rfl
  | (site, unit) :: rest => by
      rw [runAll, runAll, run_earlier_calls earlier unit]
      rw [run_all_earlier_calls _ _ rest, run_all_earlier_calls (run [] unit).2 _ rest]
      simp
termination_by structural units => units
end

def outcome (work : Work Entity) : Outcome := (run [] work).1

def calls (work : Work Entity) : List (Call Entity) := (run [] work).2.reverse

@[simp]
theorem outcome_done (ended : Outcome) : outcome (.done ended : Work Entity) = ended := rfl

@[simp]
theorem outcome_wait (next : Work Entity) : outcome (.wait next) = outcome next := rfl

@[simp]
theorem outcome_call (made : Call Entity) (next : Work Entity) :
    outcome (.call made next) = outcome next := by
  rw [outcome, run, run_earlier_calls]
  rfl

@[simp]
theorem outcome_waiting (polls : Nat) (next : Work Entity) :
    outcome (waiting polls next) = outcome next := by
  induction polls with
  | zero => rfl
  | succ polls ih => rw [waiting, outcome_wait, ih]

@[simp]
theorem outcome_join (units : List (Site × Work Entity)) (next : Report → Work Entity) :
    outcome (.join units next) = outcome (next (joinUnits units).1) := by
  rw [outcome, run, run_earlier_calls]
  rfl

@[simp]
theorem calls_done (ended : Outcome) : calls (.done ended : Work Entity) = [] := rfl

@[simp]
theorem calls_call (made : Call Entity) (next : Work Entity) :
    calls (.call made next) = made :: calls next := by
  rw [calls, run, run_earlier_calls]
  simp [calls]

@[simp]
theorem calls_waiting (polls : Nat) (next : Work Entity) :
    calls (waiting polls next) = calls next := by
  induction polls with
  | zero => rfl
  | succ polls ih => exact ih

@[simp]
theorem calls_join (units : List (Site × Work Entity)) (next : Report → Work Entity) :
    calls (.join units next) = (joinUnits units).2 ++ calls (next (joinUnits units).1) := by
  rw [calls, run, run_earlier_calls]
  simp [calls, joinUnits]

theorem run_all_units (report : Report) (units : List (Site × Work Entity)) :
    runAll [] report units =
      (units.foldl (fun merged unit => merged.merge (unit.2.outcome.report unit.1)) report,
        (units.flatMap fun unit => unit.2.calls).reverse) := by
  induction units generalizing report with
  | nil => rfl
  | cons first rest ih =>
      obtain ⟨site, unit⟩ := first
      rw [runAll, run_all_earlier_calls, ih]
      simp [calls, outcome]

end Work

theorem join_calls (units : List (Site × Work Entity)) :
    (joinUnits units).2 = units.flatMap fun unit => unit.2.calls := by
  simp [joinUnits, Work.run_all_units]

theorem files_fold_merge (units : List (Site × Work Entity)) (report : Report) (path : String)
    (descriptor : Descriptor) :
    (units.foldl (fun merged unit => merged.merge (unit.2.outcome.report unit.1)) report).Files
        path descriptor ↔
      report.Files path descriptor ∨
        ∃ unit ∈ units, (unit.2.outcome.report unit.1).Files path descriptor := by
  induction units generalizing report with
  | nil => simp
  | cons first rest ih =>
      rw [List.foldl_cons, ih, Report.files_merge]
      simp only [List.mem_cons, exists_eq_or_imp, or_assoc]

/-- A join loses nothing that a unit files and adds nothing of its own. -/
theorem files_join (units : List (Site × Work Entity)) (path : String)
    (descriptor : Descriptor) :
    (joinUnits units).1.Files path descriptor ↔
      ∃ unit ∈ units, (unit.2.outcome.report unit.1).Files path descriptor := by
  have merged := files_fold_merge units .empty path descriptor
  simp only [Report.files_empty, false_or] at merged
  simpa [joinUnits, Work.run_all_units] using merged

/-! Reports stay well formed through every join. -/
section WellFormed

def Outcome.Sound : Outcome → Prop
  | .nested report => report.WellFormed
  | _ => True

theorem report_wellformed (outcome : Outcome) (site : Site) (sound : outcome.Sound) :
    (outcome.report site).WellFormed := by
  cases outcome with
  | valid => exact Report.empty_wellformed
  | skip => exact Report.empty_wellformed
  | nested inner => exact Report.absorb_wellformed _ inner _ sound Report.empty_wellformed
  | missing => exact Report.single_wellformed _ _
  | incompatible => exact Report.single_wellformed _ _
  | unknownCase => exact Report.single_wellformed _ _
  | rejected code => exact Report.single_wellformed _ _

theorem fold_merge_wellformed (units : List (Site × Work Entity)) (report : Report)
    (wellFormed : report.WellFormed) (sound : ∀ unit ∈ units, unit.2.outcome.Sound) :
    (units.foldl (fun merged unit =>
      merged.merge (unit.2.outcome.report unit.1)) report).WellFormed := by
  induction units generalizing report with
  | nil => exact wellFormed
  | cons first rest ih =>
      have here := report_wellformed first.2.outcome first.1 (sound first List.mem_cons_self)
      exact ih _ (Report.merge_wellformed _ _ wellFormed here)
        fun unit member => sound unit (List.mem_cons_of_mem _ member)

theorem join_wellformed (units : List (Site × Work Entity))
    (sound : ∀ unit ∈ units, unit.2.outcome.Sound) : (joinUnits units).1.WellFormed := by
  simp only [joinUnits, Work.run_all_units]
  exact fold_merge_wellformed units .empty Report.empty_wellformed sound

theorem of_report_sound (report : Report) (wellFormed : report.WellFormed) :
    (Outcome.ofReport report).Sound := by
  unfold Outcome.ofReport
  split
  · trivial
  · exact wellFormed

end WellFormed

end Interchange
