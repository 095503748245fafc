import Interchange.Proofs.JoinedUnits
/-!
Units polled in any order. A schedule polls one unit at a time, at any level of nesting; a poll may
be in vain as often as it likes, and a join goes on once all of its units have ended. What a
unit still has to do, what it ends with and what it calls on the way do not depend on
the schedule.
-/
namespace Interchange

variable {Entity : Type}

-- What one poll comes to: nothing yet, a step, or the call of a validator.
inductive Poll (Entity : Type) where
  | vain
  | moved
  | called (call : Call Entity)

namespace Poll

def call? : Poll Entity → Option (Call Entity)
  | .called call => some call
  | _ => none

/-- Vain polls do not count. -/
def progress : Poll Entity → Nat
  | .vain => 0
  | .moved => 1
  | .called _ => 1

end Poll

def callsMade (polls : List (Poll Entity)) : List (Call Entity) := polls.filterMap Poll.call?

def progress : List (Poll Entity) → Nat
  | [] => 0
  | poll :: polls => poll.progress + progress polls

/-- The reports of units merged in the order of the units. -/
def Report.joined (reports : List Report) : Report := reports.foldl Report.merge .empty

/-! Units of any kind, given by what a poll does to one of them. -/
section Interleaving
universe u
variable {Unit : Type u} (step : Unit → Poll Entity → Unit → Prop)

inductive Interleaved : List Unit → List (Poll Entity) → List Unit → Prop where
  | rest (units : List Unit) : Interleaved units [] units
  | poll {before after ended : List Unit} {unit next : Unit} {poll : Poll Entity}
      {polls : List (Poll Entity)} (polled : step unit poll next)
      (further : Interleaved (before ++ next :: after) polls ended) :
      Interleaved (before ++ unit :: after) (poll :: polls) ended

/-- What no poll changes about a unit, no schedule changes about any of them. -/
theorem interleaved_keeps {α : Type u} (kept : Unit → α)
    (keeps : ∀ unit poll next, step unit poll next → kept next = kept unit)
    {units ended : List Unit} {polls : List (Poll Entity)}
    (schedule : Interleaved step units polls ended) : ended.map kept = units.map kept := by
  induction schedule with
  | rest units => rfl
  | poll polled further ih =>
      rw [ih, List.map_append, List.map_append, List.map_cons, List.map_cons, keeps _ _ _ polled]

/-- Units that all yield yield their results. -/
theorem results_of_yields {yields : Unit → Option Report} {result : Unit → Report}
    (yielded : ∀ unit report, yields unit = some report → result unit = report)
    {units : List Unit} {reports : List Report} (ended : units.map yields = reports.map some) :
    units.map result = reports := by
  induction units generalizing reports with
  | nil =>
      cases reports with
      | nil => rfl
      | cons report rest => contradiction
  | cons unit units ih =>
      cases reports with
      | nil => contradiction
      | cons report rest =>
          obtain ⟨here, later⟩ := List.cons.inj ended
          rw [List.map_cons, yielded unit report here, ih later]

end Interleaving

namespace Work

/-- What is left to do before a unit ends, whatever it waits for. -/
def ended? : Work Entity → Option Outcome
  | .done outcome => some outcome
  | _ => none

/-- The report of a unit that has ended. -/
def reported? (unit : Site × Work Entity) : Option Report :=
  unit.2.ended?.map fun outcome => outcome.report unit.1

/-- All units of a join have ended, with these reports. -/
def Ended (units : List (Site × Work Entity)) (reports : List Report) : Prop :=
  units.map reported? = reports.map some

inductive Step : Work Entity → Poll Entity → Work Entity → Prop where
  | pending {work : Work Entity} (unfinished : work.ended? = none) : Step work .vain work
  | waited (next : Work Entity) : Step (.wait next) .moved next
  | called (made : Call Entity) (next : Work Entity) :
      Step (.call made next) (.called made) next
  | unit {before after : List (Site × Work Entity)} {site : Site} {work further : Work Entity}
      {poll : Poll Entity} {next : Report → Work Entity} (polled : Step work poll further) :
      Step (.join (before ++ (site, work) :: after) next) poll
        (.join (before ++ (site, further) :: after) next)
  | joined {units : List (Site × Work Entity)} {reports : List Report}
      {next : Report → Work Entity} (ended : Ended units reports) :
      Step (.join units next) .moved (next (Report.joined reports))

/-- A unit is polled at its own site. -/
def UnitStep (unit : Site × Work Entity) (poll : Poll Entity) (next : Site × Work Entity) : Prop :=
  next.1 = unit.1 ∧ Step unit.2 poll next.2

def result (unit : Site × Work Entity) : Report := unit.2.outcome.report unit.1

theorem join_results (units : List (Site × Work Entity)) :
    (joinUnits units).1 = Report.joined (units.map result) := by
  simp only [joinUnits, run_all_units, Report.joined, List.foldl_map]
  rfl

theorem result_of_reported (unit : Site × Work Entity) (report : Report)
    (reported : reported? unit = some report) : result unit = report := by
  obtain ⟨site, work⟩ := unit
  cases work with
  | done outcome => exact Option.some.inj reported
  | _ => simp [reported?, ended?] at reported

theorem results_of_ended {units : List (Site × Work Entity)} {reports : List Report}
    (ended : Ended units reports) : units.map result = reports :=
  results_of_yields result_of_reported ended

theorem step_outcome {work next : Work Entity} {poll : Poll Entity} (step : Step work poll next) :
    next.outcome = work.outcome := by
  induction step with
  | pending => rfl
  | waited next => rfl
  | called made next => rw [outcome_call]
  | unit polled ih =>
      rw [outcome_join, outcome_join, join_results, join_results]
      simp [result, ih]
  | joined ended => rw [outcome_join, join_results, results_of_ended ended]

/-- A poll of one unit leaves the results of all units as they are. -/
theorem step_results {before after : List (Site × Work Entity)} {site : Site}
    {work further : Work Entity} {poll : Poll Entity} (polled : Step work poll further) :
    (joinUnits (before ++ (site, further) :: after)).1 =
      (joinUnits (before ++ (site, work) :: after)).1 := by
  rw [join_results, join_results]
  simp [result, step_outcome polled]

/-! What is left to do, in polls that are not in vain. -/
mutual
def remaining : Work Entity → Nat
  | .done _ => 0
  | .wait next => remaining next + 1
  | .call _ next => remaining next + 1
  | .join units next => remainingAll units + remaining (next (joinUnits units).1) + 1
termination_by structural work => work
def remainingAll : List (Site × Work Entity) → Nat
  | [] => 0
  | (_, unit) :: rest => remaining unit + remainingAll rest
termination_by structural units => units
end

theorem remaining_append (before after : List (Site × Work Entity)) :
    remainingAll (before ++ after) = remainingAll before + remainingAll after := by
  induction before with
  | nil => exact (Nat.zero_add _).symm
  | cons unit rest ih => rw [List.cons_append, remainingAll, remainingAll, ih, Nat.add_assoc]

theorem remaining_all_idle (units : List (Site × Work Entity)) :
    remainingAll units = 0 ↔ ∀ unit ∈ units, unit.2.remaining = 0 := by
  induction units with
  | nil => simp [remainingAll]
  | cons unit rest ih => rw [remainingAll, Nat.add_eq_zero_iff, ih, List.forall_mem_cons]

theorem remaining_of_reported (unit : Site × Work Entity) (report : Report)
    (reported : reported? unit = some report) : unit.2.remaining = 0 ∧ unit.2.calls = [] := by
  obtain ⟨site, work⟩ := unit
  cases work with
  | done outcome => exact ⟨rfl, rfl⟩
  | _ => simp [reported?, ended?] at reported

theorem reported_of_ended {units : List (Site × Work Entity)} {reports : List Report}
    (ended : Ended units reports) : ∀ unit ∈ units, ∃ report, reported? unit = some report := by
  intro unit member
  have found : reported? unit ∈ reports.map some := ended ▸ List.mem_map_of_mem member
  obtain ⟨report, -, same⟩ := List.mem_map.mp found
  exact ⟨report, same.symm⟩

/-- Units that have ended have nothing left to do and nobody left to call. -/
theorem idle_of_ended {units : List (Site × Work Entity)} {reports : List Report}
    (ended : Ended units reports) : remainingAll units = 0 ∧ (joinUnits units).2 = [] := by
  have each : ∀ unit ∈ units, unit.2.remaining = 0 ∧ unit.2.calls = [] := by
    intro unit member
    obtain ⟨report, reported⟩ := reported_of_ended ended unit member
    exact remaining_of_reported unit report reported
  rw [remaining_all_idle, join_calls, List.flatMap_eq_nil_iff]
  exact ⟨fun unit member => (each unit member).1, fun unit member => (each unit member).2⟩

theorem step_remaining {work next : Work Entity} {poll : Poll Entity}
    (step : Step work poll next) : poll.progress + next.remaining = work.remaining := by
  induction step with
  | pending => exact Nat.zero_add _
  | waited next => rw [remaining, Poll.progress, Nat.add_comm]
  | called made next => rw [remaining, Poll.progress, Nat.add_comm]
  | unit polled ih =>
      simp only [remaining, step_results polled, remaining_append, remainingAll]
      omega
  | @joined units reports next ended =>
      rw [remaining, (idle_of_ended ended).1, join_results, results_of_ended ended, Poll.progress]
      omega

theorem join_calls_within {before after : List (Site × Work Entity)}
    {unit further : Site × Work Entity} {made : List (Call Entity)}
    (polled : (made ++ further.2.calls).Perm unit.2.calls) :
    (made ++ (joinUnits (before ++ further :: after)).2).Perm
      (joinUnits (before ++ unit :: after)).2 := by
  simp only [join_calls, List.flatMap_append, List.flatMap_cons]
  have moved := polled.append_right (after.flatMap fun unit => unit.2.calls)
  rw [List.append_assoc] at moved
  exact (List.perm_append_comm_assoc _ _ _).trans (moved.append_left _)

theorem step_calls {work next : Work Entity} {poll : Poll Entity} (step : Step work poll next) :
    (poll.call?.toList ++ next.calls).Perm work.calls := by
  induction step with
  | pending => exact .refl _
  | waited next => exact .refl _
  | called made next =>
      rw [calls_call]
      exact .refl _
  | @unit before after site work further poll next polled ih =>
      have inner : (poll.call?.toList ++ (joinUnits (before ++ (site, further) :: after)).2).Perm
          (joinUnits (before ++ (site, work) :: after)).2 := join_calls_within ih
      rw [calls_join, calls_join, step_results polled, ← List.append_assoc]
      exact inner.append_right _
  | @joined units reports next ended =>
      rw [calls_join, (idle_of_ended ended).2, join_results, results_of_ended ended]
      exact .refl _

/-! What is not at its end can go on. -/
mutual
theorem step_exists : (work : Work Entity) →
    (∃ outcome, work = .done outcome) ∨
      ∃ poll next, Step work poll next ∧ poll.progress = 1
  | .done outcome => Or.inl ⟨outcome, rfl⟩
  | .wait next => Or.inr ⟨_, _, .waited next, rfl⟩
  | .call made next => Or.inr ⟨_, _, .called made next, rfl⟩
  | .join units next => by
      rcases unit_step_exists units with ⟨reports, ended⟩ | unfinished
      · exact Or.inr ⟨_, _, .joined ended, rfl⟩
      · obtain ⟨before, site, work, after, poll, further, rfl, step, moves⟩ := unfinished
        exact Or.inr ⟨_, _, .unit step, moves⟩
termination_by structural work => work
theorem unit_step_exists : (units : List (Site × Work Entity)) →
    (∃ reports, Ended units reports) ∨
      ∃ before site work after poll further, units = before ++ (site, work) :: after ∧
        Step work poll further ∧ poll.progress = 1
  | [] => Or.inl ⟨[], rfl⟩
  | (site, work) :: rest => by
      rcases step_exists work with ⟨outcome, rfl⟩ | ⟨poll, next, step, moves⟩
      · rcases unit_step_exists rest with ⟨reports, ended⟩ | unfinished
        · exact Or.inl ⟨outcome.report site :: reports, congrArg (some _ :: ·) ended⟩
        · obtain ⟨before, place, inner, after, poll, further, rfl, step, moves⟩ := unfinished
          exact Or.inr ⟨(site, .done outcome) :: before, place, inner, after, poll, further, rfl,
            step, moves⟩
      · exact Or.inr ⟨[], site, work, rest, poll, next, rfl, step, moves⟩
termination_by structural units => units
end

/-! Schedules of the units of one join. -/
section Schedule
variable {units ended : List (Site × Work Entity)} {polls : List (Poll Entity)}

theorem schedule_poll (before : List (Site × Work Entity)) {after : List (Site × Work Entity)}
    {site : Site} {work further : Work Entity} {poll : Poll Entity} (step : Step work poll further)
    (rest : Interleaved UnitStep (before ++ (site, further) :: after) polls ended) :
    Interleaved UnitStep (before ++ (site, work) :: after) (poll :: polls) ended :=
  have polled : UnitStep (site, work) poll (site, further) := ⟨rfl, step⟩
  .poll polled rest

theorem schedule_sites (schedule : Interleaved UnitStep units polls ended) :
    ended.map (·.1) = units.map (·.1) :=
  interleaved_keeps UnitStep (·.1) (fun _ _ _ polled => polled.1) schedule

/-- What has been done and what is left to do add up to what there was to do. -/
theorem schedule_remaining (schedule : Interleaved UnitStep units polls ended) :
    progress polls + remainingAll ended = remainingAll units := by
  induction schedule with
  | rest units => exact Nat.zero_add _
  | poll polled further ih =>
      have step := step_remaining polled.2
      simp only [progress, remaining_append, remainingAll] at ih ⊢
      omega

theorem schedule_calls (schedule : Interleaved UnitStep units polls ended) :
    (callsMade polls ++ (joinUnits ended).2).Perm (joinUnits units).2 := by
  induction schedule with
  | rest units => exact .refl _
  | @poll before after ended unit next poll polls polled further ih =>
      have made : callsMade (poll :: polls) = poll.call?.toList ++ callsMade polls := by
        cases poll <;> rfl
      rw [made, List.append_assoc]
      exact (ih.append_left _).trans (join_calls_within (step_calls polled.2))

/-- Units have ended exactly if nothing is left to do. -/
theorem ended_iff_idle (units : List (Site × Work Entity)) :
    (∃ reports, Ended units reports) ↔ remainingAll units = 0 := by
  constructor
  · rintro ⟨reports, ended⟩
    exact (idle_of_ended ended).1
  · intro idle
    rcases unit_step_exists units with ended | unfinished
    · exact ended
    · obtain ⟨before, site, work, after, poll, further, rfl, step, moves⟩ := unfinished
      have left := step_remaining step
      have nothing := (remaining_all_idle _).mp idle (site, work) (by simp)
      simp only at nothing
      omega

/-- Every schedule can be carried to its end. -/
theorem schedule_ends (units : List (Site × Work Entity)) :
    ∃ polls ended, Interleaved UnitStep units polls ended ∧
      ∃ reports, Ended ended reports := by
  induction left : remainingAll units using Nat.strongRecOn generalizing units with
  | ind count ih =>
      rcases unit_step_exists units with ended | unfinished
      · exact ⟨[], units, .rest units, ended⟩
      · obtain ⟨before, site, work, after, poll, further, rfl, step, moves⟩ := unfinished
        have less := schedule_remaining (schedule_poll before step (.rest (_ ++ (site, _) :: after)))
        simp only [progress, moves] at less
        obtain ⟨polls, ended, schedule, reports⟩ :=
          ih (remainingAll (before ++ (site, further) :: after)) (by omega) _ rfl
        exact ⟨poll :: polls, ended, schedule_poll before step schedule, reports⟩

end Schedule

end Work

-- Units as a join sees them: what a poll does, what a unit may yield, and the result it is bound to.
structure Pollable (Entity : Type) where
  Unit : Type
  step : Unit → Poll Entity → Unit → Prop
  yields : Unit → Option Report
  result : Unit → Report
  kept : ∀ unit poll next, step unit poll next → result next = result unit
  yielded : ∀ unit report, yields unit = some report → result unit = report

def Work.pollable : Pollable Entity where
  Unit := Site × Work Entity
  step := UnitStep
  yields := reported?
  result := result
  kept := by
    rintro ⟨site, work⟩ poll ⟨_, next⟩ ⟨rfl, step⟩
    simp [result, step_outcome step]
  yielded := result_of_reported

/-- No schedule changes the results that units are bound to. -/
theorem results_scheduled (kind : Pollable Entity) {units ended : List kind.Unit}
    {polls : List (Poll Entity)} {reports : List Report}
    (schedule : Interleaved kind.step units polls ended)
    (yielded : ended.map kind.yields = reports.map some) : reports = units.map kind.result := by
  rw [← interleaved_keeps kind.step kind.result kind.kept schedule,
    results_of_yields kind.yielded yielded]

end Interchange
