import Interchange.Proofs.Conformance
import Interchange.Proofs.FieldFindings
import Interchange.Proofs.Schedules
/-!
Completion order does not show. A join puts the descriptors of its units under their paths in the
order of the units, and every schedule of a validation that has come to its end has made all
the moves that there were to make and leaves the report of the units run one after the other.
-/
namespace Interchange

namespace Report

def heldUnder (path : String) (entries : Entries) : List Descriptor :=
  (entries.lookup path).getD []

/-- The descriptors of a report under a path. -/
def under (path : String) (report : Report) : List Descriptor := heldUnder path report.entries

theorem held_cons (wanted path : String) (descriptors : List Descriptor) (rest : Entries) :
    heldUnder wanted ((path, descriptors) :: rest) =
      if wanted = path then descriptors else heldUnder wanted rest := by
  by_cases same : wanted = path
  · simp [heldUnder, same]
  · simp [heldUnder, List.lookup_cons, same, beq_eq_false_iff_ne.mpr same]

/-- Nothing is held under a path before all others. -/
theorem held_before (wanted : String) (entries : Entries)
    (before : ∀ entry ∈ entries, wanted < entry.1) : heldUnder wanted entries = [] := by
  induction entries with
  | nil => rfl
  | cons entry rest ih =>
      obtain ⟨here, later⟩ := List.forall_mem_cons.mp before
      obtain ⟨path, descriptors⟩ := entry
      have different : wanted ≠ path := fun same => String.lt_irrefl _ (same ▸ here)
      rw [held_cons, if_neg different, ih later]

theorem held_file (wanted path : String) (added : List Descriptor) (entries : Entries)
    (ascending : entries.Pairwise fun earlier later => earlier.1 < later.1) :
    heldUnder wanted (file path added entries) =
      heldUnder wanted entries ++ if wanted = path then added else [] := by
  induction entries with
  | nil =>
      rw [file, held_cons]
      rfl
  | cons entry rest ih =>
      obtain ⟨name, descriptors⟩ := entry
      obtain ⟨first, tail⟩ := List.pairwise_cons.mp ascending
      rw [file]
      by_cases same : name = path
      · subst same
        by_cases here : wanted = name <;> simp [held_cons, here]
      · by_cases before : path < name
        · have nothing := held_before path ((name, descriptors) :: rest)
            (List.forall_mem_cons.mpr ⟨before, fun later member =>
              String.lt_trans before (first later member)⟩)
          simp only [same, before, ↓reduceIte, held_cons wanted path]
          by_cases here : wanted = path
          · subst here
            simp [nothing]
          · simp [here]
        · simp only [same, before, ↓reduceIte, held_cons, ih tail]
          by_cases here : wanted = name
          · simp [here, same]
          · simp [here]

/-- Entries filed under new paths, all of them apart, are found there behind what was held before. -/
theorem held_file_all {rename : String → String} (apart : Function.Injective rename)
    (wanted : String) (added entries : Entries) (fresh : Ordered added) (ordered : Ordered entries) :
    heldUnder (rename wanted) (fileAll rename added entries) =
      heldUnder (rename wanted) entries ++ heldUnder wanted added := by
  induction added generalizing entries with
  | nil => simp [fileAll, heldUnder]
  | cons entry rest ih =>
      obtain ⟨path, descriptors⟩ := entry
      obtain ⟨first, tail⟩ := List.pairwise_cons.mp fresh.1
      obtain ⟨filled, others⟩ := List.forall_mem_cons.mp fresh.2
      have step := ih (file (rename path) descriptors entries) ⟨tail, others⟩
        (ordered_file (rename path) descriptors entries ordered filled)
      refine step.trans ?_
      rw [held_file (rename wanted) (rename path) descriptors entries ordered.1, held_cons,
        List.append_assoc]
      congr 1
      by_cases same : wanted = path
      · rw [if_pos (congrArg rename same), if_pos same, same, held_before path rest first,
          List.append_nil]
      · rw [if_neg (mt (@apart wanted path) same), if_neg same, List.nil_append]

theorem under_merge (path : String) (left right : Report) (first : left.WellFormed)
    (second : right.WellFormed) :
    (left.merge right).under path = left.under path ++ right.under path :=
  held_file_all Function.injective_id path right.entries left.entries second first

theorem joined_from (reports : List Report) (earlier : Report) (wellFormed : earlier.WellFormed)
    (each : ∀ report ∈ reports, report.WellFormed) :
    (reports.foldl merge earlier).WellFormed ∧
      ∀ path, (reports.foldl merge earlier).under path =
        earlier.under path ++ reports.flatMap (under path) := by
  induction reports generalizing earlier with
  | nil => exact ⟨wellFormed, fun path => (List.append_nil _).symm⟩
  | cons report rest ih =>
      obtain ⟨here, later⟩ := List.forall_mem_cons.mp each
      obtain ⟨formed, listed⟩ := ih (earlier.merge report) (merge_wellformed _ _ wellFormed here) later
      refine ⟨formed, fun path => (listed path).trans ?_⟩
      rw [under_merge path earlier report wellFormed here, List.flatMap_cons, List.append_assoc]

theorem get_under (report : Report) (wellFormed : report.WellFormed) (path : String) :
    report.get? path =
      if (report.under path).isEmpty then none else some (report.under path) := by
  cases found : report.get? path with
  | none =>
      have nothing : report.under path = [] := congrArg (Option.getD · []) found
      simp [nothing]
  | some descriptors =>
      have held : report.under path = descriptors := congrArg (Option.getD · []) found
      have filled := wellFormed.2 _ (Value.mem_of_lookup path descriptors report.entries found)
      rw [held, if_neg (by simpa using filled)]

theorem joined_under (reports : List Report) (each : ∀ report ∈ reports, report.WellFormed) :
    (joined reports).WellFormed ∧
      ∀ path, (joined reports).under path = reports.flatMap (under path) :=
  joined_from reports .empty empty_wellformed each

/-- A join holds, under each path, the descriptors of its reports in their order. -/
theorem get_joined (reports : List Report) (each : ∀ report ∈ reports, report.WellFormed)
    (path : String) :
    (joined reports).get? path =
      let descriptors := reports.flatMap (under path)
      if descriptors.isEmpty then none else some descriptors := by
  obtain ⟨formed, listed⟩ := joined_under reports each
  rw [get_under _ formed, listed path]

end Report

variable {Entity : Type}

/-- Whatever the order in which units complete, their join has under each path what the units have
there, in the order of the units. -/
theorem joined_in_order (kind : Pollable Entity) {units ended : List kind.Unit}
    {polls : List (Poll Entity)} {reports : List Report}
    (schedule : Interleaved kind.step units polls ended)
    (wellFormed : ∀ unit ∈ units, (kind.result unit).WellFormed)
    (yielded : ended.map kind.yields = reports.map some) (path : String) :
    (Report.joined reports).get? path =
      let descriptors := units.flatMap fun unit => (kind.result unit).under path
      if descriptors.isEmpty then none else some descriptors := by
  have results := results_scheduled kind schedule yielded
  have each : ∀ report ∈ reports, report.WellFormed := by
    intro report member
    rw [results] at member
    obtain ⟨unit, inside, rfl⟩ := List.mem_map.mp member
    exact wellFormed unit inside
  rw [Report.get_joined reports each, results, List.flatMap_map]

namespace Scope

variable (scope : Scope Entity) [DecidableEq Entity] (schema : Schema Entity)

theorem validate_joined (entity : Entity) (value : Value) :
    scope.validate schema entity value =
      if value.kind = .object then
        .ok (joinUnits ((scope.inspect schema value).asEntity entity))
      else .error (.notAMap (schema.name entity) value.kind) := by
  cases value <;> rfl

/-- Every schedule of a validation keeps all of its units, can be carried to its end, is there
exactly when it has made every move of every unit, and then has the report and the calls of
the units run one after the other. A join of any units keeps their order under each path. -/
theorem validate_any_schedule (entity : Entity) (value : Value) :
    let units := (scope.inspect schema value).asEntity entity
    (∀ polls reached, Interleaved Work.UnitStep units polls reached →
      reached.map (·.1) = units.map (·.1) ∧
      (∃ more ended, Interleaved Work.UnitStep reached more ended ∧
        ∃ reports, Work.Ended ended reports) ∧
      progress polls ≤ Work.remainingAll units ∧
      ((∃ reports, Work.Ended reached reports) ↔ progress polls = Work.remainingAll units) ∧
      ∀ reports, Work.Ended reached reports → ∃ calls, (callsMade polls).Perm calls ∧
        scope.validate schema entity value =
          if value.kind = .object then .ok (Report.joined reports, calls)
          else .error (.notAMap (schema.name entity) value.kind)) ∧
    ∀ (kind : Pollable Entity) (units ended : List kind.Unit) (polls : List (Poll Entity))
      (reports : List Report), Interleaved kind.step units polls ended →
      (∀ unit ∈ units, (kind.result unit).WellFormed) →
      ended.map kind.yields = reports.map some → ∀ path,
        (Report.joined reports).get? path =
          let descriptors := units.flatMap fun unit => (kind.result unit).under path
          if descriptors.isEmpty then none else some descriptors := by
  intro units
  refine ⟨?_, fun kind units ended polls reports => joined_in_order kind⟩
  intro polls reached schedule
  have moves := Work.schedule_remaining schedule
  refine ⟨Work.schedule_sites schedule, Work.schedule_ends reached, by omega, ?_, ?_⟩
  · rw [Work.ended_iff_idle]
    omega
  · intro reports ended
    have merged : Report.joined reports = (joinUnits units).1 := by
      rw [results_scheduled Work.pollable schedule ended]
      exact (Work.join_results units).symm
    have calls := Work.schedule_calls schedule
    rw [(Work.idle_of_ended ended).2, List.append_nil] at calls
    exact ⟨_, calls, by rw [validate_joined, merged]⟩

end Scope

namespace Ledger

-- The validator of the side takes a poll longer than that of the comment.
def timed : Scope Ledger where
  options := ⟨false⟩
  registry := ⟨[(.movement, [("side", fun _ => ⟨1, some "slow"⟩),
    ("comment", fun _ => ⟨0, some "fast"⟩)])]⟩
  locale := "en"

def transfer : Value := .object [("side", .str "credit"), ("comment", .str "x")]

def sideCall : Call Ledger := ⟨some .movement, "side", .str "credit"⟩

def commentCall : Call Ledger := ⟨some .movement, "comment", .str "x"⟩

/-- The comment is through before the side, and the report is that of the declared order. -/
theorem transfer_any_schedule :
    let units := (timed.inspect schema transfer).asEntity .movement
    let polls := [.called commentCall, .called sideCall, .vain, .moved]
    ∃ reached reports, Interleaved Work.UnitStep units polls reached ∧
      Work.Ended reached reports ∧ progress polls = Work.remainingAll units ∧
      (∃ calls, (callsMade polls).Perm calls ∧
        timed.validate schema .movement transfer = .ok (Report.joined reports, calls)) ∧
      (Report.joined reports).get? "side" =
        some [⟨.rejected, some "slow", "side", some (.str "credit"), "en"⟩] := by
  intro units polls
  let side : Site := ⟨"side", "side", some (.str "credit"), "en"⟩
  let comment : Site := ⟨"comment", "comment", some (.str "x"), "en"⟩
  let slow : Work Ledger := .done (.rejected "slow")
  let fast : Work Ledger := .done (.rejected "fast")
  have schedule : Interleaved Work.UnitStep units polls [(side, slow), (comment, fast)] := by
    have waited : Interleaved Work.UnitStep [(side, .wait slow), (comment, fast)] [.vain, .moved]
        [(side, slow), (comment, fast)] :=
      Work.schedule_poll [] (.pending rfl) (Work.schedule_poll [] (.waited slow) (.rest _))
    have asked : Interleaved Work.UnitStep [(side, .call sideCall (.wait slow)), (comment, fast)]
        [.called sideCall, .vain, .moved] [(side, slow), (comment, fast)] :=
      Work.schedule_poll [] (.called sideCall _) waited
    exact Work.schedule_poll [_] (.called commentCall fast) asked
  have ended : Work.Ended [(side, slow), (comment, fast)]
      [slow.outcome.report side, fast.outcome.report comment] := rfl
  obtain ⟨validation, joins⟩ := timed.validate_any_schedule schema .movement transfer
  obtain ⟨-, -, -, through, reported⟩ := validation _ _ schedule
  refine ⟨_, _, schedule, ended, through.mp ⟨_, ended⟩, reported _ ended, ?_⟩
  refine (joins Work.pollable _ _ _ _ schedule ?_ ended "side").trans rfl
  intro unit member
  rcases List.mem_cons.mp member with rfl | later
  · exact Report.single_wellformed _ _
  · rw [List.mem_singleton.mp later]
    exact Report.single_wellformed _ _

end Ledger

end Interchange
