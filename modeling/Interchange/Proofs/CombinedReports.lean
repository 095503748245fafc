import Interchange.Proofs.CompletionOrder
import Interchange.Proofs.DistinctPaths
import Interchange.Proofs.Utf8Order
/-!
Reports put together. Pushing, absorbing and merging make the reports whose paths ascend and whose lists
are filled, and no others. Such a report is told by what it has under each path, so the laws of merging
are those of appending lists, and an order of units shows only under paths that they share.
-/
namespace Interchange

namespace Report

-- Whatever is made from nothing by the three ways to add to a report.
inductive Built : Report → Prop where
  | empty : Built .empty
  | push {report : Report} (path : String) (descriptor : Descriptor) (built : Built report) :
      Built (report.push path descriptor)
  | absorb {nested report : Report} (outer : String) (inner : Built nested)
      (built : Built report) : Built (.absorb outer nested report)
  | merge {left right : Report} (first : Built left) (second : Built right) :
      Built (left.merge right)

/-! A report is what it has under each path. -/
section Extensionality

/-- An ascending list is told by its members. -/
theorem ascending_ext {α : Type} {key : α → String} {first second : List α}
    (ascends : first.Pairwise fun earlier later => key earlier < key later)
    (ascendsToo : second.Pairwise fun earlier later => key earlier < key later)
    (same : ∀ item, item ∈ first ↔ item ∈ second) : first = second := by
  have apart : ∀ items : List α, items.Pairwise (fun earlier later => key earlier < key later) →
      items.Nodup := by
    intro items up
    refine List.Pairwise.imp ?_ up
    rintro item _ less rfl
    exact String.lt_irrefl _ less
  have moved := (List.perm_ext_iff_of_nodup (apart _ ascends) (apart _ ascendsToo)).mpr same
  refine moved.eq_of_pairwise ?_ ascends ascendsToo
  intro item other _ _ less more
  exact absurd (String.lt_trans less more) (String.lt_irrefl _)

variable {left right : Report}

theorem mem_entries_iff (formed : left.WellFormed) (path : String)
    (descriptors : List Descriptor) :
    (path, descriptors) ∈ left.entries ↔ descriptors ≠ [] ∧ left.under path = descriptors := by
  constructor
  · intro member
    have found := get_of_mem left formed path descriptors member
    exact ⟨formed.2 _ member, congrArg (Option.getD · []) found⟩
  · rintro ⟨filled, rfl⟩
    refine Value.mem_of_lookup path _ left.entries ?_
    have found := get_under left formed path
    rwa [if_neg (by simpa using filled)] at found

theorem mem_paths_iff (formed : left.WellFormed) (path : String) :
    path ∈ left.paths ↔ left.under path ≠ [] := by
  constructor
  · intro member
    obtain ⟨⟨name, descriptors⟩, inside, rfl⟩ := List.mem_map.mp member
    obtain ⟨filled, held⟩ := (mem_entries_iff formed name descriptors).mp inside
    rwa [held]
  · intro filled
    exact List.mem_map_of_mem ((mem_entries_iff formed path _).mpr ⟨filled, rfl⟩)

theorem paths_ascend (formed : left.WellFormed) :
    left.paths.Pairwise fun earlier later => earlier < later :=
  List.pairwise_map.mpr formed.1

theorem paths_ext (formed : left.WellFormed) (formedToo : right.WellFormed)
    (same : ∀ path, left.under path = [] ↔ right.under path = []) : left.paths = right.paths := by
  refine @ascending_ext _ id _ _ (paths_ascend formed) (paths_ascend formedToo) fun path => ?_
  rw [mem_paths_iff formed, mem_paths_iff formedToo]
  exact not_congr (same path)

theorem report_ext (formed : left.WellFormed) (formedToo : right.WellFormed)
    (same : ∀ path, left.under path = right.under path) : left = right := by
  have entries : left.entries = right.entries := by
    refine @ascending_ext _ Prod.fst _ _ formed.1 formedToo.1 fun entry => ?_
    obtain ⟨path, descriptors⟩ := entry
    rw [mem_entries_iff formed, mem_entries_iff formedToo, same]
  exact congrArg Report.mk entries

end Extensionality

/-! What can be built. -/
section Building

theorem built_wellformed {report : Report} (built : Built report) : report.WellFormed := by
  induction built with
  | empty => exact empty_wellformed
  | push path descriptor _ ih => exact ordered_file path [descriptor] _ ih (by simp)
  | absorb outer _ _ ihInner ih => exact absorb_wellformed outer _ _ ihInner ih
  | merge _ _ ihFirst ihSecond => exact merge_wellformed _ _ ihFirst ihSecond

theorem push_last (path : String) (descriptor : Descriptor) (descriptors : List Descriptor) :
    push path descriptor ⟨[(path, descriptors)]⟩ = ⟨[(path, descriptors ++ [descriptor])]⟩ := by
  rw [push, file, if_pos rfl]

theorem one_path_built (path : String) {descriptors : List Descriptor} (filled : descriptors ≠ []) :
    Built ⟨[(path, descriptors)]⟩ := by
  induction descriptors using List.reverseRecOn with
  | nil => contradiction
  | append_singleton others descriptor ih =>
      by_cases alone : others = []
      · rw [alone]
        exact .push path descriptor .empty
      · rw [← push_last]
        exact .push path descriptor (ih alone)

/-- The first path of a report can be merged with the report of all others. -/
theorem merge_first {path : String} {descriptors : List Descriptor} {rest : Entries}
    (formed : WellFormed ⟨(path, descriptors) :: rest⟩) :
    WellFormed ⟨rest⟩ ∧ descriptors ≠ [] ∧
      (⟨(path, descriptors) :: rest⟩ : Report) = merge ⟨[(path, descriptors)]⟩ ⟨rest⟩ := by
  obtain ⟨first, tail⟩ := List.pairwise_cons.mp formed.1
  obtain ⟨filled, others⟩ := List.forall_mem_cons.mp formed.2
  have here : WellFormed ⟨[(path, descriptors)]⟩ := built_wellformed (one_path_built path filled)
  refine ⟨⟨tail, others⟩, filled, report_ext formed (merge_wellformed _ _ here ⟨tail, others⟩) ?_⟩
  intro wanted
  rw [under_merge wanted _ _ here ⟨tail, others⟩, under, held_cons, under, held_cons]
  split
  · rename_i same
    rw [same, under, held_before path rest first, List.append_nil]
  · rfl

theorem built_iff (report : Report) : Built report ↔ report.WellFormed := by
  refine ⟨built_wellformed, fun formed => ?_⟩
  obtain ⟨entries⟩ := report
  induction entries with
  | nil => exact .empty
  | cons entry rest ih =>
      obtain ⟨others, filled, whole⟩ := merge_first formed
      rw [whole]
      exact .merge (one_path_built entry.1 filled) (ih others)

theorem bytes_ascend {report : Report} (formed : report.WellFormed) :
    (report.paths.map Utf8.encode).Pairwise (· < ·) :=
  List.pairwise_map.mpr ((paths_ascend formed).imp Utf8.encode_lt)

end Building

/-! Merging is appending, path by path. -/
section Merging

theorem under_push {report : Report} (formed : report.WellFormed) (path : String)
    (descriptor : Descriptor) (wanted : String) :
    (report.push path descriptor).under wanted =
      report.under wanted ++ if wanted = path then [descriptor] else [] :=
  held_file wanted path [descriptor] report.entries formed.1

theorem merge_assoc {left middle right : Report} (first : left.WellFormed)
    (second : middle.WellFormed) (third : right.WellFormed) :
    (left.merge middle).merge right = left.merge (middle.merge right) := by
  have front := merge_wellformed left middle first second
  have back := merge_wellformed middle right second third
  refine report_ext (merge_wellformed _ _ front third) (merge_wellformed _ _ first back) ?_
  intro path
  rw [under_merge path _ _ front third, under_merge path _ _ first second,
    under_merge path _ _ first back, under_merge path _ _ second third, List.append_assoc]

theorem empty_merge {report : Report} (formed : report.WellFormed) :
    Report.empty.merge report = report :=
  report_ext (merge_wellformed _ _ empty_wellformed formed) formed fun path =>
    under_merge path .empty report empty_wellformed formed

theorem merge_empty (report : Report) : report.merge .empty = report := rfl

/-- Parts of which at most one is filled are appended alike in any order. -/
theorem flat_map_apart {α β : Type} (part : α → List β) {items others : List α}
    (moved : items.Perm others)
    (apart : items.Pairwise fun one other => part one = [] ∨ part other = []) :
    items.flatMap part = others.flatMap part := by
  induction moved with
  | nil => rfl
  | cons item _ ih =>
      rw [List.flatMap_cons, List.flatMap_cons, ih (List.pairwise_cons.mp apart).2]
  | swap first second rest =>
      obtain ⟨here, -⟩ := List.pairwise_cons.mp apart
      rw [List.flatMap_cons, List.flatMap_cons, List.flatMap_cons, List.flatMap_cons]
      rcases here first List.mem_cons_self with none | none <;> simp [none]
  | trans one _ ihOne ihOther =>
      have kept := (one.pairwise_iff fun either => either.symm).mp apart
      exact (ihOne apart).trans (ihOther kept)

variable {units others : List Report} (moved : units.Perm others)
  (each : ∀ report ∈ units, report.WellFormed)

include moved each

/-- Units in another order leave the paths as they are, and under each the same descriptors; only
what more than one unit has there may change its order. -/
theorem joined_moved :
    (joined units).paths = (joined others).paths ∧ ∀ path,
      ((joined units).under path).Perm ((joined others).under path) ∧
      (units.Pairwise (fun one other => one.under path = [] ∨ other.under path = []) →
        (joined units).under path = (joined others).under path) := by
  obtain ⟨formed, listed⟩ := joined_under units each
  obtain ⟨formedToo, listedToo⟩ := joined_under others fun report member =>
    each report (moved.mem_iff.mpr member)
  have same : ∀ path, ((joined units).under path).Perm ((joined others).under path) := by
    intro path
    rw [listed, listedToo]
    exact moved.flatMap_right _
  refine ⟨paths_ext formed formedToo fun path => ?_, fun path => ⟨same path, fun apart => ?_⟩⟩
  · rw [← List.length_eq_zero_iff, (same path).length_eq, List.length_eq_zero_iff]
  · rw [listed, listedToo]
    exact flat_map_apart (under path) moved apart

end Merging

/-! Absorbing keeps paths apart. -/
section Absorbing

theorem file_fresh {path : String} (added : List Descriptor) {entries : Entries}
    (fresh : ∀ entry ∈ entries, entry.1 ≠ path) :
    (file path added entries).Perm ((path, added) :: entries) := by
  induction entries with
  | nil => exact .refl _
  | cons entry rest ih =>
      obtain ⟨here, later⟩ := List.forall_mem_cons.mp fresh
      rw [file, if_neg here]
      split
      · exact .refl _
      · exact (List.Perm.cons entry (ih later)).trans (.swap _ _ _)

theorem file_all_fresh {rename : String → String} (apart : Function.Injective rename)
    {added entries : Entries} (distinct : added.Pairwise fun one other => one.1 ≠ other.1)
    (fresh : ∀ entry ∈ entries, ∀ other ∈ added, entry.1 ≠ rename other.1) :
    (fileAll rename added entries).Perm
      (entries ++ added.map fun entry => (rename entry.1, entry.2)) := by
  induction added generalizing entries with
  | nil => simp [fileAll]
  | cons entry rest ih =>
      obtain ⟨different, tail⟩ := List.pairwise_cons.mp distinct
      have here := file_fresh entry.2 fun other member => fresh other member entry List.mem_cons_self
      have kept : ∀ filed ∈ file (rename entry.1) entry.2 entries, ∀ other ∈ rest,
          filed.1 ≠ rename other.1 := by
        intro filed member other later
        rcases mem_file_path _ _ _ _ member with same | old
        · rw [same]
          exact fun equal => different other later (apart equal)
        · exact fresh filed old other (List.mem_cons_of_mem _ later)
      exact (ih tail kept).trans ((here.append_right _).trans List.perm_middle.symm)

variable {report : Report} (outer : String)

theorem absorb_listed : (absorb outer report .empty).listed.length = report.listed.length := by
  rw [(listed_absorb outer report .empty).length_eq, listed_empty, List.nil_append, List.length_map]

variable (formed : report.WellFormed)
include formed

/-- The entries of an absorbed report are all there, under their new paths. -/
theorem absorb_entries :
    (absorb outer report .empty).entries.Perm
      (report.entries.map fun entry => (joinPath outer entry.1, entry.2)) := by
  have distinct : report.entries.Pairwise fun one other => one.1 ≠ other.1 := by
    refine formed.1.imp ?_
    intro one other less same
    rw [same] at less
    exact String.lt_irrefl _ less
  exact file_all_fresh (join_path_inj outer) distinct (fun _ none => nomatch none)

theorem absorb_size : (absorb outer report .empty).size = report.size := by
  rw [size, (absorb_entries outer formed).length_eq, List.length_map, size]

theorem under_absorb {earlier : Report} (before : earlier.WellFormed) (path : String) :
    (absorb outer report earlier).under (joinPath outer path) =
      earlier.under (joinPath outer path) ++ report.under path :=
  held_file_all (join_path_inj outer) path report.entries earlier.entries formed before

end Absorbing

end Report

theorem Outcome.fails_iff_filed {outcome : Outcome} (site : Site) (telling : outcome.Telling)
    (sound : outcome.Sound) : outcome.isFailure = true ↔ (outcome.report site).isEmpty = false := by
  have formed := report_wellformed outcome site sound
  rw [← not_iff_not, Bool.not_eq_true, Bool.not_eq_false, passes_iff_blank outcome site telling sound,
    Report.listed_nil_iff _ formed]

namespace Scope
variable {Entity : Type} [DecidableEq Entity] (scope : Scope Entity) (schema : Schema Entity)

theorem field_outcome_telling (spec : FieldSpec Entity) (key : String)
    (validator : Option Validator) (stored : Option Value) :
    (scope.fieldOutcome schema spec key validator stored).Telling := by
  cases stored with
  | none =>
      rw [fieldOutcome]
      split <;> trivial
  | some value =>
      rw [fieldOutcome]
      split
      · trivial
      · unfold Outcome.judged
        split
        · exact scope.shape_outcome_telling schema spec.shape key value
        · split <;> trivial

end Scope

/-- Reports lose nothing and invent nothing when they are put together: merging appends what is there
under each path, absorbing moves it, and an order of units shows under shared paths only. The check of a
field fails just if it has something to report. -/
theorem combined_reports_keep_all :
    (∀ report, Report.Built report →
      (report.paths.map Utf8.encode).Pairwise (· < ·) ∧ ∀ entry ∈ report.entries, entry.2 ≠ []) ∧
    (∀ (outcome : Outcome) site, (∀ inner, outcome = .nested inner → Report.Built inner) →
      Report.Built (outcome.report site)) ∧
    (∀ reports, (∀ report ∈ reports, Report.Built report) → Report.Built (.joined reports)) ∧
    (∀ {Entity : Type} (units : List (Site × Work Entity)),
      (joinUnits units).1 = .joined (units.map Work.result)) ∧
    (∀ report path descriptor wanted, Report.Built report →
      (report.push path descriptor).under wanted =
        report.under wanted ++ if wanted = path then [descriptor] else []) ∧
    (∀ left middle right, Report.Built left → Report.Built middle → Report.Built right →
      (∀ path, (left.merge right).under path = left.under path ++ right.under path) ∧
      (left.merge middle).merge right = left.merge (middle.merge right) ∧
      Report.empty.merge left = left ∧ left.merge .empty = left) ∧
    (∀ units others : List Report, units.Perm others → (∀ report ∈ units, Report.Built report) →
      (Report.joined units).paths = (Report.joined others).paths ∧ ∀ path,
        ((Report.joined units).under path).Perm ((Report.joined others).under path) ∧
        (units.Pairwise (fun one other => one.under path = [] ∨ other.under path = []) →
          (Report.joined units).under path = (Report.joined others).under path)) ∧
    (∀ outer nested report, Report.Built nested → Report.Built report →
      (Report.absorb outer nested .empty).size = nested.size ∧
      (Report.absorb outer nested .empty).listed.length = nested.listed.length ∧
      ∀ path, (Report.absorb outer nested report).under (joinPath outer path) =
        report.under (joinPath outer path) ++ nested.under path) ∧
    (∃ outer nested, Report.Built nested ∧
      (Report.absorb outer nested .empty).paths ≠ nested.paths.map (joinPath outer)) ∧
    ∀ {Entity : Type} [DecidableEq Entity] (scope : Scope Entity) (schema : Schema Entity)
      (owner : Option Entity) (spec : FieldSpec Entity) (key : String) (stored : Option Value)
      (validator : Option Validator) (site : Site),
      let outcome :=
        (scope.checkField owner spec key (stored.map (scope.inspect schema)) validator).outcome
      (outcome.isFailure = true ↔ (outcome.report site).isEmpty = false) ∧
      ∀ inner, outcome = .nested inner → Report.Built inner ∧ inner.isEmpty = false := by
  simp only [Report.built_iff]
  refine ⟨?ordered, ?outcomes, ?joins, Work.join_results, ?pushes, ?merges, ?orders, ?absorbs,
    ?moves, ?checks⟩
  case ordered => exact fun report formed => ⟨Report.bytes_ascend formed, formed.2⟩
  case outcomes =>
    intro outcome site inner
    refine report_wellformed outcome site ?_
    cases outcome with
    | nested report => exact inner report rfl
    | _ => trivial
  case joins => exact fun reports each => (Report.joined_under reports each).1
  case pushes =>
    exact fun report path descriptor wanted formed =>
      Report.under_push formed path descriptor wanted
  case merges =>
    intro left middle right first second third
    exact ⟨fun path => Report.under_merge path left right first third,
      Report.merge_assoc first second third, Report.empty_merge first, Report.merge_empty left⟩
  case orders => exact fun units others moved each => Report.joined_moved moved each
  case absorbs =>
    intro outer nested report inner formed
    exact ⟨Report.absorb_size outer inner, Report.absorb_listed outer,
      Report.under_absorb outer inner formed⟩
  case moves =>
    let problem : Descriptor := ⟨.missing, none, "", none, ""⟩
    have built : Report.Built ((Report.empty.push "[0]" problem).push "a" problem) :=
      .push _ _ (.push _ _ .empty)
    exact ⟨"f", _, Report.built_wellformed built, by decide⟩
  case checks =>
    intro Entity _ scope schema owner spec key stored validator site
    rw [scope.check_field_outcome schema owner spec key validator stored]
    have telling := scope.field_outcome_telling schema spec key validator stored
    have sound := scope.field_outcome_sound schema spec key validator stored
      fun value _ target part _ => scope.entity_report_wellformed schema part target
    refine ⟨Outcome.fails_iff_filed site telling sound, fun inner nested => ?_⟩
    rw [nested] at telling sound
    exact ⟨sound, telling⟩

/-- Two units that share a path, in either order, and one of them absorbed. -/
theorem reports_on_shared_path :
    let missing : Descriptor := ⟨.missing, none, "b", none, "en"⟩
    let refused : Descriptor := ⟨.incompatible, none, "b", some .null, "en"⟩
    let first := Report.single "b" missing
    let second := (Report.single "a" missing).push "b" refused
    (Report.Built first ∧ Report.Built second ∧ [first, second].Perm [second, first]) ∧
      ((first.merge second).paths.map Utf8.encode).Pairwise (· < ·) ∧
      (first.merge second).under "b" = first.under "b" ++ second.under "b" ∧
      first.under "b" ++ second.under "b" = [missing, refused] ∧
      ((Report.joined [first, second]).under "b").Perm ((Report.joined [second, first]).under "b") ∧
      (Report.joined [first, second]).under "a" = (Report.joined [second, first]).under "a" ∧
      (Report.absorb "f" second .empty).size = second.size := by
  intro missing refused first second
  have one : Report.Built first := .push "b" missing .empty
  have two : Report.Built second := .push "b" refused (.push "a" missing .empty)
  have moved : [first, second].Perm [second, first] := .swap _ _ _
  have each : ∀ report ∈ [first, second], Report.Built report := by
    simp only [List.forall_mem_cons]
    exact ⟨one, two, by simp⟩
  have apart : [first, second].Pairwise fun unit other =>
      unit.under "a" = [] ∨ other.under "a" = [] := List.pairwise_pair.mpr (Or.inl rfl)
  have there : second.under "b" = [refused] :=
    Report.under_push (Report.single_wellformed "a" missing) "b" refused "b"
  obtain ⟨ordered, -, -, -, -, merges, orders, absorbs, -⟩ := combined_reports_keep_all
  obtain ⟨-, under⟩ := orders _ _ moved each
  exact ⟨⟨one, two, moved⟩, (ordered _ (.merge one two)).1,
    (merges first second second one two two).1 "b", congrArg (missing :: ·) there,
    (under "b").1, (under "a").2 apart, (absorbs "f" second .empty two .empty).1⟩

end Interchange
