import Mathlib.Data.Set.Card
import Interchange.Proofs.FindingPlaces
/-!
Paths never collide. Joining keeps inner paths apart whatever stands before them, quoted keys are never
the start of one another, and under plain names every place where a value fails has a path of its
own; so a report has as many entries as there are such places, and one descriptor in each.
-/
namespace Interchange

theorem join_path_inj (outer first second : String)
    (same : joinPath outer first = joinPath outer second) : first = second := by
  have letters := congrArg String.toList same
  refine String.toList_inj.mp ?_
  by_cases here : first.toList.head? = some '['
  · by_cases there : second.toList.head? = some '['
    · simpa [joinPath, here, there] using letters
    · have dotted : first.toList = '.' :: second.toList := by
        simpa [joinPath, here, there, String.append_assoc] using letters
      simp [dotted] at here
  · by_cases there : second.toList.head? = some '['
    · have dotted : '.' :: first.toList = second.toList := by
        simpa [joinPath, here, there, String.append_assoc] using letters
      simp [← dotted] at there
    · simpa [joinPath, here, there, String.append_assoc] using letters

/-- Neither of two quoted keys goes on as the other. -/
theorem Text.quote_apart {key other : String} (differ : key ≠ other) (rest others : String) :
    quote key ++ rest ≠ quote other ++ others := by
  intro same
  have letters := congrArg String.toList same
  rw [String.toList_append, String.toList_append] at letters
  exact differ (quote_append_inj key other _ _ letters).1

variable {Entity : Type} [DecidableEq Entity]

namespace Scope

variable (scope : Scope Entity) (schema : Schema Entity) (entity : Entity) (value : Value)

/-- A place where a value fails, read as an entity. -/
def FailsAt (steps : List Step) : Prop :=
  ∃ descriptor, ⟨steps, descriptor⟩ ∈ scope.findings schema entity value

theorem fails_at_iff (steps : List Step) :
    scope.FailsAt schema entity value steps ↔
      ∃ found ∈ scope.findings schema entity value, found.steps = steps := by
  constructor
  · rintro ⟨descriptor, member⟩
    exact ⟨_, member, rfl⟩
  · rintro ⟨found, member, rfl⟩
    exact ⟨found.item, member⟩

variable {entity value} (names : schema.DistinctNames entity) (keys : value.Every Value.DistinctKeys)

include names keys in
theorem count_findings : {steps | scope.FailsAt schema entity value steps}.ncard =
    (scope.findings schema entity value).length := by
  have apart := scope.findings_apart schema value entity names keys
  have places : {steps | scope.FailsAt schema entity value steps} =
      ((scope.findings schema entity value).map (·.steps)).toFinset := by
    ext steps
    simp only [Set.mem_ofPred_eq, fails_at_iff, List.coe_toFinset, List.mem_map]
  rw [places, Set.ncard_coe_finset, List.toFinset_card_of_nodup apart, List.length_map]

variable (plain : schema.PlainNames entity)
include plain

theorem fails_at_plain {steps : List Step} (fails : scope.FailsAt schema entity value steps) :
    ∀ step ∈ steps, PlainName step.field := by
  intro step entered
  obtain ⟨descriptor, member⟩ := fails
  obtain ⟨owner, reached, spec, declared, same⟩ :=
    scope.findings_steps schema value entity _ member step entered
  rw [same]
  exact plain owner reached spec declared

theorem fails_at_path_inj {steps others : List Step} (fails : scope.FailsAt schema entity value steps)
    (also : scope.FailsAt schema entity value others) (same : pathText steps = pathText others) :
    steps = others :=
  path_text_inj steps others (scope.fails_at_plain schema plain fails)
    (scope.fails_at_plain schema plain also) same

include names keys

/-- The entries of a report are its findings, each filed alone. -/
theorem report_entries :
    (scope.entityReport schema entity value).entries.Perm
      ((scope.findings schema entity value).map fun found =>
        (pathText found.steps, [found.item])) := by
  have listed := scope.lists_findings schema value entity
  have once := (listed.map Prod.fst).nodup_iff.mpr
    (scope.findings_paths schema entity value names plain keys)
  rw [Report.entries_of_listed _ (entity_report_wellformed scope schema value entity) once]
  have filled := listed.map fun pair : String × Descriptor => (pair.1, [pair.2])
  rwa [List.map_map] at filled

/-- No two failing places share a path, so the report of a map has one entry for each of them, with one
descriptor; joining keeps inner paths apart, and no quoted key starts another one. -/
theorem failing_paths_distinct :
    (∀ steps others, scope.FailsAt schema entity value steps →
      scope.FailsAt schema entity value others → steps ≠ others →
      pathText steps ≠ pathText others) ∧
    (value.kind = .object → ∃ report calls,
      scope.validate schema entity value = .ok (report, calls) ∧
      report.size = {steps | scope.FailsAt schema entity value steps}.ncard ∧
      (∀ path, path ∈ report.paths ↔
        ∃ steps, scope.FailsAt schema entity value steps ∧ pathText steps = path) ∧
      ∀ entry ∈ report.entries, ∃ found ∈ scope.findings schema entity value,
        entry = (pathText found.steps, [found.item])) ∧
    (∀ outer, Function.Injective (joinPath outer)) ∧
    ∀ key other, key ≠ other → ∀ rest others,
      Text.quote key ++ rest ≠ Text.quote other ++ others := by
  refine ⟨fun steps others fails also => mt (scope.fails_at_path_inj schema plain fails also),
    ?report, join_path_inj, fun key other => Text.quote_apart⟩
  intro map
  obtain ⟨entries, rfl⟩ : ∃ entries, value = .object entries := by
    cases value with
    | object entries => exact ⟨entries, rfl⟩
    | _ => cases map
  have filed := scope.report_entries schema names keys plain
  refine ⟨scope.entityReport schema entity (.object entries), _,
    scope.validate_object schema entity entries, ?size, ?paths, ?each⟩
  case size =>
    rw [scope.count_findings schema names keys, Report.size, filed.length_eq, List.length_map]
  case paths =>
    intro path
    have listed := (filed.map Prod.fst).mem_iff (a := path)
    rw [List.map_map] at listed
    rw [Report.paths, listed]
    simp only [List.mem_map, Function.comp_apply, fails_at_iff, exists_exists_and_eq_and]
  case each =>
    intro entry member
    obtain ⟨found, among, same⟩ := List.mem_map.mp (filed.mem_iff.mp member)
    exact ⟨found, among, same.symm⟩

end Scope

/-! A table of keyed parts, for keys that look like pieces of paths. -/
inductive Gazetteer where
  | atlas
  | place
  deriving DecidableEq

namespace Gazetteer

def table : Gazetteer → Table Gazetteer
  | .atlas => ⟨"Atlas", [], [.optionalText "title", .keyed "places" .place]⟩
  | .place => ⟨"Place", [("altitude", "alt")], [.text "name", .number "altitude" .double]⟩

abbrev schema : Schema Gazetteer := .ofTables table

theorem names_once (entity : Gazetteer) : schema.DistinctNames entity := by
  intro member _
  cases member <;> decide

theorem names_plain (entity : Gazetteer) : schema.PlainNames entity := by
  intro member _
  cases member <;> simp [table, Row.optionalText, Row.keyed, Row.text, Row.number, Row.spare,
    Row.needed, PlainName]

-- The name of one place is missing under a key that is written like the path to another's.
def garbled : Value :=
  .object [("title", .integer 5), ("places", .object [("x", .object [("alt", .integer 3)]),
    ("x\"].name", .object [("alt", .str "high")]), ("", .null), ("\\\"", .null)])]

theorem garbled_paths_distinct :
    (schema.DistinctNames .atlas ∧ schema.PlainNames .atlas ∧
      garbled.Every Value.DistinctKeys) ∧
    ∃ report calls,
      Scope.validate ⟨⟨true⟩, .empty, "en"⟩ schema .atlas garbled = .ok (report, calls) ∧
      report.size = 6 ∧
      "places[\"x\"].name" ∈ report.paths ∧ "places[\"x\\\"].name\"].name" ∈ report.paths ∧
      ∀ entry ∈ report.entries, ∃ path descriptor, entry = (path, [descriptor]) := by
  have keys : garbled.Every Value.DistinctKeys := by decide
  have places : ((Scope.findings ⟨⟨true⟩, .empty, "en"⟩ schema .atlas garbled).map (·.steps)) =
      [[⟨"title", none⟩], [⟨"places", some (.key "x")⟩, ⟨"name", none⟩],
        [⟨"places", some (.key "x\"].name")⟩, ⟨"name", none⟩],
        [⟨"places", some (.key "x\"].name")⟩, ⟨"altitude", none⟩],
        [⟨"places", some (.key "")⟩], [⟨"places", some (.key "\\\"")⟩]] := rfl
  obtain ⟨-, listed, -, -⟩ := Scope.failing_paths_distinct ⟨⟨true⟩, .empty, "en"⟩ schema
    (names_once .atlas) keys (names_plain .atlas)
  obtain ⟨report, calls, ended, size, paths, each⟩ := listed rfl
  have within : ∀ steps ∈ (Scope.findings ⟨⟨true⟩, .empty, "en"⟩ schema .atlas garbled).map
      (·.steps), pathText steps ∈ report.paths := by
    intro steps member
    exact (paths _).mpr ⟨steps, (Scope.fails_at_iff _ _ _ _ _).mpr (List.mem_map.mp member), rfl⟩
  rw [places] at within
  refine ⟨⟨names_once .atlas, names_plain .atlas, keys⟩, report, calls, ended, ?_, ?_, ?_, ?_⟩
  · rw [size, Scope.count_findings _ _ (names_once .atlas) keys]
    rfl
  · exact (by decide +kernel : pathText [⟨"places", some (.key "x")⟩, ⟨"name", none⟩] =
      "places[\"x\"].name") ▸ within _ (by decide)
  · exact (by decide +kernel : pathText [⟨"places", some (.key "x\"].name")⟩, ⟨"name", none⟩] =
      "places[\"x\\\"].name\"].name") ▸ within _ (by decide)
  · intro entry member
    obtain ⟨found, -, same⟩ := each entry member
    exact ⟨_, _, same⟩

end Gazetteer

end Interchange
