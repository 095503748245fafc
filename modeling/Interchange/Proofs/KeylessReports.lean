import Interchange.Proofs.ListedFindings
import Interchange.Proofs.RenamedKeys
/-!
Reports without their wire keys. Putting reports together does not look at wire keys, so blanking
them can be done first or last. Main statement: with no validators, the report of a renamed map
under remapped keys is that of the map itself under its names, but for the wire keys.
-/
namespace Interchange

def Descriptor.keyless (descriptor : Descriptor) : Descriptor :=
  { descriptor with wireKey := "" }

namespace Report

def keylessEntries (entries : Entries) : Entries :=
  entries.map fun entry => (entry.1, entry.2.map Descriptor.keyless)

def keyless (report : Report) : Report := ⟨keylessEntries report.entries⟩

theorem keyless_file (path : String) (added : List Descriptor) (entries : Entries) :
    keylessEntries (file path added entries) =
      file path (added.map Descriptor.keyless) (keylessEntries entries) := by
  induction entries with
  | nil => rfl
  | cons entry rest ih =>
      simp only [keylessEntries] at ih ⊢
      rw [file, List.map_cons, file]
      by_cases same : entry.1 = path
      · simp [same]
      · by_cases before : path < entry.1
        · simp [same, before]
        · simp [same, before, ih]

theorem keyless_file_all (rename : String → String) (added entries : Entries) :
    keylessEntries (fileAll rename added entries) =
      fileAll rename (keylessEntries added) (keylessEntries entries) := by
  induction added generalizing entries with
  | nil => rfl
  | cons entry rest ih =>
      have step := ih (file (rename entry.1) entry.2 entries)
      rw [keyless_file] at step
      exact step

theorem keyless_merge (left right : Report) :
    (left.merge right).keyless = left.keyless.merge right.keyless :=
  congrArg Report.mk (keyless_file_all id right.entries left.entries)

theorem keyless_absorb (outer : String) (nested report : Report) :
    (absorb outer nested report).keyless = absorb outer nested.keyless report.keyless :=
  congrArg Report.mk (keyless_file_all (joinPath outer) nested.entries report.entries)

theorem keyless_isEmpty (report : Report) : report.keyless.isEmpty = report.isEmpty := by
  simp [keyless, keylessEntries, isEmpty]

end Report

namespace Outcome

/-- Wire keys are only written into descriptors. -/
theorem keyless_report (outcome : Outcome) (path key other : String) (raw : Option Value)
    (locale : String) :
    (outcome.report ⟨path, key, raw, locale⟩).keyless =
      (outcome.report ⟨path, other, raw, locale⟩).keyless := by
  cases outcome <;> rfl

/-- Inside a value, no key and no stored value of the place itself is written. -/
theorem keyless_of_report {left right : Report} (same : left.keyless = right.keyless)
    (path key other : String) (raw rawToo : Option Value) (locale : String) :
    ((ofReport left).report ⟨path, key, raw, locale⟩).keyless =
      ((ofReport right).report ⟨path, other, rawToo, locale⟩).keyless := by
  have empty : left.isEmpty = right.isEmpty := by
    rw [← left.keyless_isEmpty, ← right.keyless_isEmpty, same]
  rw [ofReport, ofReport, empty]
  cases right.isEmpty with
  | true => rfl
  | false =>
      simp only [Bool.false_eq_true, ↓reduceIte, report, Report.keyless_absorb, same]

theorem judged_report (outcome : Outcome) (value : Value) (site : Site) :
    (outcome.judged none value).report site = outcome.report site := by
  cases outcome <;> rfl

end Outcome

section Joined
variable {Entity : Type}

theorem keyless_fold_merge (units : List (Site × Work Entity)) (report : Report) :
    (units.foldl (fun merged unit => merged.merge (unit.2.outcome.report unit.1)) report).keyless =
      (units.map fun unit => (unit.2.outcome.report unit.1).keyless).foldl Report.merge
        report.keyless := by
  induction units generalizing report with
  | nil => rfl
  | cons first rest ih =>
      rw [List.foldl_cons, ih, Report.keyless_merge]
      rfl

/-- A join is told, up to wire keys, by the reports of its units. -/
theorem keyless_join {units others : List (Site × Work Entity)}
    (same : (units.map fun unit => (unit.2.outcome.report unit.1).keyless) =
      others.map fun unit => (unit.2.outcome.report unit.1).keyless) :
    (joinUnits units).1.keyless = (joinUnits others).1.keyless := by
  simp only [joinUnits, Work.run_all_units, keyless_fold_merge, same]

end Joined

namespace Scope

variable {Entity : Type} [DecidableEq Entity] (schema : Schema Entity) (locale : String)

/-- A scope without validators. -/
def unvalidated (remap : Bool) : Scope Entity := ⟨⟨remap⟩, .empty, locale⟩

/-- A part that is reported alike as itself and renamed. -/
def ReportedAlike (target : Entity) (part : Value) : Prop :=
  ((unvalidated locale true).entityReport schema target
      (schema.renamed (.entity target) part)).keyless =
    ((unvalidated locale false).entityReport schema target part).keyless

variable {schema locale}

theorem element_alike {target : Entity} {part : Value}
    (alike : ReportedAlike schema locale target part) (key other : String) (position : Position) :
    let unit := (unvalidated locale true).elementUnit target key position
      ((unvalidated locale true).inspect schema (schema.renamed (.entity target) part))
    let plain := (unvalidated locale false).elementUnit target other position
      ((unvalidated locale false).inspect schema part)
    (unit.2.outcome.report unit.1).keyless = (plain.2.outcome.report plain.1).keyless := by
  cases part with
  | object entries =>
      rw [ReportedAlike, schema.renamed_entity] at alike
      simp only [elementUnit, inspect_value, schema.renamed_entity, Work.outcome_join,
        Work.outcome_done]
      exact Outcome.keyless_of_report alike _ _ _ _ _ _
  | _ => rfl

/-- What a shape finds in a value is reported alike if the parts that it opens are. -/
theorem shape_alike {shape : Shape Entity} (name key other : String) (stored : Value)
    (inner : ∀ target position part, shape.Opens stored target position part →
      ReportedAlike schema locale target part) :
    (((unvalidated locale true).shapeOutcome schema shape key (schema.renamed shape stored)).report
        ⟨name, key, some (schema.renamed shape stored), locale⟩).keyless =
      (((unvalidated locale false).shapeOutcome schema shape other stored).report
        ⟨name, other, some stored, locale⟩).keyless := by
  cases accepted : shape.accepts stored with
  | false =>
      rw [schema.renamed_refused accepted, shape_refused _ _ _ _ _ accepted,
        shape_refused _ _ _ _ _ accepted]
      rfl
  | true =>
      cases shape with
      | enumeration choices =>
          have present : stored.isNull = false := by simpa [Shape.accepts] using accepted
          rw [schema.renamed_flat rfl, shape_outcome_enumeration _ _ _ _ _ present,
            shape_outcome_enumeration _ _ _ _ _ present]
          exact Outcome.keyless_report _ _ _ _ _ _
      | listOf type =>
          obtain ⟨items, rfl⟩ := Value.array_of_asArray stored accepted
          rw [schema.renamed_flat rfl, shape_outcome_list_of, shape_outcome_list_of]
          refine Outcome.keyless_of_report (keyless_join ?_) _ _ _ _ _ _
          rw [scalarUnits, scalarUnits, List.mapIdx_eq_zipIdx_map, List.mapIdx_eq_zipIdx_map,
            List.map_map, List.map_map]
          exact List.map_congr_left fun item _ => Outcome.keyless_report _ _ _ _ _ _
      | entity target =>
          obtain ⟨entries, rfl⟩ := Value.object_of_asObject stored accepted
          have alike := inner target none _ (.whole target entries)
          rw [ReportedAlike, schema.renamed_entity] at alike
          rw [schema.renamed_entity, shape_outcome_entity, shape_outcome_entity]
          exact Outcome.keyless_of_report alike _ _ _ _ _ _
      | entityList target =>
          obtain ⟨items, rfl⟩ := Value.array_of_asArray stored accepted
          rw [schema.renamed_list, shape_outcome_list, shape_outcome_list, inspect_items,
            inspect_items]
          refine Outcome.keyless_of_report (keyless_join ?_) _ _ _ _ _ _
          rw [List.zipIdx_map, List.map_map, List.map_map, List.map_map]
          refine List.map_congr_left fun item member => ?_
          have held := List.mem_zipIdx_iff_getElem?.mp member
          exact element_alike (inner target _ _ (.item target held)) key other (.index item.2)
      | entityMap target =>
          obtain ⟨entries, rfl⟩ := Value.object_of_asObject stored accepted
          rw [schema.renamed_map, shape_outcome_map, shape_outcome_map, inspect_entries,
            inspect_entries]
          refine Outcome.keyless_of_report (keyless_join ?_) _ _ _ _ _ _
          rw [List.map_map, List.map_map, List.map_map]
          refine List.map_congr_left fun entry member => ?_
          exact element_alike (inner target _ _ (.entry target member)) key other (.key entry.1)
      | _ =>
          rw [schema.renamed_flat rfl]
          simp only [shapeOutcome, demand, inspect_value, accepted]
          rfl

section Fields
variable {owner : Entity} {entries : List (String × Value)} {spec : FieldSpec Entity}

/-- A declared field is reported alike if the entities in it are. -/
theorem field_alike (apart : schema.KeysApart owner) (declared : spec ∈ schema.fields owner)
    (only : ∀ entry ∈ entries, ∃ spec ∈ schema.fields owner, spec.name = entry.1)
    (inner : ∀ stored target position part,
      schema.stored? ⟨false⟩ owner spec.name entries = some stored →
      spec.shape.Opens stored target position part → ReportedAlike schema locale target part) :
    ((unvalidated locale true).fieldReport schema owner spec (entries.map fun entry =>
        schema.renamedEntry owner (entry.1, fun shape => schema.renamed shape entry.2))).keyless =
      ((unvalidated locale false).fieldReport schema owner spec entries).keyless := by
  have moved := Schema.stored_renamed apart declared only
  simp only [fieldReport, fieldSite]
  change ((fieldOutcome _ _ _ _ none (schema.stored? ⟨true⟩ owner spec.name _)).report
    ⟨_, _, schema.stored? ⟨true⟩ owner spec.name _, _⟩).keyless =
    ((fieldOutcome _ _ _ _ none (schema.stored? ⟨false⟩ owner spec.name entries)).report
      ⟨_, _, schema.stored? ⟨false⟩ owner spec.name entries, _⟩).keyless
  rw [moved]
  cases found : schema.stored? ⟨false⟩ owner spec.name entries with
  | none =>
      rw [Option.map_none, fieldOutcome, fieldOutcome]
      exact Outcome.keyless_report _ _ _ _ _ _
  | some stored =>
      rw [Option.map_some, fieldOutcome, fieldOutcome,
        schema.renamed_fits Value.null_kind]
      cases stored.isNull && spec.isOptional with
      | true => rfl
      | false =>
          simp only [Bool.false_eq_true, ↓reduceIte, Outcome.judged_report]
          exact shape_alike spec.name _ _ stored fun target position part =>
            inner stored target position part found

end Fields

/-- Values with declared names only are reported alike. -/
theorem reported_alike (value : Value) :
    ∀ target, (∀ member, schema.Reaches target member → schema.KeysApart member) →
      schema.OnlyDeclared target value → ReportedAlike schema locale target value := by
  induction value using Value.map_induction with
  | other value scalar =>
      intro target _ _
      have refused : (Shape.entity target).accepts value = false := by
        simp [Shape.accepts, scalar]
      rw [ReportedAlike, schema.renamed_refused refused, entityReport, entityReport,
        inspect_other _ _ _ _ scalar, inspect_other _ _ _ _ scalar]
  | map entries ih =>
      intro target apart only
      rw [ReportedAlike, schema.renamed_entity, entityReport, entityReport]
      refine keyless_join ?_
      rw [field_units_object, field_units_object, List.map_map, List.map_map]
      refine List.map_congr_left fun spec declared => ?_
      simp only [Function.comp_apply, check_field_outcome]
      apply field_alike (apart target (.here target)) declared (Schema.only_declared_here only)
      intro stored inner position part found opens
      exact ih part (Shape.opens_within opens (Schema.stored_inside found)) inner
        (fun member reaches => apart member (.inside declared (Shape.opens_target opens) reaches))
        (Schema.only_declared_inside only declared found opens)

theorem validate_alike {entity : Entity} {value : Value}
    (apart : ∀ member, schema.Reaches entity member → schema.KeysApart member)
    (only : schema.OnlyDeclared entity value) :
    (validate (unvalidated locale true) schema entity
        (schema.renamed (.entity entity) value)).map (fun checked => checked.1.keyless) =
      (validate (unvalidated locale false) schema entity value).map
        fun checked => checked.1.keyless := by
  have alike : ReportedAlike schema locale entity value := reported_alike value entity apart only
  cases value with
  | object entries =>
      rw [ReportedAlike, schema.renamed_entity] at alike
      rw [schema.renamed_entity]
      exact congrArg Except.ok alike
  | _ => rfl

end Scope

end Interchange
