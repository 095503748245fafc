import Interchange.Proofs.FindingRules
import Interchange.Proofs.ReportContents
/-!
The report of an entity holds its findings: every finding is filed under the text of its steps,
once for each time that the rules give it, and nothing else is filed.
-/
namespace Interchange

variable {Entity : Type}

theorem kind_of_accepts (shape : Shape Entity) (stored : Value)
    (accepted : shape.accepts stored = true) : stored.kind ∈ shape.kinds := by
  cases shape <;> cases stored <;>
    simp_all [Shape.accepts, Shape.kinds, Value.kind, Value.isNull, Value.asBool?, Value.isNumber,
      Value.asText?, Value.asBinary?, Value.asArray?, Value.asObject?]

/-- Only a text that has to hold bytes needs more than the right kind. -/
theorem accepts_of_kind (shape : Shape Entity) (stored : Value)
    (other : ∀ text, shape = .bytes → stored ≠ .str text) (kind : stored.kind ∈ shape.kinds) :
    shape.accepts stored = true := by
  cases shape <;> cases stored <;>
    simp_all [Shape.accepts, Shape.kinds, Value.kind, Value.isNull, Value.asBool?, Value.isNumber,
      Value.asText?, Value.asBinary?, Value.asArray?, Value.asObject?]

/-- What is filed for nested findings, a step further out. -/
theorem listed_under (step : Step) {listed : List (String × Descriptor)} {found : List Finding}
    (entered : ∀ finding ∈ found, finding.steps ≠ [])
    (same : listed.Perm (found.map Placed.filed)) :
    (listed.map fun pair => (joinPath step.text pair.1, pair.2)).Perm
      ((found.map (.under step)).map Placed.filed) := by
  have joined : (found.map (.under step)).map Placed.filed =
      (found.map Placed.filed).map fun pair => (joinPath step.text pair.1, pair.2) := by
    rw [List.map_map, List.map_map]
    apply List.map_congr_left
    intro finding member
    simp only [Function.comp_apply, Placed.filed, Placed.under]
    rw [path_text_enter step finding.steps (entered finding member)]
  rw [joined]
  exact same.map _

namespace Outcome
variable (validator : Option Validator) (value : Value) {outcome : Outcome}

theorem judged_passing (passes : outcome.isFailure = false) :
    outcome.judged validator value = Outcome.valid.judged validator value := by
  rw [judged, judged, passes]
  rfl

theorem judged_failing (fails : outcome.isFailure = true) :
    outcome.judged validator value = outcome := by
  rw [judged, if_pos fails]

end Outcome

namespace Scope

variable (scope : Scope Entity) [DecidableEq Entity] (schema : Schema Entity)

theorem inspect_items (items : List Value) (target : Entity) (key : String) :
    (scope.inspect schema (.array items)).elements target key =
      items.zipIdx.map fun item =>
        scope.elementUnit target key (.index item.2) (scope.inspect schema item.1) := by
  rw [inspect, Value.fold_array]
  simp [prepare, List.mapIdx_eq_zipIdx_map, List.zipIdx_map, inspect]

theorem inspect_entries (entries : List (String × Value)) (target : Entity) (key : String) :
    (scope.inspect schema (.object entries)).elements target key =
      entries.map fun entry =>
        scope.elementUnit target key (.key entry.1) (scope.inspect schema entry.2) := by
  rw [inspect, Value.fold_object]
  simp [prepare, inspect]

/-- What there is to show of a value: its report holds its findings. -/
def ListsFindings (target : Entity) (value : Value) : Prop :=
  (scope.entityReport schema target value).listed.Perm
    ((scope.findings schema target value).map Placed.filed)

theorem listed_element (name key : String) (target : Entity) (position : Position) (part : Value)
    (inner : scope.ListsFindings schema target part) :
    let unit := scope.elementUnit target key position (scope.inspect schema part)
    ((unit.2.outcome.report unit.1).listed.map fun pair => (joinPath name pair.1, pair.2)).Perm
      ((scope.openingFindings (scope.findings schema) name key
        ⟨target, some position, part⟩).map Placed.filed) := by
  intro unit
  cases object : part.asObject? with
  | some entries =>
      obtain ⟨entries, rfl⟩ := Value.object_of_asObject part (by simp [object])
      have ended : unit.2.outcome = .ofReport (scope.entityReport schema target (.object entries)) := by
        simp only [unit, elementUnit, inspect_value, Work.outcome_join, Work.outcome_done]
        rfl
      have nested := listed_under ⟨name, some position⟩
        (fun finding => scope.findings_entered schema) inner
      have outward := (Outcome.listed_of_report (scope.entityReport schema target (.object entries))
        unit.1).map fun pair => (joinPath name pair.1, pair.2)
      rw [ended, opening_findings_object]
      refine outward.trans ?_
      simp only [List.map_map, Function.comp_def, unit, elementUnit, join_join_position] at nested ⊢
      exact nested
  | none =>
      have ended : unit.2.outcome = .incompatible := by
        cases part <;> simp_all [unit, elementUnit, inspect_value, Value.asObject?]
      rw [ended, opening_findings_other _ _ _ _ _ _ _ object, Outcome.report, Report.listed_single]
      simp [unit, elementUnit, inspect_value, finding, Placed.filed, pathText, step_text_position,
        join_position_alone]

/-- A join of the elements' units files what the opened parts' findings are. -/
theorem listed_elements {ι : Type} (name key : String) (stored : Option Value) (target : Entity)
    (items : List ι) (place : ι → Position) (part : ι → Value)
    (inner : ∀ item ∈ items, scope.ListsFindings schema target (part item)) :
    ((Outcome.ofReport (joinUnits (items.map fun item =>
        scope.elementUnit target key (place item) (scope.inspect schema (part item)))).1).report
        ⟨name, key, stored, scope.locale⟩).listed.Perm
      (((items.map fun item => (⟨target, some (place item), part item⟩ : Opening Entity)).flatMap
        (scope.openingFindings (scope.findings schema) name key)).map Placed.filed) := by
  refine (Outcome.listed_of_report _ _).trans (((listed_join _).map _).trans ?_)
  rw [List.map_flatMap, List.map_flatMap, List.flatMap_map, List.flatMap_map]
  exact .flatMap_left items fun item member =>
    scope.listed_element schema name key target (place item) (part item) (inner item member)

omit [DecidableEq Entity] in
theorem listed_scalars (name key : String) (stored : Option Value) (type : ScalarType)
    (items : List Value) :
    ((Outcome.ofReport (joinUnits (scope.scalarUnits type key items)).1).report
        ⟨name, key, stored, scope.locale⟩).listed.Perm
      ((scope.contentFindings name key (.listOf type) (.array items)).map Placed.filed) := by
  refine (Outcome.listed_of_report _ _).trans (((listed_join _).map _).trans ?_)
  rw [scalarUnits, List.mapIdx_eq_zipIdx_map, contentFindings, List.map_flatMap, List.map_flatMap,
    List.flatMap_map]
  refine .flatMap_left _ fun item member => ?_
  cases read : type.read? item.1 with
  | some found => simp [read, Outcome.report, Report.listed_empty]
  | none =>
      simp [read, Outcome.report, Report.listed_single, finding, Placed.filed, pathText,
        step_text_position, join_position_alone]

omit [DecidableEq Entity] in
/-- A value that the outermost test refuses has one finding. -/
theorem refused_findings (inside : Entity → Value → List Finding) (name : String)
    (shape : Shape Entity) (key : String) (stored : Value)
    (refused : shape.accepts stored = false) :
    scope.shapeFindings inside name shape key stored =
      [scope.finding .incompatible none name none key (some stored)] := by
  by_cases kind : stored.kind ∈ shape.kinds
  · by_cases carried : ∃ text, shape = .bytes ∧ stored = .str text
    · obtain ⟨text, rfl, rfl⟩ := carried
      have bare : (DataUri.bytes? text).isSome = false := refused
      simp [shapeFindings, kind, contentFindings, bare, Shape.openings]
    · have accepted := accepts_of_kind shape stored
        (fun text bytes same => carried ⟨text, bytes, same⟩) kind
      rw [refused] at accepted
      contradiction
  · rw [shapeFindings, if_neg kind]

omit [DecidableEq Entity] in
theorem listed_choices (name : String) (choices : Enumeration) (key : String) (stored : Value) :
    ((choices.check stored).report ⟨name, key, some stored, scope.locale⟩).listed =
      (scope.contentFindings name key (.enumeration choices : Shape Entity) stored).map
        Placed.filed := by
  rw [Enumeration.check, contentFindings]
  cases choices.raw.read? stored with
  | none => simp [Outcome.report, Report.listed_single, finding, Placed.filed, pathText, step_text_whole]
  | some raw =>
      cases named : choices.ofRaw? raw with
      | none =>
          simp [named, Outcome.report, Report.listed_single, finding, Placed.filed, pathText,
            step_text_whole]
      | some case => simp [named, Outcome.report, Report.listed_empty]

/-- The outcome of a shape files the shape's findings. -/
theorem listed_shape (name : String) (shape : Shape Entity) (key : String) (stored : Value)
    (inner : ∀ target part, part = stored ∨ Value.Inside part stored →
      scope.ListsFindings schema target part) :
    ((scope.shapeOutcome schema shape key stored).report
        ⟨name, key, some stored, scope.locale⟩).listed.Perm
      ((scope.shapeFindings (scope.findings schema) name shape key stored).map Placed.filed) := by
  cases accepted : shape.accepts stored with
  | false =>
      rw [shape_refused scope schema shape key stored accepted, Outcome.report,
        Report.listed_single, refused_findings scope _ name shape key stored accepted]
      simp [finding, Placed.filed, pathText, step_text_whole]
  | true =>
      rw [shapeFindings, if_pos (kind_of_accepts shape stored accepted), List.map_append]
      simp only [shapeOutcome, demand, inspect_value, accepted, Bool.not_true, Bool.false_eq_true,
        ↓reduceIte]
      cases shape with
      | enumeration choices =>
          rw [← listed_choices]
          simp [Shape.openings]
      | listOf type =>
          obtain ⟨items, rfl⟩ := Value.array_of_asArray stored accepted
          simpa [Shape.openings, Value.asArray?] using
            scope.listed_scalars name key (some (.array items)) type items
      | entity target =>
          obtain ⟨entries, rfl⟩ := Value.object_of_asObject stored accepted
          have nested := listed_under ⟨name, none⟩
            (fun finding => scope.findings_entered schema) (inner target _ (Or.inl rfl))
          refine (Outcome.listed_of_report _ _).trans ?_
          simpa [contentFindings, Shape.openings, opening_findings_object, step_text_whole,
            entityReport] using nested
      | entityList target =>
          obtain ⟨items, rfl⟩ := Value.array_of_asArray stored accepted
          have elements := scope.listed_elements schema name key (some (.array items)) target
            items.zipIdx (fun item => .index item.2) (fun item => item.1) fun item member =>
              inner target item.1 (Or.inr (.item (List.fst_mem_of_mem_zipIdx member)))
          rw [← inspect_items] at elements
          exact elements
      | entityMap target =>
          obtain ⟨entries, rfl⟩ := Value.object_of_asObject stored accepted
          have elements := scope.listed_elements schema name key (some (.object entries)) target
            entries (fun entry => .key entry.1) (fun entry => entry.2) fun entry member =>
              inner target entry.2 (Or.inr (.entry member))
          rw [← inspect_entries] at elements
          exact elements
      | bytes =>
          have clean : scope.contentFindings name key (.bytes : Shape Entity) stored = [] := by
            cases stored <;> simp_all [contentFindings, Shape.accepts, Value.asBinary?]
          simp [clean, Shape.openings, Outcome.report, Report.listed_empty]
      | _ => simp [contentFindings, Shape.openings, Outcome.report, Report.listed_empty]

theorem shape_outcome_telling (shape : Shape Entity) (key : String) (stored : Value) :
    (scope.shapeOutcome schema shape key stored).Telling := by
  cases accepted : shape.accepts stored with
  | false =>
      rw [shape_refused scope schema shape key stored accepted]
      trivial
  | true =>
      simp only [shapeOutcome, demand, inspect_value, accepted]
      cases shape with
      | enumeration choices =>
          simp only [Enumeration.check]
          cases choices.raw.read? stored with
          | none => trivial
          | some raw =>
              change (if (choices.ofRaw? raw).isSome then Outcome.valid else .unknownCase).Telling
              split <;> trivial
      | listOf type => exact Outcome.of_report_telling _
      | entity target => exact Outcome.of_report_telling _
      | entityList target => exact Outcome.of_report_telling _
      | entityMap target => exact Outcome.of_report_telling _
      | _ => trivial

/-- A shape is passed exactly if it finds nothing, nested entities included. -/
theorem shape_passes (name : String) (shape : Shape Entity) (key : String) (stored : Value)
    (inner : ∀ target part, part = stored ∨ Value.Inside part stored →
      scope.ListsFindings schema target part) :
    (scope.shapeOutcome schema shape key stored).isFailure = false ↔
      scope.shapeFindings (scope.findings schema) name shape key stored = [] := by
  have sound := shape_outcome_sound scope schema shape key stored
    fun target part _ => entity_report_wellformed scope schema part target
  have listed := scope.listed_shape schema name shape key stored inner
  rw [Outcome.passes_iff_blank _ ⟨name, key, some stored, scope.locale⟩
    (scope.shape_outcome_telling schema shape key stored) sound]
  constructor
  · intro blank
    rw [blank] at listed
    exact List.map_eq_nil_iff.mp listed.nil_eq.symm
  · intro nothing
    rw [nothing] at listed
    exact listed.eq_nil

theorem listed_verdict (owner : Entity) (name key : String) (stored : Value) :
    ((Outcome.valid.judged (scope.registry.get? owner name) stored).report
        ⟨name, key, some stored, scope.locale⟩).listed =
      (scope.verdictFindings owner name key stored).map Placed.filed := by
  simp only [Outcome.judged, Outcome.isFailure, Bool.false_eq_true, ↓reduceIte, verdictFindings]
  cases (scope.registry.get? owner name).bind fun check => (check stored).code with
  | none => rfl
  | some code =>
      simp [Outcome.report, Report.listed_single, finding, Placed.filed, pathText, step_text_whole]

theorem listed_field (owner : Entity) (spec : FieldSpec Entity) (entries : List (String × Value))
    (inner : ∀ target part, Value.Inside part (.object entries) →
      scope.ListsFindings schema target part) :
    (scope.fieldReport schema owner spec entries).listed.Perm
      ((scope.fieldFindings schema (scope.findings schema) owner spec entries).map
        Placed.filed) := by
  simp only [fieldReport, fieldSite, fieldFindings]
  cases found : schema.stored? scope.options owner spec.name entries with
  | none =>
      rw [fieldOutcome]
      cases spare : spec.isOptional with
      | true => exact .nil
      | false =>
          simp [Outcome.report, Report.listed_single, finding, Placed.filed, pathText,
            step_text_whole]
  | some stored =>
      rw [fieldOutcome]
      by_cases skipped : (stored.isNull && spec.isOptional) = true
      · simp only [skipped, ↓reduceIte]
        exact .nil
      · have held := Schema.stored_inside found
        have nested : ∀ target part, part = stored ∨ Value.Inside part stored →
            scope.ListsFindings schema target part := fun target part within =>
          inner target part (within.elim (fun whole => whole ▸ held) (.deeper · held))
        have listed := scope.listed_shape schema spec.name spec.shape
          (wireKey (schema.wireKeys owner) spec.name scope.options) stored nested
        have passes := scope.shape_passes schema spec.name spec.shape
          (wireKey (schema.wireKeys owner) spec.name scope.options) stored nested
        simp only [skipped, Bool.false_eq_true, ↓reduceIte]
        split
        · rename_i nothing
          rw [Outcome.judged_passing _ _ (passes.mpr nothing), ← listed_verdict]
        · rename_i something
          rw [Outcome.judged_failing _ _ (eq_true_of_ne_false (mt passes.mp something))]
          exact listed

theorem entity_listed (owner : Entity) (entries : List (String × Value)) :
    (scope.entityReport schema owner (.object entries)).listed.Perm
      ((schema.fields owner).flatMap fun spec =>
        (scope.fieldReport schema owner spec entries).listed) := by
  refine (listed_join _).trans ?_
  rw [field_units_object, List.flatMap_map]
  refine .flatMap_left _ fun spec _ => ?_
  rw [check_field_outcome]
  exact .refl _

/-- The report of an entity holds its findings and nothing else. -/
theorem lists_findings (value : Value) : ∀ target, scope.ListsFindings schema target value := by
  induction value using Value.map_induction with
  | other value scalar =>
      intro target
      rw [ListsFindings, entityReport, inspect_other scope schema value target scalar,
        findings_other scope schema target value scalar]
      exact .nil
  | map entries ih =>
      intro target
      rw [ListsFindings, findings_object, List.map_flatMap]
      refine (scope.entity_listed schema target entries).trans (.flatMap_left _ ?_)
      intro spec _
      exact scope.listed_field schema target spec entries
        fun nested part inside => ih part inside nested

end Scope
end Interchange
