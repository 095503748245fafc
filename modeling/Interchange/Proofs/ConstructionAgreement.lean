import Interchange.Proofs.FailurePlaces
import Interchange.Proofs.WellReadFindings
/-!
Validation and building agree on which maps are entities. A map with a clean report is built. A map
that is built may still have a report, but only for two reasons that building does not look
at: a validator rejected a value, or an optional field holds something of another outer shape,
which counts as nothing.
-/
namespace Interchange

variable {Entity : Type}

/-- No field that is reached passes raw values on. -/
def Schema.Typed (schema : Schema Entity) (entity : Entity) : Prop :=
  ∀ member, schema.Reaches entity member → ∀ spec ∈ schema.fields member,
    spec.shape.isTyped = true

theorem Schema.typed_target (schema : Schema Entity) {entity target : Entity}
    {spec : FieldSpec Entity} (typed : schema.Typed entity) (declared : spec ∈ schema.fields entity)
    (leads : spec.shape.target? = some target) : schema.Typed target :=
  fun member reached => typed member (.inside declared leads reached)

namespace Scope

variable [DecidableEq Entity] (scope : Scope Entity) (schema : Schema Entity)

/-- An entry of a report that does not keep an entity from being built. -/
inductive Tolerated (entity : Entity) (value : Value) : String → Descriptor → Prop where
  | rejected {steps : List Step} {owner : Entity} {entries : List (String × Value)}
      {spec : FieldSpec Entity} {stored : Value} {check : Validator} {code : String}
      (visit : schema.Visits scope.options entity value steps owner entries)
      (declared : spec ∈ schema.fields owner)
      (found : schema.stored? scope.options owner spec.name entries = some stored)
      (asked : scope.registry.get? owner spec.name = some check)
      (refused : (check stored).code = some code) :
      Tolerated entity value (pathText (steps ++ [⟨spec.name, none⟩]))
        ⟨.rejected, some code, wireKey (schema.wireKeys owner) spec.name scope.options,
          some stored, scope.locale⟩
  | forgiven {steps : List Step} {owner : Entity} {entries : List (String × Value)}
      {spec : FieldSpec Entity} {stored : Value}
      (visit : schema.Visits scope.options entity value steps owner entries)
      (declared : spec ∈ schema.fields owner) (spare : spec.isOptional = true)
      (found : schema.stored? scope.options owner spec.name entries = some stored)
      (present : stored.isNull = false) (misshapen : spec.shape.accepts stored = false) :
      Tolerated entity value (pathText (steps ++ [⟨spec.name, none⟩]))
        ⟨.incompatible, none, wireKey (schema.wireKeys owner) spec.name scope.options,
          some stored, scope.locale⟩

section Fields
variable {entity : Entity} {entries : List (String × Value)} {spec : FieldSpec Entity}

theorem tolerated_inside {stored part : Value} {target : Entity} {position : Option Position}
    {path : String} {descriptor : Descriptor} (declared : spec ∈ schema.fields entity)
    (found : schema.stored? scope.options entity spec.name entries = some stored)
    (opens : spec.shape.Opens stored target position part)
    (inner : scope.Tolerated schema target part path descriptor) :
    scope.Tolerated schema entity (.object entries)
      (joinPath (Step.text ⟨spec.name, position⟩) path) descriptor := by
  cases inner with
  | rejected visit owned held asked refused =>
      rw [← path_text_enter _ _ (by simp)]
      exact .rejected (.inside declared found opens visit) owned held asked refused
  | forgiven visit owned spare held present misshapen =>
      rw [← path_text_enter _ _ (by simp)]
      exact .forgiven (.inside declared found opens visit) owned spare held present misshapen

/-- What remains to be found in a well-read field is tolerated, or stands further inside. -/
theorem remaining_tolerated {stored : Value} {path : String} {descriptor : Descriptor}
    (declared : spec ∈ schema.fields entity)
    (held : schema.stored? scope.options entity spec.name entries = some stored)
    (remaining : scope.Remaining schema spec
      (wireKey (schema.wireKeys entity) spec.name scope.options)
      (scope.registry.get? entity spec.name) stored path descriptor)
    (inside : ∀ target position inner built within,
      spec.shape.Opens stored target position (.object inner) →
      schema.decode scope.options target (.object inner) = .ok built →
      (scope.entityReport schema target (.object inner)).Files within descriptor →
      scope.Tolerated schema target (.object inner) within descriptor) :
    scope.Tolerated schema entity (.object entries) path descriptor := by
  have here : schema.Visits scope.options entity (.object entries) [] entity entries :=
    .here entity entries
  have whole : pathText ([] ++ [(⟨spec.name, none⟩ : Step)]) = spec.name := step_text_whole _
  cases remaining with
  | rejected looked asked refused =>
      have tolerated := Tolerated.rejected here declared held asked refused
      rwa [whole] at tolerated
  | forgiven spare present misshapen =>
      have tolerated := Tolerated.forgiven here declared spare held present misshapen
      rwa [whole] at tolerated
  | nested opens ended filed =>
      exact tolerated_inside scope schema declared held opens
        (inside _ _ _ _ _ opens ended filed)

end Fields

theorem built_tolerated (value : Value) :
    ∀ entity entries built, value = .object entries → schema.Conforming entity →
      schema.Typed entity → schema.decode scope.options entity (.object entries) = .ok built →
      ∀ path descriptor,
        (scope.entityReport schema entity (.object entries)).Files path descriptor →
        scope.Tolerated schema entity (.object entries) path descriptor := by
  induction value using Value.inside_induction with
  | step value ih =>
      rintro entity entries built rfl conforming typed ended path descriptor files
      obtain ⟨spec, declared, filed⟩ := (files_entity scope schema entity entries _ _).mp files
      have finding := (files_field scope schema entity spec entries _ _).mp filed
      rw [Schema.decode_object] at ended
      obtain ⟨how, found, suits, read⟩ :=
        follows_run_ok _ (conforming entity (.here entity)) (by simp) ended spec declared
      have well := well_read schema scope.options entity entries suits
        (typed entity (.here entity) spec declared) read
      obtain ⟨stored, held, remaining⟩ := well_read_remaining well finding
      apply remaining_tolerated scope schema declared held remaining
      intro target position inner inBuilt within opens inEnded inFiles
      have leads := Shape.opens_target opens
      have outer : Value.Inside stored (.object entries) :=
        .entry (Value.mem_of_lookup _ _ _ held)
      have smaller : Value.Inside (.object inner) (.object entries) := by
        rcases Shape.opens_inside opens with same | deeper
        · exact same ▸ outer
        · exact .deeper deeper outer
      exact ih _ smaller target inner inBuilt rfl
        (schema.conforming_target conforming declared leads)
        (schema.typed_target typed declared leads) inEnded within descriptor inFiles

/-- A clean report means that the entity is built; an entity that is built has tolerated
entries only. -/
theorem report_decides_building (entity : Entity) (value : Value)
    (conforming : schema.Conforming entity) (typed : schema.Typed entity) :
    (∀ report calls, scope.validate schema entity value = .ok (report, calls) →
      report.isEmpty = true → ∃ built, schema.decode scope.options entity value = .ok built) ∧
    (∀ built, schema.decode scope.options entity value = .ok built →
      ∃ report calls, scope.validate schema entity value = .ok (report, calls) ∧
        ∀ path descriptors, (path, descriptors) ∈ report.entries →
          ∀ descriptor ∈ descriptors, scope.Tolerated schema entity value path descriptor) := by
  constructor
  · intro report calls validated clean
    cases object : value.asObject? with
    | none =>
        cases value <;> simp_all [validate, Value.asObject?]
    | some entries =>
        obtain ⟨entries, rfl⟩ := Value.object_of_asObject value (by simp [object])
        rw [validate_object, Except.ok.injEq, Prod.mk.injEq] at validated
        obtain ⟨rfl, -⟩ := validated
        cases ended : schema.decode scope.options entity (.object entries) with
        | ok built => exact ⟨built, rfl⟩
        | error failure =>
            have nothing := Report.not_files_of_isEmpty _ clean
            obtain ⟨path, descriptor, -, mirrored⟩ :=
              failure_mirrored scope schema _ entity entries failure rfl conforming ended
            generalize descriptor.category = category at mirrored
            cases mirrored with
            | place _ _ _ files => exact absurd files (nothing _ _)
            | element _ _ _ files => exact absurd files (nothing _ _)
  · intro built ended
    cases object : value.asObject? with
    | none =>
        rw [Schema.decode_other schema scope.options entity value object] at ended
        contradiction
    | some entries =>
        obtain ⟨entries, rfl⟩ := Value.object_of_asObject value (by simp [object])
        refine ⟨_, _, validate_object scope schema entity entries, ?_⟩
        intro path descriptors member descriptor inside
        exact built_tolerated scope schema _ entity entries built rfl conforming typed ended path
          descriptor ⟨descriptors, member, inside⟩

/-- A movement whose comment is a number is built without it; the report names the comment. -/
theorem comment_decides_building :
    let scope : Scope Ledger := ⟨⟨true⟩, .empty, "en"⟩
    let value := Value.object [("side", .str "credit"), ("comment", .bool true)]
    (∃ built, Ledger.schema.decode ⟨true⟩ .movement value = .ok built) ∧
    (∀ report calls, scope.validate Ledger.schema .movement value = .ok (report, calls) →
      report.isEmpty = true →
        ∃ built, Ledger.schema.decode ⟨true⟩ .movement value = .ok built) ∧
    (∀ built, Ledger.schema.decode ⟨true⟩ .movement value = .ok built →
      ∃ report calls, scope.validate Ledger.schema .movement value = .ok (report, calls) ∧
        ∀ path descriptors, (path, descriptors) ∈ report.entries →
          ∀ descriptor ∈ descriptors,
            scope.Tolerated Ledger.schema .movement value path descriptor) := by
  intro scope value
  have typed : Ledger.schema.Typed .movement := by
    intro member _ spec declared
    cases member <;> simp [Ledger.table, Row.text, Row.needed, Row.spare, Row.scalarList,
      Row.list, Row.case, Row.optionalText] at declared <;>
      rcases declared with rfl | rfl | rfl <;> rfl
  exact ⟨⟨_, rfl⟩,
    report_decides_building scope Ledger.schema .movement value (Ledger.conforms _) typed⟩

end Scope

end Interchange
