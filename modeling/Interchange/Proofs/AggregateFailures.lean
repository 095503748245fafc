import Interchange.Proofs.FieldReads
import Interchange.Proofs.ValidatorCalls
/-!
What leaves a decode that validates. A value that is no map fails as such; whatever else goes
wrong, before building or in it, leaves as one report that can be shown as it is.
-/
namespace Interchange

theorem Value.object_of_kind {value : Value} (object : value.kind = .object) :
    ∃ entries, value = .object entries := by
  cases value with
  | object entries => exact ⟨entries, rfl⟩
  | _ => contradiction

namespace Failure

inductive AtField : Failure → Prop where
  | field (fault : FieldFault) : AtField (.field fault)
  | nested (name : String) (position : Option Position) (source : Failure) :
      AtField (.nested name position source)

/-- The descriptor of a failure is in the locale that is asked for, however deep its source. -/
theorem field_error_locale (failure : Failure) (locale path : String) (descriptor : Descriptor)
    (located : failure.fieldError locale = some (path, descriptor)) :
    descriptor.locale = locale := by
  induction failure generalizing path with
  | field fault =>
      simp only [fieldError, Option.some.injEq, Prod.mk.injEq] at located
      rw [← located.2]
  | nested name position source ih =>
      cases inner : source.fieldError locale with
      | some found =>
          obtain ⟨within, deeper⟩ := found
          simp only [fieldError, inner, Option.some.injEq, Prod.mk.injEq] at located
          exact ih within (located.2 ▸ inner)
      | none =>
          simp only [fieldError, inner, Option.some.injEq, Prod.mk.injEq] at located
          rw [← located.2]
  | _ => simp [fieldError] at located

theorem at_field_located {failure : Failure} (atField : failure.AtField) (locale : String) :
    ∃ path descriptor, failure.fieldError locale = some (path, descriptor) := by
  cases atField with
  | field fault => exact ⟨_, _, rfl⟩
  | nested name position source =>
      rw [fieldError]
      cases source.fieldError locale with
      | some found => exact ⟨_, _, rfl⟩
      | none => exact ⟨_, _, rfl⟩

end Failure

namespace Fields

variable {Entity : Type} {Carrier : Entity → Type} {α : Type}

section Combinators
variable (fields : Fields Carrier) (name : String) {read : Part Carrier → Except Failure α}
  (each : ∀ part failure, read part = .error failure → failure.AtField) {failure : Failure}
include each

theorem demand_at_field (failed : fields.demand name read = .error failure) :
    failure.AtField := by
  rw [demand] at failed
  cases held : fields.part? name with
  | some part =>
      rw [held] at failed
      exact each part failure failed
  | none =>
      rw [held] at failed
      exact Except.error.inj failed ▸ .field _

theorem offer_at_field (fits : Value → Bool)
    (failed : fields.offer name fits read = .error failure) : failure.AtField := by
  rw [offer] at failed
  split at failed
  · split at failed
    · rename_i part _ _
      cases ended : read part with
      | ok found => simp [ended, Except.map] at failed
      | error source =>
          rw [ended] at failed
          exact Except.error.inj failed ▸ each part source ended
    · contradiction
  · contradiction

end Combinators

theorem collect_items_at_field (name : String) (index : Nat) (collected : List α)
    (results : List (Except Failure α)) (failure : Failure)
    (failed : collectItems name index collected results = .error failure) : failure.AtField := by
  obtain ⟨place, source, -, rfl⟩ := collect_items_error name index collected results failure failed
  exact .nested _ _ _

variable (fields : Fields Carrier) (name : String) {failure : Failure}

theorem scalar_at_field (type : ScalarType) (raw : Value)
    (failed : fields.scalar name type raw = .error failure) : failure.AtField := by
  unfold scalar at failed
  split at failed
  · contradiction
  · exact Except.error.inj failed ▸ .field _

theorem scalar_list_at_field (type : ScalarType) (raw : Value)
    (failed : fields.scalarList name type raw = .error failure) : failure.AtField := by
  unfold scalarList at failed
  split at failed
  · exact collect_items_at_field name _ _ _ failure failed
  · exact Except.error.inj failed ▸ .field _

theorem case_at_field (choices : Enumeration) (raw : Value)
    (failed : fields.case name choices raw = .error failure) : failure.AtField := by
  unfold case at failed
  split at failed
  · exact Except.error.inj failed ▸ .field _
  · split at failed
    · contradiction
    · exact Except.error.inj failed ▸ .field _

theorem entity_at_field (target : Entity) (part : Part Carrier)
    (failed : fields.entity name target part = .error failure) : failure.AtField := by
  unfold entity at failed
  split at failed
  · cases ended : part.asEntity target with
    | ok found => simp [ended, Except.mapError] at failed
    | error source =>
        rw [ended] at failed
        exact Except.error.inj failed ▸ .nested _ _ _
  · exact Except.error.inj failed ▸ .field _

theorem list_at_field (target : Entity) (part : Part Carrier)
    (failed : fields.list name target part = .error failure) : failure.AtField := by
  unfold list at failed
  split at failed
  · exact collect_items_at_field name _ _ _ failure failed
  · exact Except.error.inj failed ▸ .field _

theorem keyed_at_field (target : Entity) (part : Part Carrier)
    (failed : fields.keyed name target part = .error failure) : failure.AtField := by
  unfold keyed at failed
  split at failed
  · obtain ⟨key, source, -, rfl⟩ := collect_entries_error name _ _ failure failed
    exact .nested _ _ _
  · exact Except.error.inj failed ▸ .field _

/-- Every way to read a field fails at the field. -/
theorem read_at_field (how : FieldRead Entity)
    (failed : fields.read name how = .error failure) : failure.AtField := by
  cases how with
  | wireKey => contradiction
  | lookup => contradiction
  | optional type => contradiction
  | required type =>
      exact fields.demand_at_field name (fun _ _ => fields.scalar_at_field name type _) failed
  | scalarList type =>
      exact fields.demand_at_field name (fun _ _ => fields.scalar_list_at_field name type _) failed
  | enumeration choices =>
      exact fields.demand_at_field name (fun _ _ => fields.case_at_field name choices _) failed
  | optionalEnumeration choices =>
      exact fields.offer_at_field name (fun _ _ => fields.case_at_field name choices _) _ failed
  | entity target =>
      exact fields.demand_at_field name (fun _ _ => fields.entity_at_field name target _) failed
  | optionalEntity target =>
      exact fields.offer_at_field name (fun _ _ => fields.entity_at_field name target _) _ failed
  | list target =>
      exact fields.demand_at_field name (fun _ _ => fields.list_at_field name target _) failed
  | optionalList target =>
      exact fields.offer_at_field name (fun _ _ => fields.list_at_field name target _) _ failed
  | keyed target =>
      exact fields.demand_at_field name (fun _ _ => fields.keyed_at_field name target _) failed
  | optionalKeyed target =>
      exact fields.offer_at_field name (fun _ _ => fields.keyed_at_field name target _) _ failed

end Fields

namespace Schema

variable {Entity : Type} (schema : Schema Entity)

/-- All failures of an entity's reading are failures of its reads of fields. -/
def RelaysReads (entity : Entity) : Prop :=
  ∀ fields failure, (schema.reading entity).run fields = .error failure →
    ∃ name how, fields.read name how = .error failure

theorem conforming_relays {entity : Entity} (conforming : schema.Conforming entity) :
    schema.RelaysReads entity := by
  intro fields failure failed
  obtain ⟨spec, -, how, -, read⟩ :=
    follows_run_error fields (conforming entity (.here entity)) (by simp) failed
  exact ⟨spec.name, how, read⟩

variable {schema}

theorem decode_at_field {entity : Entity} (relays : schema.RelaysReads entity)
    {options : Options} {entries : List (String × Value)} {failure : Failure}
    (failed : schema.decode options entity (.object entries) = .error failure) :
    failure.AtField := by
  rw [decode_object] at failed
  obtain ⟨name, how, read⟩ := relays _ failure failed
  exact Fields.read_at_field _ name how read

end Schema

/-- A report that can be shown: there are paths, each with descriptors, all in one locale. -/
structure Report.Presentable (report : Report) (locale : String) : Prop where
  nonempty : report.entries ≠ []
  filled : ∀ entry ∈ report.entries, entry.2 ≠ []
  localized : ∀ entry ∈ report.entries, ∀ descriptor ∈ entry.2, descriptor.locale = locale

theorem Report.single_presentable (path : String) (descriptor : Descriptor) :
    (Report.single path descriptor).Presentable descriptor.locale where
  nonempty := by simp [single, push, empty, file]
  filled := (single_wellformed path descriptor).2
  localized := by
    intro entry member filed inside
    have files : (single path descriptor).Files entry.1 filed := ⟨entry.2, member, inside⟩
    rw [((files_single _ _ _ _).mp files).2]

variable {Entity : Type} [DecidableEq Entity]

namespace Scope

variable (scope : Scope Entity) (schema : Schema Entity)

/-- One field: descriptors are in the locale of the check, if those of its parts are. -/
theorem field_finding_locale {spec : FieldSpec Entity} {key : String}
    {validator : Option Validator} {stored : Option Value} {path : String}
    {descriptor : Descriptor}
    (finding : scope.FieldFinding schema spec key validator stored path descriptor)
    (inside : ∀ held target position part within, stored = some held →
      spec.shape.Opens held target position part →
      (scope.entityReport schema target part).Files within descriptor →
        descriptor.locale = scope.locale) :
    descriptor.locale = scope.locale := by
  cases finding with
  | missing => rfl
  | rejected => rfl
  | shape looked finding =>
      cases finding with
      | nested opens filed => exact inside _ _ _ _ _ rfl opens filed
      | _ => rfl

theorem report_locale (value : Value) :
    ∀ target path descriptor, (scope.entityReport schema target value).Files path descriptor →
      descriptor.locale = scope.locale := by
  induction value using Value.inside_induction with
  | step value ih =>
      intro target path descriptor filed
      cases object : value.asObject? with
      | none =>
          exact absurd filed
            (scope.not_files_other schema target value object path descriptor)
      | some found =>
          obtain ⟨entries, rfl⟩ := Value.object_of_asObject value (by simp [object])
          obtain ⟨spec, declared, filed⟩ :=
            (scope.files_entity schema target entries path descriptor).mp filed
          rw [files_field] at filed
          apply scope.field_finding_locale schema filed
          intro held inner position part within found opens deeper
          have stored := Schema.stored_inside found
          exact ih part (Shape.opens_within opens stored) inner within descriptor deeper

theorem report_presentable (target : Entity) (value : Value)
    (filled : (scope.entityReport schema target value).isEmpty = false) :
    (scope.entityReport schema target value).Presentable scope.locale where
  nonempty := by simpa [Report.isEmpty] using filled
  filled := (scope.entity_report_wellformed schema value target).2
  localized := fun entry member descriptor inside =>
    scope.report_locale schema value target entry.1 descriptor ⟨entry.2, member, inside⟩

end Scope

namespace Endpoint

variable (endpoint : Endpoint Entity) (schema : Schema Entity)

theorem validate_other (entity : Entity) {value : Value} (other : value.kind ≠ .object)
    (locale : String) :
    endpoint.validate schema entity value locale =
      ⟨[], .error (.notAMap (schema.name entity) value.kind)⟩ := by
  cases value with
  | object => contradiction
  | _ => rfl

/-- The four ways in which a decode ends, each with the calls of its one validation. -/
inductive Decodes (entity : Entity) (value : Value) (locale : String) :
    Checked Entity (schema.Carrier entity) → Prop where
  | notAMap (other : value.kind ≠ .object) :
      Decodes entity value locale ⟨[], .error (.notAMap (schema.name entity) value.kind)⟩
  | reported {calls : List (Call Entity)} {report : Report} (object : value.kind = .object)
      (validated : endpoint.validate schema entity value locale = ⟨calls, .ok report⟩)
      (filled : report.isEmpty = false) :
      Decodes entity value locale ⟨calls, .error (.invalid (schema.name entity) report)⟩
  | unbuilt {calls : List (Call Entity)} {report : Report} {failure : Failure} {path : String}
      {descriptor : Descriptor} (object : value.kind = .object)
      (validated : endpoint.validate schema entity value locale = ⟨calls, .ok report⟩)
      (clean : report.isEmpty = true)
      (failed : schema.decode endpoint.options entity value = .error failure)
      (located : failure.fieldError (endpoint.effective locale) = some (path, descriptor)) :
      Decodes entity value locale
        ⟨calls, .error (.invalid (schema.name entity) (.single path descriptor))⟩
  | built {calls : List (Call Entity)} {report : Report} {built : schema.Carrier entity}
      (object : value.kind = .object)
      (validated : endpoint.validate schema entity value locale = ⟨calls, .ok report⟩)
      (clean : report.isEmpty = true)
      (ended : schema.decode endpoint.options entity value = .ok built) :
      Decodes entity value locale ⟨calls, .ok built⟩

variable {schema}

theorem decode_decodes {entity : Entity} (relays : schema.RelaysReads entity) (value : Value)
    (locale : String) :
    endpoint.Decodes schema entity value locale (endpoint.decode schema entity value locale) := by
  by_cases object : value.kind = .object
  case neg =>
    rw [decode, endpoint.validate_other schema entity object locale]
    exact .notAMap object
  case pos =>
    obtain ⟨entries, rfl⟩ := Value.object_of_kind object
    have validated : endpoint.validate schema entity (.object entries) locale = ⟨_, .ok _⟩ := rfl
    rw [decode, validated]
    dsimp only
    split
    case isFalse filled =>
      exact .reported object validated (eq_false_of_ne_true filled)
    case isTrue clean =>
      rw [build]
      cases ended : schema.decode endpoint.options entity (.object entries) with
      | ok built => exact .built object validated clean ended
      | error failure =>
          obtain ⟨path, descriptor, located⟩ :=
            Failure.at_field_located (Schema.decode_at_field relays ended)
              (endpoint.effective locale)
          simp only [located]
          exact .unbuilt object validated clean ended located

omit [DecidableEq Entity] in
theorem build_ok_iff (entity : Entity) (value : Value) (locale : String)
    (built : schema.Carrier entity) :
    endpoint.build schema entity value locale = .ok built ↔
      schema.decode endpoint.options entity value = .ok built := by
  rw [build]
  cases schema.decode endpoint.options entity value with
  | ok found => rfl
  | error failure =>
      dsimp only
      cases failure.fieldError (endpoint.effective locale) <;> simp

theorem decode_ok_iff (entity : Entity) (value : Value) (locale : String)
    (built : schema.Carrier entity) :
    (endpoint.decode schema entity value locale).result = .ok built ↔
      ∃ report, (endpoint.validate schema entity value locale).result = .ok report ∧
        report.isEmpty = true ∧ schema.decode endpoint.options entity value = .ok built := by
  rw [decode]
  rcases endpoint.validate schema entity value locale with ⟨calls, failure | report⟩
  · simp
  · by_cases clean : report.isEmpty = true <;> simp [clean, build_ok_iff]

theorem validate_presentable {entity : Entity} {value : Value} {locale : String}
    {calls : List (Call Entity)} {report : Report} (object : value.kind = .object)
    (validated : endpoint.validate schema entity value locale = ⟨calls, .ok report⟩)
    (filled : report.isEmpty = false) : report.Presentable (endpoint.effective locale) := by
  obtain ⟨entries, rfl⟩ := Value.object_of_kind object
  have found := congrArg Checked.result validated
  rw [validate, Scope.validate_object] at found
  obtain rfl := Except.ok.inj found
  exact Scope.report_presentable _ schema entity _ filled

section Ends
variable {endpoint : Endpoint Entity} {entity : Entity} {value : Value} {locale : String}
  {checked : Checked Entity (schema.Carrier entity)}
  (ends : endpoint.Decodes schema entity value locale checked)
include ends

theorem ends_other :
    (∃ name found, checked.result = .error (.notAMap name found)) ↔ value.kind ≠ .object := by
  cases ends with
  | notAMap other => exact ⟨fun _ => other, fun _ => ⟨_, _, rfl⟩⟩
  | reported object => simp [object]
  | unbuilt object => simp [object]
  | built object => simp [object]

theorem ends_presentable (object : value.kind = .object) :
    (∃ built, checked.result = .ok built) ∨
      ∃ report, checked.result = .error (.invalid (schema.name entity) report) ∧
        report.Presentable (endpoint.effective locale) := by
  cases ends with
  | notAMap other => exact absurd object other
  | reported _ validated filled =>
      exact Or.inr ⟨_, rfl, endpoint.validate_presentable object validated filled⟩
  | @unbuilt _ _ failure path descriptor _ _ _ _ located =>
      have spoken := failure.field_error_locale _ path descriptor located
      exact Or.inr ⟨_, rfl, spoken ▸ Report.single_presentable path descriptor⟩
  | built => exact Or.inl ⟨_, rfl⟩

theorem ends_reported {report : Report}
    (found : (endpoint.validate schema entity value locale).result = .ok report)
    (filled : report.isEmpty = false) :
    checked.result = .error (.invalid (schema.name entity) report) := by
  cases ends with
  | notAMap other =>
      rw [endpoint.validate_other schema entity other locale] at found
      contradiction
  | reported _ validated =>
      rw [validated] at found
      rw [Except.ok.inj found]
  | unbuilt _ validated clean =>
      rw [validated] at found
      rw [← Except.ok.inj found, clean] at filled
      contradiction
  | built _ validated clean =>
      rw [validated] at found
      rw [← Except.ok.inj found, clean] at filled
      contradiction

theorem ends_unbuilt {report : Report} {failure : Failure}
    (found : (endpoint.validate schema entity value locale).result = .ok report)
    (clean : report.isEmpty = true)
    (failed : schema.decode endpoint.options entity value = .error failure) :
    ∃ path descriptor, failure.fieldError (endpoint.effective locale) = some (path, descriptor) ∧
      checked.result = .error (.invalid (schema.name entity) (.single path descriptor)) := by
  cases ends with
  | notAMap other =>
      rw [endpoint.validate_other schema entity other locale] at found
      contradiction
  | reported _ validated filled =>
      rw [validated] at found
      rw [Except.ok.inj found, clean] at filled
      contradiction
  | unbuilt _ _ _ again located =>
      obtain rfl := Except.error.inj (failed.symm.trans again)
      exact ⟨_, _, located, rfl⟩
  | built _ _ _ ended =>
      rw [failed] at ended
      contradiction

end Ends

/--
A decode fails on what is no map as such, and on a map only with a report: that of the validation
if it found anything, and one of the failure to build otherwise.
-/
theorem decode_failures {entity : Entity} (relays : schema.RelaysReads entity) (value : Value)
    (locale : String) :
    let result := (endpoint.decode schema entity value locale).result
    ((∃ name found, result = .error (.notAMap name found)) ↔ value.kind ≠ .object) ∧
    (value.kind ≠ .object → result = .error (.notAMap (schema.name entity) value.kind)) ∧
    (value.kind = .object → (∃ built, result = .ok built) ∨
      ∃ report, result = .error (.invalid (schema.name entity) report) ∧
        report.Presentable (if locale = "" then endpoint.locale else locale)) ∧
    (∀ report, (endpoint.validate schema entity value locale).result = .ok report →
      (report.isEmpty = false → result = .error (.invalid (schema.name entity) report)) ∧
      (report.isEmpty = true → ∀ failure,
        schema.decode endpoint.options entity value = .error failure →
          ∃ path descriptor,
            failure.fieldError (endpoint.effective locale) = some (path, descriptor) ∧
            result = .error (.invalid (schema.name entity) (.single path descriptor)))) ∧
    ∀ built, result = .ok built ↔
      ∃ report, (endpoint.validate schema entity value locale).result = .ok report ∧
        report.isEmpty = true ∧ schema.decode endpoint.options entity value = .ok built := by
  have ends := endpoint.decode_decodes relays value locale
  refine ⟨ends_other ends, fun other => ?_, ends_presentable ends,
    fun report found => ⟨ends_reported ends found, fun clean _ => ends_unbuilt ends found clean⟩,
    endpoint.decode_ok_iff entity value locale⟩
  rw [decode, endpoint.validate_other schema entity other locale]

end Endpoint

namespace Ledger

/-- What validation finds in the movements leaves as the report that it is found in. -/
theorem remark_failures :
    schema.RelaysReads .account ∧
    ∃ report, (audited.validate schema .account (.object remark) "").result = .ok report ∧
      report.paths = ["movements[0].comment", "movements[1]"] ∧
      (audited.decode schema .account (.object remark) "").result =
        .error (.invalid "Account" report) ∧
      report.Presentable "en" := by
  have relays := schema.conforming_relays (conforms .account)
  obtain ⟨-, -, whole, reported, -⟩ := audited.decode_failures relays (.object remark) ""
  have ended := (reported _ rfl).1 rfl
  refine ⟨relays, _, rfl, rfl, ended, ?_⟩
  rcases whole rfl with ⟨built, succeeded⟩ | ⟨report, failed, presentable⟩
  · rw [ended] at succeeded
    contradiction
  · rw [ended] at failed
    obtain ⟨-, rfl⟩ := Failure.invalid.inj (Except.error.inj failed)
    exact presentable

end Ledger

end Interchange
