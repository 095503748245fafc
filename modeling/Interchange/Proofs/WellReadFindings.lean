import Interchange.Proofs.FieldFindings
import Interchange.Proofs.FieldReads
/-!
What validation may still find in a field that building reads well. Only three things are left of
all findings: the verdict of a validator, a value of another outer shape under an optional field,
and whatever is found further inside, in a nested entity that is built as well.
-/
namespace Interchange

variable {Entity : Type}

namespace Scope

variable [DecidableEq Entity] (scope : Scope Entity) (schema : Schema Entity)

inductive Remaining (spec : FieldSpec Entity) (key : String) (validator : Option Validator) :
    Value → String → Descriptor → Prop where
  | rejected {stored : Value} {check : Validator} {code : String}
      (looked : (stored.isNull && spec.isOptional) = false) (asked : validator = some check)
      (refused : (check stored).code = some code) :
      Remaining spec key validator stored spec.name
        ⟨.rejected, some code, key, some stored, scope.locale⟩
  | forgiven {stored : Value} (spare : spec.isOptional = true) (present : stored.isNull = false)
      (misshapen : spec.shape.accepts stored = false) :
      Remaining spec key validator stored spec.name
        ⟨.incompatible, none, key, some stored, scope.locale⟩
  | nested {stored : Value} {target : Entity} {position : Option Position}
      {inner : List (String × Value)} {built : schema.Carrier target} {within : String}
      {descriptor : Descriptor}
      (opens : spec.shape.Opens stored target position (.object inner))
      (ended : schema.decode scope.options target (.object inner) = .ok built)
      (filed : (scope.entityReport schema target (.object inner)).Files within descriptor) :
      Remaining spec key validator stored (joinPath (Step.text ⟨spec.name, position⟩) within)
        descriptor

variable {scope schema}

theorem shape_remaining {spec : FieldSpec Entity} {key : String} {validator : Option Validator}
    {stored : Value} {path : String} {descriptor : Descriptor}
    (well : WellRead schema scope.options spec (some stored))
    (looked : (stored.isNull && spec.isOptional) = false)
    (finding : scope.ShapeFinding schema spec.name spec.shape key stored path descriptor) :
    scope.Remaining schema spec key validator stored path descriptor := by
  cases finding with
  | refused refused =>
      have spare := well.outer stored rfl refused
      exact .forgiven spare (by simpa [spare] using looked) refused
  | wrongRaw judged present wrong =>
      obtain ⟨raw, case, read, named⟩ := well.named stored _ rfl judged present
      rw [wrong] at read
      contradiction
  | unknownCase judged present read unknown =>
      obtain ⟨other, case, again, named⟩ := well.named stored _ rfl judged present
      obtain rfl := Option.some.inj (read.symm.trans again)
      rw [unknown] at named
      contradiction
  | element judged held refused =>
      obtain ⟨found, read⟩ := well.elements _ _ rfl judged _ (List.mem_of_getElem? held)
      rw [refused] at read
      contradiction
  | @notAMap stored part target position opens scalar =>
      obtain ⟨built, ended⟩ := well.opened stored target position part rfl opens
      rw [Schema.decode_other schema scope.options target part scalar] at ended
      contradiction
  | @nested stored part target position within descriptor opens filed =>
      cases object : part.asObject? with
      | none => exact absurd filed (not_files_other scope schema target part object _ _)
      | some inner =>
          obtain ⟨inner, rfl⟩ := Value.object_of_asObject part (by simp [object])
          obtain ⟨built, ended⟩ := well.opened stored target position _ rfl opens
          exact .nested opens ended filed

/-- A well-read field has a value wherever anything is found, and only remaining findings. -/
theorem well_read_remaining {spec : FieldSpec Entity} {key : String}
    {validator : Option Validator} {found : Option Value} {path : String}
    {descriptor : Descriptor} (well : WellRead schema scope.options spec found)
    (finding : scope.FieldFinding schema spec key validator found path descriptor) :
    ∃ stored, found = some stored ∧
      scope.Remaining schema spec key validator stored path descriptor := by
  cases finding with
  | missing needed =>
      rw [well.present rfl] at needed
      contradiction
  | shape looked finding => exact ⟨_, rfl, shape_remaining well looked finding⟩
  | rejected looked clean asked refused => exact ⟨_, rfl, .rejected looked asked refused⟩

end Scope

end Interchange
