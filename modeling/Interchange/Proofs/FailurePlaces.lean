import Interchange.Proofs.FieldFindings
import Interchange.Proofs.FieldReads
/-!
Failures of building against findings of validation. Whatever stops the reading of a conforming
entity is also found by the check of the same map, at a place that both can name. They name it
alike with one exception: for an element of a list of scalars, the failure writes the name of the
field twice, once before the position and once more behind it.
-/
namespace Interchange

variable {Entity : Type}

/-- An element of a list of scalars that its type does not read. -/
def Schema.RefusedElement (schema : Schema Entity) (options : Options) (owner : Entity)
    (entries : List (String × Value)) (spec : FieldSpec Entity) (position : Option Position) :
    Prop :=
  ∃ type items index item, spec.shape = .listOf type ∧
    schema.stored? options owner spec.name entries = some (.array items) ∧
    items[index]? = some item ∧ type.read? item = none ∧ position = some (.index index)

namespace Scope

variable [DecidableEq Entity] (scope : Scope Entity) (schema : Schema Entity)

/-- A path and a category of a failure, with the place in the report that answers it. -/
inductive Mirrored (entity : Entity) (value : Value) : String → Category → Prop where
  | place {steps : List Step} {owner : Entity} {entries : List (String × Value)}
      {spec : FieldSpec Entity} {position : Option Position} {filed : Descriptor}
      (visit : schema.Visits scope.options entity value steps owner entries)
      (declared : spec ∈ schema.fields owner)
      (plain : ¬ schema.RefusedElement scope.options owner entries spec position)
      (files : (scope.entityReport schema entity value).Files
        (pathText (steps ++ [⟨spec.name, position⟩])) filed) :
      Mirrored entity value (pathText (steps ++ [⟨spec.name, position⟩])) filed.category
  | element {steps : List Step} {owner : Entity} {entries : List (String × Value)}
      {spec : FieldSpec Entity} {position : Option Position} {filed : Descriptor}
      (visit : schema.Visits scope.options entity value steps owner entries)
      (declared : spec ∈ schema.fields owner)
      (refused : schema.RefusedElement scope.options owner entries spec position)
      (files : (scope.entityReport schema entity value).Files
        (pathText (steps ++ [⟨spec.name, position⟩])) filed) :
      Mirrored entity value (pathText (steps ++ [⟨spec.name, position⟩, ⟨spec.name, none⟩]))
        filed.category

section Fields
variable {entity : Entity} {entries : List (String × Value)} {spec : FieldSpec Entity}
  {stored : Value}

/-- What a declared field finds stands in the report of its entity. -/
theorem files_declared (declared : spec ∈ schema.fields entity) {stored : Option Value}
    (found : schema.stored? scope.options entity spec.name entries = stored) {path : String}
    {descriptor : Descriptor}
    (finding : scope.FieldFinding schema spec
      (wireKey (schema.wireKeys entity) spec.name scope.options)
      (scope.registry.get? entity spec.name) stored path descriptor) :
    (scope.entityReport schema entity (.object entries)).Files path descriptor := by
  rw [files_entity]
  refine ⟨spec, declared, ?_⟩
  rwa [files_field, found]

omit [DecidableEq Entity] in
theorem opens_looked {target : Entity} {position : Option Position} {part : Value}
    (opens : spec.shape.Opens stored target position part) :
    (stored.isNull && spec.isOptional) = false := by
  have present : stored.isNull = false := by
    generalize spec.shape = shape at opens
    cases opens <;> rfl
  simp [present]

omit [DecidableEq Entity] in
theorem opens_no_element {options : Options} {target : Entity} {position other : Option Position}
    {part : Value} (opens : spec.shape.Opens stored target position part) :
    ¬ schema.RefusedElement options entity entries spec other := by
  rintro ⟨type, items, index, item, judged, -⟩
  rw [judged] at opens
  cases opens

omit [DecidableEq Entity] in
theorem whole_no_element {options : Options} :
    ¬ schema.RefusedElement options entity entries spec none := by
  rintro ⟨type, items, index, item, -, -, -, -, impossible⟩
  contradiction

theorem mirrored_whole (declared : spec ∈ schema.fields entity) {filed : Descriptor}
    (files : (scope.entityReport schema entity (.object entries)).Files spec.name filed) :
    scope.Mirrored schema entity (.object entries) spec.name filed.category := by
  have whole : pathText ([] ++ [(⟨spec.name, none⟩ : Step)]) = spec.name := step_text_whole _
  rw [← whole] at files ⊢
  exact .place (.here entity entries) declared (whole_no_element schema) files

/-- A place inside a nested entity is a place of the outer one, one step further in. -/
theorem mirrored_inside {target : Entity} {position : Option Position} {part : Value}
    {path : String} {category : Category} (declared : spec ∈ schema.fields entity)
    (found : schema.stored? scope.options entity spec.name entries = some stored)
    (opens : spec.shape.Opens stored target position part)
    (inner : scope.Mirrored schema target part path category) :
    scope.Mirrored schema entity (.object entries)
      (joinPath (Step.text ⟨spec.name, position⟩) path) category := by
  cases inner with
  | place visit owned plain files =>
      have outer := files_declared scope schema declared found
        (.shape (opens_looked opens) (.nested opens files))
      rw [← path_text_enter _ _ (by simp)] at outer ⊢
      exact .place (.inside declared found opens visit) owned plain outer
  | element visit owned refused files =>
      have outer := files_declared scope schema declared found
        (.shape (opens_looked opens) (.nested opens files))
      rw [← path_text_enter _ _ (by simp)] at outer ⊢
      exact .element (.inside declared found opens visit) owned refused outer

/-- A part that is no map is found at its own position. -/
theorem mirrored_other {target : Entity} {position : Option Position} {part : Value}
    (declared : spec ∈ schema.fields entity)
    (found : schema.stored? scope.options entity spec.name entries = some stored)
    (opens : spec.shape.Opens stored target position part) (scalar : part.asObject? = none) :
    scope.Mirrored schema entity (.object entries) (Step.text ⟨spec.name, position⟩)
      .incompatible := by
  have files := files_declared scope schema declared found
    (.shape (opens_looked opens) (.notAMap opens scalar))
  exact .place (.here entity entries) declared (opens_no_element schema opens) files

end Fields

/-- One read: its failure is mirrored if the failures of the parts inside are. -/
theorem read_fault_mirrored {entity : Entity} {entries : List (String × Value)}
    {spec : FieldSpec Entity} (declared : spec ∈ schema.fields entity) {failure : Failure}
    (fault : ReadFault schema scope.options spec
      (wireKey (schema.wireKeys entity) spec.name scope.options)
      (schema.stored? scope.options entity spec.name entries) failure)
    (inside : ∀ stored target position inner source,
      schema.stored? scope.options entity spec.name entries = some stored →
      spec.shape.Opens stored target position (.object inner) →
      schema.decode scope.options target (.object inner) = .error source →
      ∃ path descriptor, source.fieldError scope.locale = some (path, descriptor) ∧
        scope.Mirrored schema target (.object inner) path descriptor.category) :
    ∃ path descriptor, failure.fieldError scope.locale = some (path, descriptor) ∧
      scope.Mirrored schema entity (.object entries) path descriptor.category := by
  generalize found : schema.stored? scope.options entity spec.name entries = stored at fault
  cases fault with
  | missing needed =>
      have files := files_declared scope schema declared found (.missing needed)
      exact ⟨spec.name, _, rfl, mirrored_whole scope schema declared files⟩
  | refused needed refused =>
      have files := files_declared scope schema declared found
        (.shape (by simp [needed]) (.refused refused))
      exact ⟨spec.name, _, rfl, mirrored_whole scope schema declared files⟩
  | wrongRaw judged present wrong =>
      have files := files_declared scope schema declared found
        (.shape (by simp [present]) (.wrongRaw judged present wrong))
      exact ⟨spec.name, _, rfl, mirrored_whole scope schema declared files⟩
  | unknownCase judged present read unknown =>
      have files := files_declared scope schema declared found
        (.shape (by simp [present]) (.unknownCase judged present read unknown))
      exact ⟨spec.name, _, rfl, mirrored_whole scope schema declared files⟩
  | element needed judged held refused =>
      have files := files_declared scope schema declared found
        (.shape rfl (.element judged held refused))
      refine ⟨joinPath (Step.text ⟨spec.name, _⟩) spec.name, _, rfl, ?_⟩
      have element := Mirrored.element (.here entity entries) declared
        ⟨_, _, _, _, judged, found, held, refused, rfl⟩ files
      rwa [List.nil_append, path_text_cons, pathText, step_text_whole] at element
  | @nested stored part target position source opens failed =>
      cases object : part.asObject? with
      | none =>
          obtain rfl : source = .notAMap (schema.name target) part.kind := by
            rw [Schema.decode_other schema scope.options target part object] at failed
            exact (Except.error.inj failed).symm
          exact ⟨Step.text ⟨spec.name, position⟩, ⟨.incompatible, none, spec.name, none, _⟩, rfl,
            mirrored_other scope schema declared found opens object⟩
      | some inner =>
          obtain ⟨inner, rfl⟩ := Value.object_of_asObject part (by simp [object])
          obtain ⟨path, descriptor, located, mirrored⟩ :=
            inside stored target position inner source found opens failed
          refine ⟨joinPath (Step.text ⟨spec.name, position⟩) path, descriptor, ?_,
            mirrored_inside scope schema declared found opens mirrored⟩
          rw [Failure.fieldError, located]
          rfl

/-- A conforming entity that is not built has a failure at a field, and a mirror of it. -/
theorem failure_mirrored (value : Value) :
    ∀ entity entries failure, value = .object entries → schema.Conforming entity →
      schema.decode scope.options entity (.object entries) = .error failure →
      ∃ path descriptor, failure.fieldError scope.locale = some (path, descriptor) ∧
        scope.Mirrored schema entity (.object entries) path descriptor.category := by
  induction value using Value.inside_induction with
  | step value ih =>
      rintro entity entries failure rfl conforming failed
      rw [Schema.decode_object] at failed
      obtain ⟨spec, declared, how, suits, read⟩ := follows_run_error _
        (conforming entity (.here entity)) (by simp) failed
      have fault := read_fault schema scope.options entity entries suits read
      apply read_fault_mirrored scope schema declared fault
      intro stored target position inner source found opens failedInside
      have held : Value.Inside stored (.object entries) :=
        .entry (Value.mem_of_lookup _ _ _ found)
      have smaller : Value.Inside (.object inner) (.object entries) := by
        rcases Shape.opens_inside opens with same | deeper
        · exact same ▸ held
        · exact .deeper deeper held
      exact ih _ smaller target inner source rfl
        (schema.conforming_target conforming declared (Shape.opens_target opens)) failedInside

end Scope

variable [DecidableEq Entity]

/-- A failure of building has an entry of its category in the report of the same map, with no
validators asked. It stands under the failure's own path, unless the failing place is an element
of a list of scalars. -/
theorem failure_path_filed (schema : Schema Entity) (options : Options) (locale : String)
    (entity : Entity) (value : Value) (conforming : schema.Conforming entity) (failure : Failure)
    (failed : schema.decode options entity value = .error failure) (path : String)
    (descriptor : Descriptor)
    (located : failure.fieldError locale = some (path, descriptor)) :
    ∃ report calls steps owner entries spec position,
      Scope.validate ⟨options, .empty, locale⟩ schema entity value = .ok (report, calls) ∧
      schema.Visits options entity value steps owner entries ∧ spec ∈ schema.fields owner ∧
      (∃ descriptors filed,
        report.get? (pathText (steps ++ [⟨spec.name, position⟩])) = some descriptors ∧
        filed ∈ descriptors ∧ filed.category = descriptor.category) ∧
      (path = pathText (steps ++ [⟨spec.name, position⟩]) ↔
        ¬ schema.RefusedElement options owner entries spec position) ∧
      (schema.RefusedElement options owner entries spec position →
        path = pathText (steps ++ [⟨spec.name, position⟩, ⟨spec.name, none⟩])) := by
  cases object : value.asObject? with
  | none =>
      rw [Schema.decode_other schema options entity value object] at failed
      obtain rfl := Except.error.inj failed
      simp [Failure.fieldError] at located
  | some entries =>
      obtain ⟨entries, rfl⟩ := Value.object_of_asObject value (by simp [object])
      let scope : Scope Entity := ⟨options, .empty, locale⟩
      obtain ⟨found, answer, same, mirrored⟩ :=
        Scope.failure_mirrored scope schema _ entity entries failure rfl conforming failed
      obtain ⟨rfl, rfl⟩ : found = path ∧ answer = descriptor := by
        rw [same] at located
        simpa using located
      have formed := Scope.entity_report_wellformed scope schema (.object entries) entity
      generalize answer.category = kind at mirrored ⊢
      cases mirrored with
      | @place steps owner inner spec position filed visit declared plain files =>
          obtain ⟨descriptors, listed, member⟩ := (Report.files_get _ formed _ _).mp files
          exact ⟨_, _, steps, owner, inner, spec, position,
            Scope.validate_object scope schema entity entries, visit, declared,
            ⟨descriptors, filed, listed, member, rfl⟩, ⟨fun _ => plain, fun _ => rfl⟩,
            fun refused => absurd refused plain⟩
      | @element steps owner inner spec position filed visit declared refused files =>
          obtain ⟨descriptors, listed, member⟩ := (Report.files_get _ formed _ _).mp files
          have longer : pathText (steps ++ [⟨spec.name, position⟩, ⟨spec.name, none⟩]) ≠
              pathText (steps ++ [⟨spec.name, position⟩]) := by
            obtain ⟨type, items, index, item, judged, found, held, unread, rfl⟩ := refused
            exact path_text_longer steps _ _ (step_text_filled spec.name _)
          exact ⟨_, _, steps, owner, inner, spec, position,
            Scope.validate_object scope schema entity entries, visit, declared,
            ⟨descriptors, filed, listed, member, rfl⟩,
            ⟨fun equal => absurd equal longer, fun plain => absurd refused plain⟩, fun _ => rfl⟩

/-- An account whose second limit is a text: the failure's own path names the field twice. -/
theorem limit_path_filed :
    let value := Value.object
      [("holder", .str "Ada"), ("limits", .array [.float (.zero false), .str "x"]),
        ("movements", .array [])]
    let failure := Failure.nested "limits" (some (.index 1))
      (.field ⟨"limits", "limits", some (.str "x"), .incompatible "number"⟩)
    Ledger.schema.decode ⟨false⟩ .account value = .error failure ∧
    (∀ report calls,
      Scope.validate ⟨⟨false⟩, .empty, "en"⟩ Ledger.schema .account value = .ok (report, calls) →
        report.get? "limits[1].limits" = none) ∧
    ∃ report calls steps owner entries spec position,
      Scope.validate ⟨⟨false⟩, .empty, "en"⟩ Ledger.schema .account value = .ok (report, calls) ∧
      Ledger.schema.Visits ⟨false⟩ .account value steps owner entries ∧
      spec ∈ Ledger.schema.fields owner ∧
      (∃ descriptors filed,
        report.get? (pathText (steps ++ [⟨spec.name, position⟩])) = some descriptors ∧
        filed ∈ descriptors ∧ filed.category = .incompatible) ∧
      ("limits[1].limits" = pathText (steps ++ [⟨spec.name, position⟩]) ↔
        ¬ Ledger.schema.RefusedElement ⟨false⟩ owner entries spec position) ∧
      (Ledger.schema.RefusedElement ⟨false⟩ owner entries spec position →
        "limits[1].limits" =
          pathText (steps ++ [⟨spec.name, position⟩, ⟨spec.name, none⟩])) := by
  intro value failure
  have failed : Ledger.schema.decode ⟨false⟩ .account value = .error failure := by rfl
  have located : failure.fieldError "en" = some ("limits[1].limits",
      ⟨.incompatible, none, "limits", some (.str "x"), "en"⟩) := by rfl
  refine ⟨failed, ?_, failure_path_filed Ledger.schema ⟨false⟩ "en" .account value
    (Ledger.conforms .account) failure failed "limits[1].limits" _ located⟩
  rintro report calls ⟨⟩
  rfl

end Interchange
