import Mathlib.Data.List.Nodup
import Interchange.Proofs.ListedFindings
import Interchange.Proofs.MatchingReports
import Interchange.Proofs.PathReading
/-!
Validation does not see the order of keys. Fields are looked up, lists keep their order, and the
elements of a keyed collection are reported under positions that no two of them share. Main
statement: the reports of a value and of its reordering match.
-/
namespace Interchange

variable {Entity : Type}

namespace Schema

/-- Enumerations that are reached have raw values of a type of their own, never arbitrary ones. -/
def TypedCases (schema : Schema Entity) (entity : Entity) : Prop :=
  ∀ member, schema.Reaches entity member → ∀ spec ∈ schema.fields member, ∀ choices,
    spec.shape = .enumeration choices → choices.raw ≠ .value

theorem typed_cases_target {schema : Schema Entity} {entity target : Entity}
    {spec : FieldSpec Entity} (typed : schema.TypedCases entity)
    (declared : spec ∈ schema.fields entity) (leads : spec.shape.target? = some target) :
    schema.TypedCases target :=
  fun member reached => typed member (.inside declared leads reached)

theorem stored_reordered (schema : Schema Entity) (options : Options) (owner : Entity)
    (name : String) {entries middle others : List (String × Value)}
    (distinct : (entries.map (·.1)).Nodup) (moved : entries.Perm middle)
    (each : List.Forall₂ (SameKey Value.Reordered) middle others) :
    Option.Rel Value.Reordered (schema.stored? options owner name entries)
      (schema.stored? options owner name others) :=
  any_order_lookup distinct ⟨moved, each⟩ _

end Schema

theorem ScalarType.read_typed {type : ScalarType} (typed : type ≠ .value) {value other : Value}
    (reordered : Value.Reordered value other) : type.read? value = type.read? other := by
  cases reordered with
  | scalar => rfl
  | array => cases type <;> first | rfl | contradiction
  | object => cases type <;> first | rfl | contradiction

theorem Enumeration.check_reordered {choices : Enumeration} (typed : choices.raw ≠ .value)
    {value other : Value} (reordered : Value.Reordered value other) :
    choices.check value = choices.check other := by
  rw [check, check, ScalarType.read_typed typed reordered]

theorem Enumeration.check_matches (choices : Enumeration) (value : Value) :
    (choices.check value).Matches (choices.check value) := by
  rw [check]
  cases choices.raw.read? value with
  | none => exact .incompatible
  | some raw =>
      dsimp only
      split
      · exact .valid
      · exact .unknownCase

theorem join_path_starts (outer inner : String) :
    ∃ rest, (joinPath outer inner).toList = outer.toList ++ rest := by
  rw [joinPath]
  split
  · exact ⟨_, String.toList_append⟩
  · exact ⟨".".toList ++ inner.toList, by simp [String.append_assoc]⟩

variable [DecidableEq Entity]

/-- Validators that say the same about a value and its reorderings. -/
def Registry.Indifferent (registry : Registry Entity) : Prop :=
  ∀ owner field check, registry.get? owner field = some check →
    ∀ value other, Value.Reordered value other → (check value).code = (check other).code

namespace Scope

variable (scope : Scope Entity) (schema : Schema Entity)

/-- A value whose reports, as any entity, match those of its reorderings. -/
def Unordered (value : Value) : Prop :=
  ∀ target, schema.TypedCases target → ∀ other, Value.Reordered value other →
    (scope.entityReport schema target value).Matches (scope.entityReport schema target other)

/-! Elements of lists and keyed collections. -/
section Elements
variable (target : Entity) (key : String)

/-- The report of an element at its position. -/
def elementReport (position : Position) (part : Value) : Report :=
  let unit := scope.elementUnit target key position (scope.inspect schema part)
  unit.2.outcome.report unit.1

variable {scope schema target}

theorem element_reordered (typed : schema.TypedCases target) {part other : Value}
    (unordered : scope.Unordered schema part) (reordered : Value.Reordered part other)
    (position : Position) :
    (scope.elementReport schema target key position part).Matches
      (scope.elementReport schema target key position other) := by
  have site : Site.Matches ⟨position.text, key, some part, scope.locale⟩
      ⟨position.text, key, some other, scope.locale⟩ := ⟨rfl, rfl, .some reordered, rfl⟩
  simp only [elementReport, elementUnit, inspect_value]
  cases reordered with
  | object moved each =>
      simp only [Work.outcome_join, Work.outcome_done]
      exact Outcome.matches_report
        (Outcome.matches_of_report (unordered target typed _ (.object moved each))) site
  | array each => exact Outcome.matches_report .incompatible site
  | scalar flat =>
      cases part with
      | object | array => contradiction
      | _ => exact Outcome.matches_report .incompatible site

/-- What is reported about an element stands under its position. -/
theorem element_starts (position : Position) (part : Value) :
    ∀ entry ∈ (scope.elementReport schema target key position part).entries,
      ∃ rest, entry.1.toList = position.text.toList ++ rest := by
  intro entry member
  have sound := element_sound scope schema target key position part
    (entity_report_wellformed scope schema part target)
  have filled := (report_wellformed _ _ sound).2 entry member
  obtain ⟨descriptor, others, held⟩ := List.exists_cons_of_ne_nil filled
  have files : (scope.elementReport schema target key position part).Files entry.1 descriptor :=
    ⟨entry.2, member, held ▸ List.mem_cons_self⟩
  rcases (files_element scope schema target key position part _ _).mp files with
    ⟨inner, -, same⟩ | ⟨-, same, -⟩
  · rw [same]
    exact join_path_starts _ _
  · rw [same]
    exact ⟨[], (List.append_nil _).symm⟩

theorem elements_apart {position other : Position} (differ : position ≠ other) (part item : Value) :
    (scope.elementReport schema target key position part).Apart
      (scope.elementReport schema target key other item) := by
  intro entry member another also same
  obtain ⟨rest, here⟩ := element_starts key position part entry member
  obtain ⟨others, there⟩ := element_starts key other item another also
  rw [same, there] at here
  exact differ (Position.text_append_inj other position _ _ here).1.symm

theorem items_reordered (typed : schema.TypedCases target) {items others : List Value}
    (unordered : ∀ item ∈ items, scope.Unordered schema item)
    (each : List.Forall₂ Value.Reordered items others) :
    (joinUnits ((scope.inspect schema (.array items)).elements target key)).1.Matches
      (joinUnits ((scope.inspect schema (.array others)).elements target key)).1 := by
  rw [inspect_items, inspect_items]
  apply matches_join
  rw [List.forall₂_map_left_iff, List.forall₂_map_right_iff]
  refine related_imp (related_zipIdx each 0) ?_
  rintro ⟨item, index⟩ member ⟨other, _⟩ ⟨reordered, rfl⟩
  exact element_reordered key typed (unordered item (List.fst_mem_of_mem_zipIdx member)) reordered
    (.index index)

/-- Keyed elements are moved into the order of the other collection, which does not show, and
then compared one by one. -/
theorem entries_reordered (typed : schema.TypedCases target)
    {entries middle others : List (String × Value)}
    (unordered : ∀ entry ∈ entries, scope.Unordered schema entry.2)
    (distinct : (entries.map (·.1)).Nodup) (moved : entries.Perm middle)
    (each : List.Forall₂ (SameKey Value.Reordered) middle others) :
    (joinUnits ((scope.inspect schema (.object entries)).elements target key)).1.Matches
      (joinUnits ((scope.inspect schema (.object others)).elements target key)).1 := by
  rw [inspect_entries, inspect_entries, join_perm moved]
  · apply matches_join
    rw [List.forall₂_map_left_iff, List.forall₂_map_right_iff]
    refine related_imp each ?_
    rintro entry member other ⟨reordered⟩
    exact element_reordered key typed (unordered _ (moved.mem_iff.mpr member)) reordered _
  · intro entry member other also differ
    refine elements_apart key ?_ entry.2 other.2
    intro same
    exact differ (List.inj_on_of_nodup_map distinct member also (Position.key.inj same))

end Elements

variable {scope schema}

omit [DecidableEq Entity] in
theorem scalars_reordered (type : ScalarType) (key : String) {items others : List Value}
    (each : List.Forall₂ Value.Reordered items others) :
    (joinUnits (scope.scalarUnits type key items)).1.Matches
      (joinUnits (scope.scalarUnits type key others)).1 := by
  rw [scalarUnits, scalarUnits, List.mapIdx_eq_zipIdx_map, List.mapIdx_eq_zipIdx_map]
  apply matches_join
  rw [List.forall₂_map_left_iff, List.forall₂_map_right_iff]
  refine (related_zipIdx each 0).imp ?_
  rintro ⟨item, index⟩ ⟨other, _⟩ ⟨reordered, rfl⟩
  have site : Site.Matches ⟨(Position.index index).text, key, some item, scope.locale⟩
      ⟨(Position.index index).text, key, some other, scope.locale⟩ :=
    ⟨rfl, rfl, .some reordered, rfl⟩
  have read := type.read_reordered reordered
  simp only [Work.outcome_done]
  generalize type.read? item = found at read
  generalize type.read? other = again at read
  cases read with
  | none => exact Outcome.matches_report .incompatible site
  | some same => exact Outcome.matches_report .valid site

/-- A shape sees the same in a value and in its reordering. -/
theorem shape_reordered {shape : Shape Entity} (key : String) {stored other : Value}
    (raws : ∀ choices, shape = .enumeration choices → choices.raw ≠ .value)
    (typed : ∀ target, shape.target? = some target → schema.TypedCases target)
    (distinct : stored.DistinctKeys)
    (unordered : ∀ part, part = stored ∨ Value.Inside part stored → scope.Unordered schema part)
    (reordered : Value.Reordered stored other) :
    (scope.shapeOutcome schema shape key stored).Matches
      (scope.shapeOutcome schema shape key other) := by
  have same := shape.accepts_reordered reordered
  cases accepted : shape.accepts stored with
  | false =>
      rw [shape_refused _ _ _ _ _ accepted, shape_refused _ _ _ _ _ (same.symm.trans accepted)]
      exact .incompatible
  | true =>
      cases shape with
      | enumeration choices =>
          have present : stored.isNull = false := by simpa [Shape.accepts] using accepted
          have presentToo : other.isNull = false := by
            rwa [← Value.reordered_null reordered]
          rw [shape_outcome_enumeration _ _ _ _ _ present,
            shape_outcome_enumeration _ _ _ _ _ presentToo,
            Enumeration.check_reordered (raws choices rfl) reordered]
          exact choices.check_matches other
      | listOf type =>
          obtain ⟨items, rfl⟩ := Value.array_of_asArray stored accepted
          cases reordered with
          | scalar flat => contradiction
          | array each =>
              rw [shape_outcome_list_of, shape_outcome_list_of]
              exact Outcome.matches_of_report (scalars_reordered type key each)
      | entity target =>
          obtain ⟨entries, rfl⟩ := Value.object_of_asObject stored accepted
          cases reordered with
          | scalar flat => contradiction
          | object moved each =>
              rw [shape_outcome_entity, shape_outcome_entity]
              exact Outcome.matches_of_report
                (unordered _ (Or.inl rfl) target (typed target rfl) _ (.object moved each))
      | entityList target =>
          obtain ⟨items, rfl⟩ := Value.array_of_asArray stored accepted
          cases reordered with
          | scalar flat => contradiction
          | array each =>
              rw [shape_outcome_list, shape_outcome_list]
              exact Outcome.matches_of_report (items_reordered key (typed target rfl)
                (fun item member => unordered item (Or.inr (.item member))) each)
      | entityMap target =>
          obtain ⟨entries, rfl⟩ := Value.object_of_asObject stored accepted
          cases reordered with
          | scalar flat => contradiction
          | object moved each =>
              rw [shape_outcome_map, shape_outcome_map]
              exact Outcome.matches_of_report (entries_reordered key (typed target rfl)
                (fun entry member => unordered entry.2 (Or.inr (.entry member))) distinct moved each)
      | _ =>
          simp only [shapeOutcome, demand, inspect_value, accepted, ← same]
          exact .valid

theorem field_reordered (indifferent : scope.registry.Indifferent) {owner : Entity}
    {spec : FieldSpec Entity} {entries middle others : List (String × Value)}
    (typed : schema.TypedCases owner) (declared : spec ∈ schema.fields owner)
    (keys : (Value.object entries).Every Value.DistinctKeys)
    (unordered : ∀ part, Value.Inside part (.object entries) → scope.Unordered schema part)
    (moved : entries.Perm middle)
    (each : List.Forall₂ (SameKey Value.Reordered) middle others) :
    (scope.fieldReport schema owner spec entries).Matches
      (scope.fieldReport schema owner spec others) := by
  have held := schema.stored_reordered scope.options owner spec.name (Value.every_here keys)
    moved each
  have site : Site.Matches (scope.fieldSite schema owner spec entries)
      (scope.fieldSite schema owner spec others) := ⟨rfl, rfl, held, rfl⟩
  refine Outcome.matches_report ?_ site
  simp only [fieldSite]
  cases found : schema.stored? scope.options owner spec.name entries with
  | none =>
      rw [found] at held
      generalize schema.stored? scope.options owner spec.name others = again at held
      cases held
      rw [fieldOutcome]
      split
      · exact .skip
      · exact .missing
  | some stored =>
      rw [found] at held
      generalize schema.stored? scope.options owner spec.name others = again at held
      cases held with
      | @some _ other reordered =>
          have inside := Schema.stored_inside found
          rw [fieldOutcome, fieldOutcome, ← Value.reordered_null reordered]
          split
          · exact .skip
          · refine Outcome.matches_judged (shape_reordered _ ?_ ?_ (keys _ (Or.inr inside)) ?_
              reordered) fun check asked => indifferent owner spec.name check asked _ _ reordered
            · exact typed owner (.here owner) spec declared
            · exact fun target leads => Schema.typed_cases_target typed declared leads
            · rintro part (rfl | deeper)
              · exact unordered _ inside
              · exact unordered part (.deeper deeper inside)

/-- By induction on what stands inside: the reports of a value match those of its reorderings. -/
theorem reports_reordered (indifferent : scope.registry.Indifferent) (value : Value) :
    value.Every Value.DistinctKeys → scope.Unordered schema value := by
  induction value using Value.map_induction with
  | other value scalar =>
      intro keys target typed other reordered
      have scalarToo : other.asObject? = none := by
        cases reordered with
        | scalar => exact scalar
        | array => rfl
        | object => contradiction
      rw [entityReport, entityReport, inspect_other _ _ _ _ scalar, inspect_other _ _ _ _ scalarToo]
      exact Report.matches_empty
  | map entries ih =>
      intro keys target typed other reordered
      cases reordered with
      | scalar flat => contradiction
      | object moved each =>
          rw [entityReport, entityReport, field_units_object, field_units_object]
          apply matches_join
          rw [List.forall₂_map_left_iff, List.forall₂_map_right_iff, List.forall₂_same]
          intro spec declared
          simp only [check_field_outcome]
          exact field_reordered indifferent typed declared keys
            (fun part inside => ih part inside (Value.every_inside keys inside)) moved each

end Scope

end Interchange
