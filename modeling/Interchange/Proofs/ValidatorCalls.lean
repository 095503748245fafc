import Interchange.Endpoint
import Interchange.Proofs.FindingPlaces
/-!
Who is called, and for what. A validator is due where an entity is visited whose field holds a
value that passes its shape, down to everything nested in it. A pass makes each call that is due
once and no other, in the order of the fields, nested calls first.
-/
namespace Interchange

variable {Entity : Type}

namespace Scope

variable (scope : Scope Entity) [DecidableEq Entity] (schema : Schema Entity)

/-- A stored value without a failure of its own or inside it, as the shape of its field has it. -/
def Passes (owner : Entity) (spec : FieldSpec Entity) (stored : Value) : Prop :=
  scope.shapeFindings (scope.findings schema) spec.name spec.shape
    (wireKey (schema.wireKeys owner) spec.name scope.options) stored = []

inductive Due (root : Entity) (value : Value) : List Step → Call Entity → Prop where
  | field {steps : List Step} {owner : Entity} {entries : List (String × Value)}
      {spec : FieldSpec Entity} {stored : Value} {check : Validator}
      (visit : schema.Visits scope.options root value steps owner entries)
      (declared : spec ∈ schema.fields owner)
      (registered : scope.registry.get? owner spec.name = some check)
      (found : schema.stored? scope.options owner spec.name entries = some stored)
      (present : stored.isNull = false) (passes : scope.Passes schema owner spec stored) :
      Due root value (steps ++ [⟨spec.name, none⟩]) ⟨some owner, spec.name, stored⟩

/-! The calls in their order, each at the field that it is made for. -/
section Order

def ownCalls (owner : Entity) (spec : FieldSpec Entity) (stored : Value) :
    List (Placed (Call Entity)) :=
  match scope.registry.get? owner spec.name,
    scope.shapeFindings (scope.findings schema) spec.name spec.shape
      (wireKey (schema.wireKeys owner) spec.name scope.options) stored with
  | some _, [] => [⟨[⟨spec.name, none⟩], some owner, spec.name, stored⟩]
  | _, _ => []

def nestedCalls (inside : Entity → Value → List (Placed (Call Entity)))
    (spec : FieldSpec Entity) (stored : Value) : List (Placed (Call Entity)) :=
  (spec.shape.openings stored).flatMap fun opening =>
    (inside opening.target opening.part).map (.under ⟨spec.name, opening.position⟩)

def callRule : Rule Entity (Placed (Call Entity)) := fun inside owner entries =>
  (schema.fields owner).flatMap fun spec =>
    match schema.stored? scope.options owner spec.name entries with
    | none => []
    | some stored => nestedCalls inside spec stored ++ scope.ownCalls schema owner spec stored

def placedCalls : Entity → Value → List (Placed (Call Entity)) :=
  descend (scope.callRule schema)

theorem call_rule_looks : (scope.callRule schema).LooksInside := by
  intro results others owner entries same
  apply List.flatMap_congr
  intro spec declared
  cases found : schema.stored? scope.options owner spec.name entries with
  | none => rfl
  | some stored =>
      have nested : nestedCalls results spec stored = nestedCalls others spec stored := by
        apply List.flatMap_congr
        intro opening member
        rw [same _ _ (Shape.opening_within member (Schema.stored_inside found))]
      simp only [nested]

theorem placed_calls_object (owner : Entity) (entries : List (String × Value)) :
    scope.placedCalls schema owner (.object entries) =
      (schema.fields owner).flatMap fun spec =>
        match schema.stored? scope.options owner spec.name entries with
        | none => []
        | some stored =>
          nestedCalls (scope.placedCalls schema) spec stored ++
            scope.ownCalls schema owner spec stored :=
  descend_object _ (scope.call_rule_looks schema) owner entries

theorem placed_calls_other (owner : Entity) (value : Value) (scalar : value.asObject? = none) :
    scope.placedCalls schema owner value = [] :=
  descend_other _ owner value scalar

end Order

/-! What the units call. -/
section Units

def entityCalls (target : Entity) (value : Value) : List (Call Entity) :=
  (joinUnits ((scope.inspect schema value).asEntity target)).2

omit [DecidableEq Entity] in
theorem consult_calls (owner : Option Entity) (field : String) (validator : Option Validator)
    (value : Value) (outcome : Outcome) :
    (consult owner field validator value outcome).calls =
      if outcome.isFailure then []
      else (validator.map fun _ => (⟨owner, field, value⟩ : Call Entity)).toList := by
  unfold consult
  split
  · rfl
  · cases validator with
    | none => rfl
    | some check => simp

theorem element_calls (target : Entity) (key : String) (position : Position) (part : Value) :
    (scope.elementUnit target key position (scope.inspect schema part)).2.calls =
      scope.entityCalls schema target part := by
  cases object : part.asObject? with
  | none =>
      rw [entityCalls, inspect_other scope schema part target object]
      cases part <;> simp_all [elementUnit, inspect_value, Value.asObject?] <;> rfl
  | some found =>
      obtain ⟨entries, rfl⟩ := Value.object_of_asObject part (by simp [object])
      simp [elementUnit, inspect_value, entityCalls]

omit [DecidableEq Entity] in
theorem scalar_calls (type : ScalarType) (key : String) (items : List Value) :
    (joinUnits (scope.scalarUnits type key items)).2 = [] := by
  rw [join_calls, List.flatMap_eq_nil_iff]
  intro unit member
  obtain ⟨index, inside, rfl⟩ := List.mem_mapIdx.mp member
  rfl

/-- The calls behind a shape are those of the parts that it opens. -/
theorem shape_calls (shape : Shape Entity) (key : String) (stored : Value) :
    (match scope.demand shape key (scope.inspect schema stored) with
      | .settled _ => []
      | .inside units => (joinUnits units).2) =
      (shape.openings stored).flatMap fun opening =>
        scope.entityCalls schema opening.target opening.part := by
  cases accepted : shape.accepts stored with
  | false =>
      rw [Shape.refused_openings accepted]
      simp [demand, inspect_value, accepted]
  | true =>
      simp only [demand, inspect_value, accepted, Bool.not_true, Bool.false_eq_true, ↓reduceIte]
      cases shape with
      | listOf type =>
          obtain ⟨items, rfl⟩ := Value.array_of_asArray stored accepted
          exact scope.scalar_calls type key items
      | entity target =>
          obtain ⟨entries, rfl⟩ := Value.object_of_asObject stored accepted
          simp [Shape.openings, entityCalls]
      | entityList target =>
          obtain ⟨items, rfl⟩ := Value.array_of_asArray stored accepted
          simp only [inspect_items, join_calls, List.flatMap_map, element_calls, Shape.openings]
      | entityMap target =>
          obtain ⟨entries, rfl⟩ := Value.object_of_asObject stored accepted
          simp only [inspect_entries, join_calls, List.flatMap_map, element_calls, Shape.openings]
      | _ => rfl

theorem own_calls_items (owner : Entity) (spec : FieldSpec Entity) (stored : Value) :
    (scope.ownCalls schema owner spec stored).map (·.item) =
      if (scope.shapeOutcome schema spec.shape
        (wireKey (schema.wireKeys owner) spec.name scope.options) stored).isFailure then []
      else ((scope.registry.get? owner spec.name).map fun _ =>
        (⟨some owner, spec.name, stored⟩ : Call Entity)).toList := by
  have passes := scope.shape_passes schema spec.name spec.shape
    (wireKey (schema.wireKeys owner) spec.name scope.options) stored
    fun target part _ => scope.lists_findings schema part target
  unfold ownCalls
  split
  · rename_i registered nothing
    rw [if_neg (by simp [passes.mpr nothing]), registered]
    rfl
  · rename_i other
    cases registered : scope.registry.get? owner spec.name with
    | none => simp
    | some check =>
        rw [if_pos]
        · rfl
        · exact eq_true_of_ne_false fun clean => other check registered (passes.mp clean)

theorem check_field_calls (owner : Entity) (spec : FieldSpec Entity) (stored : Option Value) :
    (scope.checkField (some owner) spec
        (wireKey (schema.wireKeys owner) spec.name scope.options)
        (stored.map (scope.inspect schema)) (scope.registry.get? owner spec.name)).calls =
      match stored with
      | none => []
      | some stored =>
        ((spec.shape.openings stored).flatMap fun opening =>
          scope.entityCalls schema opening.target opening.part) ++
        (scope.ownCalls schema owner spec stored).map (·.item) := by
  cases stored with
  | none => rfl
  | some stored =>
      have nested := scope.shape_calls schema spec.shape
        (wireKey (schema.wireKeys owner) spec.name scope.options) stored
      simp only [Option.map_some, checkField, inspect_value]
      by_cases skipped : (stored.isNull && spec.isOptional) = true
      · obtain ⟨null, spare⟩ := Bool.and_eq_true_iff.mp skipped
        have refused := Shape.null_refused spec.shape stored null
        rw [own_calls_items, Shape.refused_openings refused, shape_refused scope schema _ _ _ refused]
        simp [null, spare, Outcome.isFailure]
      · rw [← nested, own_calls_items, shapeOutcome]
        simp only [skipped, Bool.false_eq_true, ↓reduceIte]
        cases scope.demand spec.shape _ (scope.inspect schema stored) with
        | settled outcome => exact consult_calls _ _ _ _ _
        | inside units =>
            rw [Work.calls_join, consult_calls]

/-- The units of an entity make the calls that are placed in it, in their order. -/
theorem entity_calls_placed (value : Value) :
    ∀ target, scope.entityCalls schema target value =
      (scope.placedCalls schema target value).map (·.item) := by
  induction value using Value.map_induction with
  | other value scalar =>
      intro target
      rw [entityCalls, inspect_other scope schema value target scalar,
        placed_calls_other scope schema target value scalar]
      rfl
  | map entries ih =>
      intro target
      rw [placed_calls_object, List.map_flatMap, entityCalls, join_calls,
        field_units_object, List.flatMap_map]
      apply List.flatMap_congr
      intro spec declared
      rw [check_field_calls]
      cases found : schema.stored? scope.options target spec.name entries with
      | none => rfl
      | some stored =>
          simp only [nestedCalls, List.map_append, List.map_flatMap, List.map_map]
          congr 1
          apply List.flatMap_congr
          intro opening member
          exact ih _ (Shape.opening_within member (Schema.stored_inside found)) _

end Units

/-! Where the calls are placed. -/
section Places

theorem passes_present {owner : Entity} {spec : FieldSpec Entity} {stored : Value}
    (passes : scope.Passes schema owner spec stored) : stored.isNull = false := by
  apply eq_false_of_ne_true
  intro null
  have refused := Shape.null_refused spec.shape stored null
  rw [Passes, refused_findings scope _ _ _ _ _ refused] at passes
  contradiction

theorem mem_own_calls {owner : Entity} {spec : FieldSpec Entity} {stored : Value}
    {placed : Placed (Call Entity)} :
    placed ∈ scope.ownCalls schema owner spec stored ↔
      (∃ check, scope.registry.get? owner spec.name = some check) ∧
        scope.Passes schema owner spec stored ∧
        placed = ⟨[⟨spec.name, none⟩], some owner, spec.name, stored⟩ := by
  unfold ownCalls
  split
  · rename_i check nothing registered
    simp [Passes, nothing, registered]
  · rename_i other
    constructor
    · intro member
      contradiction
    · rintro ⟨⟨check, registered⟩, passes, -⟩
      exact absurd passes (other check registered)

theorem mem_placed_calls {owner : Entity} {entries : List (String × Value)}
    {placed : Placed (Call Entity)} :
    placed ∈ scope.placedCalls schema owner (.object entries) ↔
      ∃ spec ∈ schema.fields owner, ∃ stored,
        schema.stored? scope.options owner spec.name entries = some stored ∧
        ((∃ opening ∈ spec.shape.openings stored,
            ∃ inner ∈ scope.placedCalls schema opening.target opening.part,
              placed = inner.under ⟨spec.name, opening.position⟩) ∨
          placed ∈ scope.ownCalls schema owner spec stored) := by
  rw [placed_calls_object, List.mem_flatMap]
  constructor
  · rintro ⟨spec, declared, member⟩
    cases found : schema.stored? scope.options owner spec.name entries with
    | none => simp [found] at member
    | some stored =>
        simp only [found] at member
        rcases List.mem_append.mp member with nested | own
        · obtain ⟨opening, opened, inside⟩ := List.mem_flatMap.mp nested
          obtain ⟨inner, innerMember, rfl⟩ := List.mem_map.mp inside
          exact ⟨spec, declared, stored, found, Or.inl ⟨opening, opened, inner, innerMember, rfl⟩⟩
        · exact ⟨spec, declared, stored, found, Or.inr own⟩
  · rintro ⟨spec, declared, stored, found, nested | own⟩
    · obtain ⟨opening, opened, inner, innerMember, rfl⟩ := nested
      refine ⟨spec, declared, ?_⟩
      simp only [found]
      exact List.mem_append_left _
        (List.mem_flatMap.mpr ⟨opening, opened, List.mem_map_of_mem innerMember⟩)
    · refine ⟨spec, declared, ?_⟩
      simp only [found]
      exact List.mem_append_right _ own

/-- What is due inside an opened part is due in the map, one step further out. -/
theorem due_inside {owner target : Entity} {entries : List (String × Value)}
    {spec : FieldSpec Entity} {stored part : Value} {position : Option Position}
    (declared : spec ∈ schema.fields owner)
    (found : schema.stored? scope.options owner spec.name entries = some stored)
    (opens : spec.shape.Opens stored target position part) {steps : List Step}
    {call : Call Entity} (due : scope.Due schema target part steps call) :
    scope.Due schema owner (.object entries) (⟨spec.name, position⟩ :: steps) call := by
  cases due with
  | field visit inner registered held present passes =>
      exact .field (.inside declared found opens visit) inner registered held present passes

/-- Whatever is placed is due. -/
theorem due_of_mem (value : Value) :
    ∀ owner, ∀ placed ∈ scope.placedCalls schema owner value,
      scope.Due schema owner value placed.steps placed.item := by
  induction value using Value.map_induction with
  | other value scalar =>
      intro owner placed member
      rw [placed_calls_other scope schema owner value scalar] at member
      contradiction
  | map entries ih =>
      intro owner placed member
      obtain ⟨spec, declared, stored, held, nested | own⟩ :=
        (scope.mem_placed_calls schema).mp member
      · obtain ⟨opening, opened, inner, innerMember, rfl⟩ := nested
        have opens := (Shape.mem_openings spec.shape stored opening).mp opened
        have within := Shape.opens_within opens (Schema.stored_inside held)
        exact scope.due_inside schema declared held opens (ih _ within _ inner innerMember)
      · obtain ⟨⟨check, registered⟩, passes, rfl⟩ := (scope.mem_own_calls schema).mp own
        exact .field (.here owner entries) declared registered held
          (scope.passes_present schema passes) passes

theorem mem_of_due {root : Entity} {value : Value} {steps : List Step} {call : Call Entity}
    (due : scope.Due schema root value steps call) :
    ⟨steps, call⟩ ∈ scope.placedCalls schema root value := by
  cases due with
  | field visit declared registered found present passes =>
      induction visit with
      | here owner entries =>
          have own := (scope.mem_own_calls schema).mpr ⟨⟨_, registered⟩, passes, rfl⟩
          exact (scope.mem_placed_calls schema).mpr ⟨_, declared, _, found, Or.inr own⟩
      | inside outer held opens visit ih =>
          have opened := (Shape.mem_openings _ _ ⟨_, _, _⟩).mpr opens
          exact (scope.mem_placed_calls schema).mpr ⟨_, outer, _, held,
            Or.inl ⟨_, opened, _, ih declared registered found passes, rfl⟩⟩

theorem placed_calls_entered {owner : Entity} {value : Value} {placed : Placed (Call Entity)}
    (member : placed ∈ scope.placedCalls schema owner value) : placed.steps ≠ [] := by
  have due := scope.due_of_mem schema value owner placed member
  generalize placed.steps = steps at due ⊢
  generalize placed.item = call at due
  cases due with
  | field => exact List.concat_ne_nil _ _

theorem field_calls_apart (owner : Entity) (spec : FieldSpec Entity) (stored : Value)
    (keys : stored.DistinctKeys)
    (inner : ∀ opening ∈ spec.shape.openings stored,
      Apart (scope.placedCalls schema opening.target opening.part)) :
    Apart (nestedCalls (scope.placedCalls schema) spec stored ++
      scope.ownCalls schema owner spec stored) := by
  apply apart_append
  · refine apart_openings spec.shape stored keys ?_ ?_
    · intro opening _ placed member
      obtain ⟨inner, -, rfl⟩ := List.mem_map.mp member
      rfl
    · intro opening opened
      exact apart_under _ (inner opening opened)
  · unfold ownCalls
    split
    · exact apart_single _
    · exact apart_nil
  · -- A nested call has a step more than a call for the field itself.
    intro placed nested other own same
    obtain ⟨opening, -, inside⟩ := List.mem_flatMap.mp nested
    obtain ⟨inner, innerMember, rfl⟩ := List.mem_map.mp inside
    rw [((scope.mem_own_calls schema).mp own).2.2] at same
    exact scope.placed_calls_entered schema innerMember (List.cons.inj same).2

/-- No two calls are made at one place. -/
theorem placed_calls_apart (value : Value) :
    ∀ owner, schema.DistinctNames owner → value.Every Value.DistinctKeys →
      Apart (scope.placedCalls schema owner value) := by
  induction value using Value.map_induction with
  | other value scalar =>
      intro owner names keys
      rw [placed_calls_other scope schema owner value scalar]
      exact apart_nil
  | map entries ih =>
      intro owner names keys
      rw [placed_calls_object]
      refine apart_fields (names owner (.here owner)) ?_ ?_
      · intro spec _ placed member
        cases held : schema.stored? scope.options owner spec.name entries with
        | none => simp [held] at member
        | some stored =>
            simp only [held] at member
            rcases List.mem_append.mp member with nested | own
            · obtain ⟨opening, -, inside⟩ := List.mem_flatMap.mp nested
              obtain ⟨inner, -, rfl⟩ := List.mem_map.mp inside
              rfl
            · rw [((scope.mem_own_calls schema).mp own).2.2]
              rfl
      · intro spec declared
        cases held : schema.stored? scope.options owner spec.name entries with
        | none => exact apart_nil
        | some stored =>
            have inside := Schema.stored_inside held
            apply scope.field_calls_apart schema owner spec stored (keys stored (Or.inr inside))
            intro opening opened
            have opens := (Shape.mem_openings spec.shape stored opening).mp opened
            have within := Shape.opens_within opens inside
            exact ih _ within _ (Schema.distinct_names_target names declared
              (Shape.opens_target opens)) (Value.every_inside keys within)

end Places

/-- A value passes if the map has no finding at its field or inside it but a verdict on it. -/
theorem passes_iff_findings {owner : Entity} {entries : List (String × Value)}
    {spec : FieldSpec Entity} {stored : Value}
    (names : ((schema.fields owner).map (·.name)).Nodup) (declared : spec ∈ schema.fields owner)
    (held : schema.stored? scope.options owner spec.name entries = some stored)
    (present : stored.isNull = false) :
    scope.Passes schema owner spec stored ↔
      ∀ found ∈ scope.findings schema owner (.object entries), ∀ position rest,
        found.steps = ⟨spec.name, position⟩ :: rest →
          position = none ∧ rest = [] ∧ found.item.category = .rejected := by
  constructor
  · intro passes found member position rest placed
    rw [Passes] at passes
    rw [scope.findings_field schema names declared placed] at member
    simp only [fieldFindings, held, present, Bool.false_and, Bool.false_eq_true, ↓reduceIte,
      passes] at member
    obtain ⟨steps, rejected⟩ := scope.verdict_findings_steps member
    rw [placed] at steps
    obtain ⟨step, rfl⟩ := List.cons.inj steps
    exact ⟨(Step.mk.inj step).2, rfl, rejected⟩
  · intro verdicts
    rw [Passes, List.eq_nil_iff_forall_not_mem]
    intro found member
    have filed := scope.field_findings_of_shape schema held (by simp [present]) member
    have listed := fun position rest placed =>
      verdicts found ((scope.findings_field schema names declared placed).mpr filed) position rest placed
    rcases scope.shape_findings_cases member with
      ⟨category, position, part, other, rfl⟩ | ⟨opening, opened, inner, innerMember, rfl⟩
    · exact other (listed position [] rfl).2.2
    · exact scope.findings_entered schema innerMember (listed opening.position inner.steps rfl).2.1

theorem mem_placed_iff_passes {root owner : Entity} {value stored : Value} {steps : List Step}
    {entries : List (String × Value)} {spec : FieldSpec Entity} {check : Validator}
    (names : ((schema.fields owner).map (·.name)).Nodup)
    (visit : schema.Visits scope.options root value steps owner entries)
    (declared : spec ∈ schema.fields owner)
    (registered : scope.registry.get? owner spec.name = some check)
    (held : schema.stored? scope.options owner spec.name entries = some stored)
    (present : stored.isNull = false) :
    ⟨steps ++ [⟨spec.name, none⟩], some owner, spec.name, stored⟩ ∈
        scope.placedCalls schema root value ↔ scope.Passes schema owner spec stored := by
  constructor
  · intro member
    have due := scope.due_of_mem schema value root _ member
    generalize steps ++ [(⟨spec.name, none⟩ : Step)] = place at due
    generalize made : (⟨some owner, spec.name, stored⟩ : Call Entity) = call at due
    cases due with
    | field _ also _ _ _ passes =>
        obtain ⟨owners, fields, rfl⟩ := Call.mk.inj made
        obtain rfl := Option.some.inj owners
        obtain rfl := List.inj_on_of_nodup_map names declared also fields
        exact passes
  · intro passes
    exact scope.mem_of_due schema (.field visit declared registered held present passes)

/-- A finding at or inside a field of a visited map is one of the root's, and so is its verdict. -/
theorem visited_findings {root owner : Entity} {value : Value} {steps : List Step}
    {entries : List (String × Value)}
    (visit : schema.Visits scope.options root value steps owner entries)
    (names : schema.DistinctNames root) (keys : value.Every Value.DistinctKeys) (name : String)
    (law : Option Position → List Step → Descriptor → Prop) :
    (∀ found ∈ scope.findings schema owner (.object entries), ∀ position rest,
        found.steps = ⟨name, position⟩ :: rest → law position rest found.item) ↔
      ∀ found ∈ scope.findings schema root value, ∀ position rest,
        found.steps = steps ++ ⟨name, position⟩ :: rest → law position rest found.item := by
  constructor
  · intro here found member position rest placed
    obtain ⟨place, descriptor⟩ := found
    obtain rfl : place = _ := placed
    exact here _ ((scope.findings_visited schema visit names keys (List.cons_ne_nil _ _)
      descriptor).mp member) position rest rfl
  · intro there found member position rest placed
    obtain ⟨place, descriptor⟩ := found
    obtain rfl : place = _ := placed
    exact there _ ((scope.findings_visited schema visit names keys (List.cons_ne_nil _ _)
      descriptor).mpr member) position rest rfl

end Scope

namespace Endpoint

variable [DecidableEq Entity] (endpoint : Endpoint Entity) (schema : Schema Entity)

/-- Decoding validates once: the calls of both are the same. -/
theorem decode_calls (entity : Entity) (value : Value) (locale : String) :
    (endpoint.decode schema entity value locale).calls =
      (endpoint.validate schema entity value locale).calls := by
  unfold decode
  split
  · rename_i calls failure validated
    rw [validated]
  · rename_i calls report validated
    rw [validated]
    split <;> rfl

/-- Validating a map, or decoding it, calls the validator of a field once for each visited map
that holds a value there that passes its shape, with this value. What keeps such a field from its
turn is a finding at the field or inside it, other than its own verdict, and nothing else. -/
theorem calls_where_due (entity : Entity) (entries : List (String × Value)) (locale : String)
    (names : schema.DistinctNames entity)
    (keys : (Value.object entries).Every Value.DistinctKeys) :
    let value := Value.object entries
    let scope := endpoint.scope locale
    ∃ sites : List (Placed (Call Entity)),
      (endpoint.validate schema entity value locale).calls = sites.map (·.item) ∧
      (endpoint.decode schema entity value locale).calls = sites.map (·.item) ∧
      Apart sites ∧
      (∀ steps call, ⟨steps, call⟩ ∈ sites ↔ scope.Due schema entity value steps call) ∧
      ∀ steps owner inner spec stored check,
        schema.Visits scope.options entity value steps owner inner →
        spec ∈ schema.fields owner → scope.registry.get? owner spec.name = some check →
        schema.stored? scope.options owner spec.name inner = some stored →
        stored.isNull = false →
        (⟨steps ++ [⟨spec.name, none⟩], some owner, spec.name, stored⟩ ∈ sites ↔
          ∀ found ∈ scope.findings schema entity value, ∀ position rest,
            found.steps = steps ++ ⟨spec.name, position⟩ :: rest →
              position = none ∧ rest = [] ∧ found.item.category = .rejected) := by
  intro value scope
  have validated : (endpoint.validate schema entity value locale).calls =
      (scope.placedCalls schema entity value).map (·.item) :=
    scope.entity_calls_placed schema value entity
  refine ⟨scope.placedCalls schema entity value, validated,
    (endpoint.decode_calls schema entity value locale).trans validated,
    scope.placed_calls_apart schema value entity names keys, ?_, ?_⟩
  · intro steps call
    exact ⟨scope.due_of_mem schema value entity _, scope.mem_of_due schema⟩
  · intro steps owner inner spec stored check visit declared registered held present
    have once := names owner (schema.visits_reaches scope.options visit)
    rw [scope.mem_placed_iff_passes schema once visit declared registered held present,
      scope.passes_iff_findings schema once declared held present]
    exact scope.visited_findings schema visit names keys spec.name fun position rest item =>
      position = none ∧ rest = [] ∧ item.category = .rejected

end Endpoint

namespace Ledger

-- An endpoint whose validator of comments rejects all of them.
def audited : Endpoint Ledger where
  options := ⟨true⟩
  registry := ⟨[(.account, [("holder", fun _ => ⟨2, none⟩), ("movements", fun _ => ⟨0, none⟩)]),
    (.movement, [("comment", fun _ => ⟨1, some "rude"⟩)])]⟩
  accept := [.json]
  respondWith := .json
  locale := "en"

def remark : List (String × Value) :=
  [("h", .str "Ada"), ("limits", .array []),
    ("movements", .array [.object [("side", .str "credit"), ("comment", .str "x")], .null])]

theorem remark_keys : (Value.object remark).Every Value.DistinctKeys := by
  simp only [remark, Value.every_object, Value.every_array, Value.DistinctKeys,
    List.forall_mem_cons]
  simp [Value.DistinctKeys, Value.every_scalar _ (Value.str _) rfl,
    Value.every_scalar _ Value.null rfl]

/-- The rejected comment keeps the movements from their validator, and nobody else. -/
theorem remark_called :
    (schema.DistinctNames .account ∧ (Value.object remark).Every Value.DistinctKeys) ∧
    ∃ sites : List (Placed (Call Ledger)),
      (audited.decode schema .account (.object remark) "").calls = sites.map (·.item) ∧
      sites.map (·.item) =
        [⟨some .account, "holder", .str "Ada"⟩, ⟨some .movement, "comment", .str "x"⟩] ∧
      Apart sites ∧
      ∀ steps call, ⟨steps, call⟩ ∈ sites ↔
        (audited.scope "").Due schema .account (.object remark) steps call := by
  refine ⟨⟨names_distinct _, remark_keys⟩, ?_⟩
  obtain ⟨sites, validated, decoded, apart, due, -⟩ :=
    audited.calls_where_due schema .account remark "" (names_distinct _) remark_keys
  exact ⟨sites, decoded, validated.symm, apart, due⟩

end Ledger

end Interchange
