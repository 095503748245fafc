import Mathlib.Data.List.Nodup
import Interchange.Proofs.Conformance
import Interchange.Proofs.ListedFindings
import Interchange.Proofs.PathReading
/-!
One finding to a place. Fields of one map differ by their names and elements of one field by their
positions, so no two findings of a value share their steps; under plain names they do not
share a path either, and a report has one entry for each of them.
-/
namespace Interchange

/-- No two of them are at one place. -/
def Apart {α : Type} (placed : List (Placed α)) : Prop := (placed.map (·.steps)).Nodup

section Apart
universe u
variable {α κ : Type} {ι : Type u}

theorem apart_nil : Apart ([] : List (Placed α)) := List.nodup_nil

theorem apart_single (placed : Placed α) : Apart [placed] := List.nodup_singleton _

theorem apart_under (step : Step) {placed : List (Placed α)} (apart : Apart placed) :
    Apart (placed.map (.under step)) := by
  have entered : (placed.map (Placed.under step)).map Placed.steps =
      (placed.map Placed.steps).map (step :: ·) := by
    rw [List.map_map, List.map_map]
    rfl
  rw [Apart, entered]
  exact List.Nodup.map (fun _ _ same => (List.cons.inj same).2) apart

theorem apart_append {first second : List (Placed α)} (here : Apart first) (there : Apart second)
    (differ : ∀ placed ∈ first, ∀ other ∈ second, placed.steps ≠ other.steps) :
    Apart (first ++ second) := by
  rw [Apart, List.map_append, List.nodup_append]
  refine ⟨here, there, ?_⟩
  intro steps member others also
  obtain ⟨placed, placedMember, rfl⟩ := List.mem_map.mp member
  obtain ⟨other, otherMember, rfl⟩ := List.mem_map.mp also
  exact differ placed placedMember other otherMember

/-- Blocks that are apart, at places that tell which block they belong to. -/
theorem apart_flatMap {items : List ι} {block : ι → List (Placed α)} (label : ι → κ)
    (place : List Step → κ) (labels : (items.map label).Nodup)
    (inside : ∀ item ∈ items, ∀ found ∈ block item, place found.steps = label item)
    (each : ∀ item ∈ items, Apart (block item)) : Apart (items.flatMap block) := by
  rw [Apart, List.map_flatMap, List.nodup_flatMap]
  refine ⟨each, (List.pairwise_map.mp labels).imp_of_mem ?_⟩
  intro first second firstMember secondMember differ
  refine List.disjoint_left.mpr ?_
  intro steps here there
  obtain ⟨found, member, rfl⟩ := List.mem_map.mp here
  obtain ⟨other, also, same⟩ := List.mem_map.mp there
  apply differ
  rw [← inside first firstMember found member, ← inside second secondMember other also, same]

end Apart

variable {Entity : Type}

theorem positions_distinct (items : List Value) :
    (items.zipIdx.map fun item => some (Position.index item.2)).Nodup := by
  have counted : (items.zipIdx.map fun item => some (Position.index item.2)) =
      (items.zipIdx.map Prod.snd).map fun index => some (Position.index index) := by
    rw [List.map_map]
    rfl
  rw [counted, List.zipIdx_map_snd]
  exact List.Nodup.map (fun _ _ same => Position.index.inj (Option.some.inj same))
    List.nodup_range'

theorem keys_distinct (entries : List (String × Value)) (distinct : (entries.map (·.1)).Nodup) :
    (entries.map fun entry => some (Position.key entry.1)).Nodup := by
  have named : (entries.map fun entry => some (Position.key entry.1)) =
      (entries.map (·.1)).map fun key => some (Position.key key) := by
    rw [List.map_map]
    rfl
  rw [named]
  exact distinct.map fun _ _ same => Position.key.inj (Option.some.inj same)

/-- Under distinct keys, no position is opened twice. -/
theorem Shape.openings_positions (shape : Shape Entity) (stored : Value)
    (distinct : stored.DistinctKeys) : ((shape.openings stored).map (·.position)).Nodup := by
  unfold openings
  split
  · exact List.nodup_singleton _
  · rename_i items
    rw [List.map_map]
    exact positions_distinct items
  · rename_i entries
    rw [List.map_map]
    exact keys_distinct entries distinct
  · exact List.nodup_nil

namespace Schema

variable (schema : Schema Entity)

/-- Every entity type that is reached names each of its fields once. -/
def DistinctNames (entity : Entity) : Prop :=
  ∀ member, schema.Reaches entity member → ((schema.fields member).map (·.name)).Nodup

def PlainNames (entity : Entity) : Prop :=
  ∀ member, schema.Reaches entity member → ∀ spec ∈ schema.fields member, PlainName spec.name

variable {schema} {entity target : Entity} {spec : FieldSpec Entity}

theorem distinct_names_target (distinct : schema.DistinctNames entity)
    (declared : spec ∈ schema.fields entity) (leads : spec.shape.target? = some target) :
    schema.DistinctNames target :=
  fun member reached => distinct member (.inside declared leads reached)

end Schema

def headField (steps : List Step) : Option String := steps.head?.map (·.field)

def headPosition (steps : List Step) : Option Position := steps.head?.bind (·.position)

/-- Blocks of the fields of one map, each under its own name. -/
theorem apart_fields {α : Type} {fields : List (FieldSpec Entity)}
    {block : FieldSpec Entity → List (Placed α)} (names : (fields.map (·.name)).Nodup)
    (inside : ∀ spec ∈ fields, ∀ placed ∈ block spec, headField placed.steps = some spec.name)
    (each : ∀ spec ∈ fields, Apart (block spec)) : Apart (fields.flatMap block) := by
  refine apart_flatMap (fun spec => some spec.name) headField ?_ inside each
  have once := names.map fun _ _ => Option.some.inj
  rwa [List.map_map] at once

/-- Blocks of the parts that a shape opens, each under its own position. -/
theorem apart_openings {α : Type} (shape : Shape Entity) (stored : Value)
    {block : Opening Entity → List (Placed α)} (distinct : stored.DistinctKeys)
    (inside : ∀ opening ∈ shape.openings stored, ∀ placed ∈ block opening,
      headPosition placed.steps = opening.position)
    (each : ∀ opening ∈ shape.openings stored, Apart (block opening)) :
    Apart ((shape.openings stored).flatMap block) :=
  apart_flatMap (·.position) headPosition (shape.openings_positions stored distinct) inside each

namespace Scope

variable (scope : Scope Entity)

section Shapes
variable (name key : String) (shape : Shape Entity) (stored : Value)

theorem content_apart : Apart (scope.contentFindings name key shape stored) := by
  unfold contentFindings
  split
  · split
    · exact apart_nil
    · exact apart_single _
  · split
    · exact apart_single _
    · split
      · exact apart_nil
      · exact apart_single _
  · rename_i type items
    refine apart_flatMap (fun item => some (Position.index item.2)) headPosition
      (positions_distinct items) ?_ ?_
    · intro item _ found member
      split at member
      · simp at member
      · rw [List.mem_singleton.mp member]
        rfl
    · intro item _
      split
      · exact apart_nil
      · exact apart_single _
  · exact apart_nil

theorem content_or_openings :
    scope.contentFindings name key shape stored = [] ∨ shape.openings stored = [] := by
  cases shape with
  | enumeration choices => exact Or.inr rfl
  | bytes => exact Or.inr rfl
  | listOf type => exact Or.inr rfl
  | _ => exact Or.inl rfl

theorem shape_apart (inside : Entity → Value → List Finding) (distinct : stored.DistinctKeys)
    (inner : ∀ opening ∈ shape.openings stored, Apart (inside opening.target opening.part)) :
    Apart (scope.shapeFindings inside name shape key stored) := by
  have opened : Apart ((shape.openings stored).flatMap (scope.openingFindings inside name key)) := by
    refine apart_openings shape stored distinct ?_ ?_
    · intro opening _ found member
      obtain ⟨rest, placed⟩ := scope.opening_findings_head member
      rw [placed]
      rfl
    · intro opening member
      unfold openingFindings
      split
      · exact apart_under _ (inner opening member)
      · exact apart_single _
  rw [shapeFindings]
  split
  · rcases scope.content_or_openings name key shape stored with clean | closed
    · rw [clean]
      exact opened
    · rw [closed, List.flatMap_nil, List.append_nil]
      exact scope.content_apart name key shape stored
  · exact apart_single _

end Shapes

variable [DecidableEq Entity] (schema : Schema Entity)

theorem field_apart (inside : Entity → Value → List Finding) (owner : Entity)
    (spec : FieldSpec Entity) (entries : List (String × Value))
    (distinct : (Value.object entries).Every Value.DistinctKeys)
    (inner : ∀ target part, spec.shape.target? = some target →
      Value.Inside part (.object entries) → Apart (inside target part)) :
    Apart (scope.fieldFindings schema inside owner spec entries) := by
  simp only [fieldFindings]
  split
  · split
    · exact apart_nil
    · exact apart_single _
  · rename_i stored found
    have held := Schema.stored_inside found
    split
    · exact apart_nil
    · split
      · unfold verdictFindings
        split
        · exact apart_single _
        · exact apart_nil
      · apply scope.shape_apart _ _ _ _ inside (distinct stored (Or.inr held))
        intro opening member
        have opens := (Shape.mem_openings spec.shape stored opening).mp member
        exact inner opening.target opening.part (Shape.opens_target opens)
          (Shape.opens_within opens held)

/-- No two findings are at one place. -/
theorem findings_apart (value : Value) :
    ∀ owner, schema.DistinctNames owner → value.Every Value.DistinctKeys →
      Apart (scope.findings schema owner value) := by
  induction value using Value.map_induction with
  | other value scalar =>
      intro owner names keys
      rw [findings_other scope schema owner value scalar]
      exact apart_nil
  | map entries ih =>
      intro owner names keys
      rw [findings_object]
      refine apart_fields (names owner (.here owner)) ?_ ?_
      · intro spec _ found member
        obtain ⟨position, rest, placed⟩ := scope.field_findings_head schema member
        rw [placed]
        rfl
      · intro spec declared
        refine scope.field_apart schema _ owner spec entries keys ?_
        intro target part leads inside
        exact ih part inside target (Schema.distinct_names_target names declared leads)
          (Value.every_inside keys inside)

/-- Under distinct names, the first step of a finding tells which field it belongs to. -/
theorem findings_field {owner : Entity} {spec : FieldSpec Entity} {entries : List (String × Value)}
    (names : ((schema.fields owner).map (·.name)).Nodup) (declared : spec ∈ schema.fields owner)
    {found : Finding} {position : Option Position} {rest : List Step}
    (placed : found.steps = ⟨spec.name, position⟩ :: rest) :
    found ∈ scope.findings schema owner (.object entries) ↔
      found ∈ scope.fieldFindings schema (scope.findings schema) owner spec entries := by
  rw [findings_object, List.mem_flatMap]
  constructor
  · rintro ⟨other, also, member⟩
    obtain ⟨place, behind, steps⟩ := scope.field_findings_head schema member
    rw [placed] at steps
    have same : spec.name = other.name := congrArg Step.field (List.cons.inj steps).1
    obtain rfl := List.inj_on_of_nodup_map names declared also same
    exact member
  · intro member
    exact ⟨spec, declared, member⟩

/-- What is wrong inside an opened part is wrong with the map, one step further out. -/
theorem findings_inside {owner target : Entity} {spec : FieldSpec Entity}
    {entries : List (String × Value)} {stored part : Value} {position : Option Position}
    (names : ((schema.fields owner).map (·.name)).Nodup) (keys : stored.DistinctKeys)
    (declared : spec ∈ schema.fields owner)
    (found : schema.stored? scope.options owner spec.name entries = some stored)
    (opens : spec.shape.Opens stored target position part) {rest : List Step} (deep : rest ≠ [])
    (descriptor : Descriptor) :
    ⟨⟨spec.name, position⟩ :: rest, descriptor⟩ ∈ scope.findings schema owner (.object entries) ↔
      ⟨rest, descriptor⟩ ∈ scope.findings schema target part := by
  have opened := (Shape.mem_openings spec.shape stored ⟨target, position, part⟩).mpr opens
  rw [scope.findings_field schema names declared rfl]
  constructor
  · intro member
    rcases scope.field_findings_places schema member with ⟨place, single⟩ | nested
    · exact absurd (List.cons.inj single).2 deep
    · obtain ⟨other, held, opening, also, inner, innerMember, same⟩ := nested
      rw [found] at held
      obtain rfl := Option.some.inj held
      obtain ⟨steps, rfl⟩ := Placed.mk.inj same
      obtain ⟨step, rfl⟩ := List.cons.inj steps
      have unique := List.inj_on_of_nodup_map (spec.shape.openings_positions stored keys) opened
        also (Step.mk.inj step).2
      rw [← unique] at innerMember
      exact innerMember
  · intro member
    have accepted := Shape.opening_accepted opened
    have present : stored.isNull = false := by
      apply eq_false_of_ne_true
      intro null
      rw [Shape.null_refused spec.shape stored null] at accepted
      contradiction
    have nested : ⟨⟨spec.name, position⟩ :: rest, descriptor⟩ ∈ scope.openingFindings
        (scope.findings schema) spec.name (wireKey (schema.wireKeys owner) spec.name scope.options)
        ⟨target, position, part⟩ := by
      cases part with
      | object inner => exact List.mem_map.mpr ⟨_, member, rfl⟩
      | _ =>
          rw [findings_other scope schema target _ rfl] at member
          contradiction
    apply scope.field_findings_of_shape schema found (by simp [present])
    rw [shapeFindings, if_pos (kind_of_accepts spec.shape stored accepted)]
    exact List.mem_append_right _ (List.mem_flatMap.mpr ⟨_, opened, nested⟩)

/-- The findings of a visited map are the root's findings behind the steps to it. -/
theorem findings_visited {root owner : Entity} {value : Value} {steps : List Step}
    {entries : List (String × Value)} (visit : schema.Visits scope.options root value steps owner entries)
    (names : schema.DistinctNames root) (keys : value.Every Value.DistinctKeys) {rest : List Step}
    (deep : rest ≠ []) (descriptor : Descriptor) :
    ⟨steps ++ rest, descriptor⟩ ∈ scope.findings schema root value ↔
      ⟨rest, descriptor⟩ ∈ scope.findings schema owner (.object entries) := by
  induction visit with
  | here entity entries => rfl
  | inside declared found opens visit ih =>
      have held := Schema.stored_inside found
      have inner := Value.every_inside keys (Shape.opens_within opens held)
      rw [← ih (Schema.distinct_names_target names declared (Shape.opens_target opens)) inner]
      exact scope.findings_inside schema (names _ (.here _)) (keys _ (Or.inr held)) declared found
        opens (List.append_ne_nil_of_right_ne_nil _ deep) descriptor

/-- The steps of a finding enter declared fields of reached types. -/
theorem findings_steps (value : Value) :
    ∀ owner, ∀ found ∈ scope.findings schema owner value, ∀ step ∈ found.steps,
      ∃ member, schema.Reaches owner member ∧
        ∃ spec ∈ schema.fields member, step.field = spec.name := by
  induction value using Value.map_induction with
  | other value scalar =>
      intro owner found member
      rw [findings_other scope schema owner value scalar] at member
      contradiction
  | map entries ih =>
      intro owner found member step entered
      rw [findings_object] at member
      obtain ⟨spec, declared, filed⟩ := List.mem_flatMap.mp member
      have here : ∀ position, step = ⟨spec.name, position⟩ →
          ∃ member, schema.Reaches owner member ∧
            ∃ spec ∈ schema.fields member, step.field = spec.name := by
        rintro position rfl
        exact ⟨owner, .here owner, spec, declared, rfl⟩
      rcases scope.field_findings_places schema filed with ⟨position, placed⟩ | nested
      · rw [placed] at entered
        exact here position (List.mem_singleton.mp entered)
      · obtain ⟨stored, held, opening, opened, inner, innerMember, rfl⟩ := nested
        have opens := (Shape.mem_openings spec.shape stored opening).mp opened
        rcases List.mem_cons.mp entered with first | later
        · exact here _ first
        · obtain ⟨member, reached, found⟩ := ih _
            (Shape.opens_within opens (Schema.stored_inside held)) _ inner innerMember step later
          exact ⟨member, .inside declared (Shape.opens_target opens) reached, found⟩

theorem findings_paths (entity : Entity) (value : Value) (names : schema.DistinctNames entity)
    (plain : schema.PlainNames entity) (keys : value.Every Value.DistinctKeys) :
    (((scope.findings schema entity value).map Placed.filed).map (·.1)).Nodup := by
  have apart := scope.findings_apart schema value entity names keys
  have clear : ∀ found ∈ scope.findings schema entity value, ∀ step ∈ found.steps,
      PlainName step.field := by
    intro found member step entered
    obtain ⟨owner, reached, spec, declared, same⟩ :=
      scope.findings_steps schema value entity found member step entered
    rw [same]
    exact plain owner reached spec declared
  have texts : ((scope.findings schema entity value).map Placed.filed).map (·.1) =
      ((scope.findings schema entity value).map Placed.steps).map pathText := by
    rw [List.map_map, List.map_map]
    rfl
  rw [texts]
  refine List.Nodup.map_on ?_ apart
  intro first firstMember second secondMember same
  obtain ⟨found, member, rfl⟩ := List.mem_map.mp firstMember
  obtain ⟨other, also, rfl⟩ := List.mem_map.mp secondMember
  exact path_text_inj found.steps other.steps (clear found member) (clear other also) same

/-- Validation refuses a value that is no map. The report of a map has an entry for each finding,
one to a path, and no other, in the order of the paths. -/
theorem validate_lists_findings (entity : Entity) (value : Value)
    (names : schema.DistinctNames entity) (plain : schema.PlainNames entity)
    (keys : value.Every Value.DistinctKeys) :
    (value.kind ≠ .object →
      scope.validate schema entity value = .error (.notAMap (schema.name entity) value.kind)) ∧
    (value.kind = .object → ∃ report calls,
      scope.validate schema entity value = .ok (report, calls) ∧
      report.paths.Pairwise (· < ·) ∧
      report.entries.Perm ((scope.findings schema entity value).map fun found =>
        (pathText found.steps, [found.item]))) := by
  constructor
  · intro other
    cases value with
    | object entries => exact absurd rfl other
    | _ => rfl
  · intro map
    cases value with
    | object entries =>
        have listed := scope.lists_findings schema (.object entries) entity
        have wellFormed := entity_report_wellformed scope schema (.object entries) entity
        have once := (listed.map Prod.fst).nodup_iff.mpr
          (scope.findings_paths schema entity _ names plain keys)
        refine ⟨_, _, scope.validate_object schema entity entries,
          List.pairwise_map.mpr wellFormed.1, ?_⟩
        rw [Report.entries_of_listed _ wellFormed once]
        have filled := listed.map fun pair : String × Descriptor => (pair.1, [pair.2])
        rw [List.map_map] at filled
        exact filled
    | _ => cases map

end Scope

namespace Ledger

theorem names_distinct (entity : Ledger) : schema.DistinctNames entity := by
  intro member _
  cases member <;> decide

theorem names_plain (entity : Ledger) : schema.PlainNames entity := by
  intro member _
  cases member <;> simp [table, Row.text, Row.needed, Row.spare, Row.scalarList, Row.list,
    Row.case, Row.optionalText, PlainName]

-- An account with faults of its own and in its movements.
def draft : Value :=
  .object [("h", .str "Ada"), ("limits", .array [.null]),
    ("movements", .array [.null, .object [("side", .str "loan")]])]

theorem draft_keys : draft.Every Value.DistinctKeys := by
  simp only [draft, Value.every_object, Value.every_array, Value.DistinctKeys,
    List.forall_mem_cons]
  simp [Value.DistinctKeys, Value.every_scalar _ (Value.str _) rfl,
    Value.every_scalar _ Value.null rfl]

theorem draft_findings_listed :
    (schema.DistinctNames .account ∧ schema.PlainNames .account ∧
      draft.Every Value.DistinctKeys) ∧
    ∃ report calls,
      Scope.validate ⟨⟨true⟩, .empty, "en"⟩ schema .account draft = .ok (report, calls) ∧
      report.paths.Pairwise (· < ·) ∧
      report.entries.Perm
        [("limits[0]", [⟨.incompatible, none, "limits", some .null, "en"⟩]),
          ("movements[0]", [⟨.incompatible, none, "movements", some .null, "en"⟩]),
          ("movements[1].side", [⟨.unknownCase, none, "side", some (.str "loan"), "en"⟩])] := by
  refine ⟨⟨names_distinct _, names_plain _, draft_keys⟩, ?_⟩
  obtain ⟨report, calls, ended, ascending, listed⟩ :=
    (Scope.validate_lists_findings ⟨⟨true⟩, .empty, "en"⟩ schema .account draft
      (names_distinct _) (names_plain _) draft_keys).2 rfl
  exact ⟨report, calls, ended, ascending, listed⟩

end Ledger

end Interchange
