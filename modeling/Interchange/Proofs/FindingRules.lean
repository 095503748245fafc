import Mathlib.Data.List.Basic
import Interchange.Proofs.FieldFindings
import Interchange.Proofs.NormalizedValues
/-!
The rules of validation as a list: what fails in a value read as an entity, place by place,
found by recursion on what stands inside the value. The rules know nothing of units, sites or
reports; a finding has the steps to its place and the descriptor that belongs there.
-/
namespace Interchange

/-- Something together with the steps that lead to it from the root. -/
structure Placed (α : Type) where
  steps : List Step
  item : α

abbrev Finding := Placed Descriptor

/-- The same place, seen from one step further out. -/
def Placed.under {α : Type} (step : Step) (placed : Placed α) : Placed α :=
  ⟨step :: placed.steps, placed.item⟩

-- How a report files a finding.
def Placed.filed (finding : Finding) : String × Descriptor := (pathText finding.steps, finding.item)

variable {Entity : Type}

/-- A nested value that a shape takes for an entity. -/
structure Opening (Entity : Type) where
  target : Entity
  position : Option Position
  part : Value

namespace Shape

/-- The kinds of value that a shape is open to. -/
def kinds : Shape Entity → List Value.Kind
  | .any => [.bool, .integer, .float, .str, .bytes, .array, .object]
  | .enumeration _ => [.bool, .integer, .float, .str, .bytes, .array, .object]
  | .bool => [.bool]
  | .number => [.integer, .float]
  | .str => [.str]
  | .bytes => [.bytes, .str]
  | .list => [.array]
  | .listOf _ => [.array]
  | .entityList _ => [.array]
  | .map => [.object]
  | .entity _ => [.object]
  | .entityMap _ => [.object]

def openings : Shape Entity → Value → List (Opening Entity)
  | .entity target, .object entries => [⟨target, none, .object entries⟩]
  | .entityList target, .array items =>
    items.zipIdx.map fun item => ⟨target, some (.index item.2), item.1⟩
  | .entityMap target, .object entries =>
    entries.map fun entry => ⟨target, some (.key entry.1), entry.2⟩
  | _, _ => []

theorem mem_openings (shape : Shape Entity) (stored : Value) (opening : Opening Entity) :
    opening ∈ shape.openings stored ↔
      shape.Opens stored opening.target opening.position opening.part := by
  obtain ⟨target, position, part⟩ := opening
  constructor
  · intro member
    unfold openings at member
    split at member
    · obtain ⟨rfl, rfl, rfl⟩ := Opening.mk.inj (List.mem_singleton.mp member)
      exact .whole _ _
    · obtain ⟨item, held, same⟩ := List.mem_map.mp member
      obtain ⟨rfl, rfl, rfl⟩ := Opening.mk.inj same
      exact .item _ (List.mem_zipIdx_iff_getElem?.mp held)
    · obtain ⟨entry, held, same⟩ := List.mem_map.mp member
      obtain ⟨rfl, rfl, rfl⟩ := Opening.mk.inj same
      exact .entry _ held
    · simp at member
  · intro opens
    cases opens with
    | whole target entries => exact List.mem_singleton.mpr rfl
    | @item _ _ index _ held =>
        have counted := List.mem_zipIdx_iff_getElem? (x := (part, index)).mpr held
        exact List.mem_map.mpr ⟨_, counted, rfl⟩
    | entry target held => exact List.mem_map.mpr ⟨_, held, rfl⟩

theorem null_refused (shape : Shape Entity) (stored : Value) (null : stored.isNull = true) :
    shape.accepts stored = false := by
  cases stored with
  | null => cases shape <;> rfl
  | _ => simp [Value.isNull] at null

theorem refused_openings {shape : Shape Entity} {stored : Value}
    (refused : shape.accepts stored = false) : shape.openings stored = [] := by
  cases shape <;> cases stored <;>
    simp_all [accepts, openings, Value.asArray?, Value.asObject?]

theorem opening_accepted {shape : Shape Entity} {stored : Value} {opening : Opening Entity}
    (member : opening ∈ shape.openings stored) : shape.accepts stored = true := by
  apply eq_true_of_ne_false
  intro refused
  rw [refused_openings refused] at member
  contradiction

/-- What is opened in a part of a value is a part of the value. -/
theorem opens_within {shape : Shape Entity} {stored part whole : Value} {target : Entity}
    {position : Option Position} (opens : shape.Opens stored target position part)
    (held : Value.Inside stored whole) : Value.Inside part whole := by
  rcases opens_inside opens with rfl | deeper
  · exact held
  · exact .deeper deeper held

theorem opening_within {shape : Shape Entity} {stored whole : Value} {opening : Opening Entity}
    (member : opening ∈ shape.openings stored) (held : Value.Inside stored whole) :
    Value.Inside opening.part whole :=
  opens_within ((mem_openings shape stored opening).mp member) held

end Shape

theorem Schema.stored_inside {schema : Schema Entity} {options : Options} {entity : Entity}
    {name : String} {entries : List (String × Value)} {stored : Value}
    (found : schema.stored? options entity name entries = some stored) :
    Value.Inside stored (.object entries) :=
  .entry (Value.mem_of_lookup _ _ _ found)

/-- Induction on what stands inside maps; every other value is a case of its own. -/
theorem Value.map_induction {motive : Value → Prop}
    (other : ∀ value, value.asObject? = none → motive value)
    (map : ∀ entries, (∀ part, Inside part (.object entries) → motive part) →
      motive (.object entries)) (value : Value) : motive value := by
  induction value using inside_induction with
  | step value ih =>
      cases value with
      | object entries => exact map entries ih
      | _ => exact other _ rfl

/-! Recursion on nested entities. A rule for one map may ask for the results of what is inside. -/
section Descent
variable {α : Type}

abbrev Rule (Entity α : Type) :=
  (Entity → Value → List α) → Entity → List (String × Value) → List α

def descendWithin (rule : Rule Entity α) : Nat → Entity → Value → List α
  | depth + 1, owner, .object entries => rule (descendWithin rule depth) owner entries
  | _, _, _ => []

/-- A rule applied to a value and to whatever it asks about inside, to the bottom. -/
def descend (rule : Rule Entity α) (owner : Entity) (value : Value) : List α :=
  descendWithin rule value.height owner value

/-- A rule that asks for nothing but results of nested values. -/
def Rule.LooksInside (rule : Rule Entity α) : Prop :=
  ∀ (results others : Entity → Value → List α) (owner : Entity) (entries : List (String × Value)),
    (∀ target part, Value.Inside part (.object entries) →
      results target part = others target part) →
    rule results owner entries = rule others owner entries

theorem descend_within_other (rule : Rule Entity α) (depth : Nat) (owner : Entity) (value : Value)
    (scalar : value.asObject? = none) : descendWithin rule depth owner value = [] := by
  cases value with
  | object entries => simp [Value.asObject?] at scalar
  | _ => cases depth <;> rfl

theorem descend_other (rule : Rule Entity α) (owner : Entity) (value : Value)
    (scalar : value.asObject? = none) : descend rule owner value = [] :=
  descend_within_other rule _ owner value scalar

theorem descend_within (rule : Rule Entity α) (looks : rule.LooksInside) (value : Value) :
    ∀ depth owner, value.height ≤ depth →
      descendWithin rule depth owner value = descend rule owner value := by
  induction value using Value.map_induction with
  | other value scalar =>
      intro depth owner deep
      rw [descend_other rule owner value scalar]
      exact descend_within_other rule depth owner value scalar
  | map entries ih =>
      intro depth owner deep
      cases depth with
      | zero => contradiction
      | succ depth =>
          apply looks
          intro target part inside
          have lower := Value.inside_lower part _ inside
          rw [ih part inside depth target (by omega),
            ih part inside _ target (Nat.le_of_lt_succ lower)]

theorem descend_object (rule : Rule Entity α) (looks : rule.LooksInside) (owner : Entity)
    (entries : List (String × Value)) :
    descend rule owner (.object entries) = rule (descend rule) owner entries := by
  apply looks
  intro target part inside
  exact descend_within rule looks part _ target
    (Nat.le_of_lt_succ (Value.inside_lower part _ inside))

end Descent

namespace Scope

variable (scope : Scope Entity)

def finding (category : Category) (code : Option String) (name : String)
    (position : Option Position) (key : String) (stored : Option Value) : Finding :=
  ⟨[⟨name, position⟩], category, code, key, stored, scope.locale⟩

/-- What is wrong with the content of a value of the right kind, apart from nested entities. -/
def contentFindings (name key : String) : Shape Entity → Value → List Finding
  | .bytes, .str text =>
    if (DataUri.bytes? text).isSome then []
    else [scope.finding .incompatible none name none key (some (.str text))]
  | .enumeration choices, stored =>
    match choices.raw.read? stored with
    | none => [scope.finding .incompatible none name none key (some stored)]
    | some raw =>
      if (choices.ofRaw? raw).isSome then []
      else [scope.finding .unknownCase none name none key (some stored)]
  | .listOf type, .array items =>
    items.zipIdx.flatMap fun item =>
      if (type.read? item.1).isSome then []
      else [scope.finding .incompatible none name (some (.index item.2)) key (some item.1)]
  | _, _ => []

/-- A nested entity brings its own findings; what is no map is wrong as a whole. -/
def openingFindings (inside : Entity → Value → List Finding) (name key : String)
    (opening : Opening Entity) : List Finding :=
  if opening.part.kind = .object then
    (inside opening.target opening.part).map (.under ⟨name, opening.position⟩)
  else [scope.finding .incompatible none name opening.position key (some opening.part)]

theorem opening_findings_object (inside : Entity → Value → List Finding) (name key : String)
    (target : Entity) (position : Option Position) (entries : List (String × Value)) :
    scope.openingFindings inside name key ⟨target, position, .object entries⟩ =
      (inside target (.object entries)).map (.under ⟨name, position⟩) := rfl

theorem opening_findings_other (inside : Entity → Value → List Finding) (name key : String)
    (target : Entity) (position : Option Position) (part : Value)
    (scalar : part.asObject? = none) :
    scope.openingFindings inside name key ⟨target, position, part⟩ =
      [scope.finding .incompatible none name position key (some part)] := by
  cases part with
  | object entries => simp [Value.asObject?] at scalar
  | _ => rfl

/-- What a shape finds wrong with a stored value: its kind, or else its content. -/
def shapeFindings (inside : Entity → Value → List Finding) (name : String)
    (shape : Shape Entity) (key : String) (stored : Value) : List Finding :=
  if stored.kind ∈ shape.kinds then
    scope.contentFindings name key shape stored ++
      (shape.openings stored).flatMap (scope.openingFindings inside name key)
  else [scope.finding .incompatible none name none key (some stored)]

variable [DecidableEq Entity] (schema : Schema Entity)

-- What a validator says to a value that is right so far.
def verdictFindings (owner : Entity) (name key : String) (stored : Value) : List Finding :=
  match (scope.registry.get? owner name).bind fun check => (check stored).code with
  | some code => [scope.finding .rejected (some code) name none key (some stored)]
  | none => []

/-- What is wrong with one field of a map. Its validator comes last and only if nothing is. -/
def fieldFindings (inside : Entity → Value → List Finding) (owner : Entity)
    (spec : FieldSpec Entity) (entries : List (String × Value)) : List Finding :=
  let key := wireKey (schema.wireKeys owner) spec.name scope.options
  match schema.stored? scope.options owner spec.name entries with
  | none =>
    if spec.isOptional then [] else [scope.finding .missing none spec.name none key none]
  | some stored =>
    if stored.isNull && spec.isOptional then []
    else
      match scope.shapeFindings inside spec.name spec.shape key stored with
      | [] => scope.verdictFindings owner spec.name key stored
      | found => found

def findingRule : Rule Entity Finding := fun inside owner entries =>
  (schema.fields owner).flatMap fun spec => scope.fieldFindings schema inside owner spec entries

/-- Everything that is wrong with a value read as an entity, field by field. -/
def findings : Entity → Value → List Finding := descend (scope.findingRule schema)

omit [DecidableEq Entity] in
theorem shape_findings_congr {inside other : Entity → Value → List Finding} {stored : Value}
    (same : ∀ target part, part = stored ∨ Value.Inside part stored →
      inside target part = other target part) (name : String) (shape : Shape Entity)
    (key : String) :
    scope.shapeFindings inside name shape key stored =
      scope.shapeFindings other name shape key stored := by
  have opened : (shape.openings stored).flatMap (scope.openingFindings inside name key) =
      (shape.openings stored).flatMap (scope.openingFindings other name key) := by
    apply List.flatMap_congr
    intro opening member
    have place := Shape.opens_inside ((Shape.mem_openings shape stored opening).mp member)
    rw [openingFindings, openingFindings, same _ _ place]
  rw [shapeFindings, shapeFindings, opened]

theorem finding_rule_looks : (scope.findingRule schema).LooksInside := by
  intro results others owner entries same
  apply List.flatMap_congr
  intro spec declared
  rw [fieldFindings, fieldFindings]
  cases found : schema.stored? scope.options owner spec.name entries with
  | none => rfl
  | some stored =>
      have held := Schema.stored_inside found
      have within : ∀ target part, part = stored ∨ Value.Inside part stored →
          results target part = others target part := fun target part place =>
        same target part (place.elim (fun whole => whole ▸ held) (.deeper · held))
      simp only [scope.shape_findings_congr within]

/-- The rule for a map: its fields in order, with the findings of what is nested in them. -/
theorem findings_object (owner : Entity) (entries : List (String × Value)) :
    scope.findings schema owner (.object entries) =
      (schema.fields owner).flatMap fun spec =>
        scope.fieldFindings schema (scope.findings schema) owner spec entries :=
  descend_object _ (scope.finding_rule_looks schema) owner entries

theorem findings_other (owner : Entity) (value : Value) (scalar : value.asObject? = none) :
    scope.findings schema owner value = [] :=
  descend_other _ owner value scalar

/-! Every finding starts with a step into its own field. -/
section Heads
variable {inside : Entity → Value → List Finding} {name key : String} {shape : Shape Entity}
  {stored : Value} {found : Finding}

omit [DecidableEq Entity] in
theorem opening_findings_head {opening : Opening Entity}
    (member : found ∈ scope.openingFindings inside name key opening) :
    ∃ rest, found.steps = ⟨name, opening.position⟩ :: rest := by
  unfold openingFindings at member
  split at member
  · obtain ⟨inner, -, rfl⟩ := List.mem_map.mp member
    exact ⟨inner.steps, rfl⟩
  · rw [List.mem_singleton.mp member]
    exact ⟨[], rfl⟩

-- A finding at a field or one of its positions that no validator has made.
def OwnFinding (name key : String) (found : Finding) : Prop :=
  ∃ category position part, category ≠ .rejected ∧
    found = scope.finding category none name position key (some part)

omit [DecidableEq Entity] in
theorem content_findings_own (member : found ∈ scope.contentFindings name key shape stored) :
    scope.OwnFinding name key found := by
  unfold contentFindings at member
  split at member
  · split at member
    · simp at member
    · exact ⟨.incompatible, none, _, by decide, List.mem_singleton.mp member⟩
  · split at member
    · exact ⟨.incompatible, none, _, by decide, List.mem_singleton.mp member⟩
    · split at member
      · simp at member
      · exact ⟨.unknownCase, none, _, by decide, List.mem_singleton.mp member⟩
  · obtain ⟨item, -, filed⟩ := List.mem_flatMap.mp member
    split at filed
    · simp at filed
    · exact ⟨.incompatible, _, _, by decide, List.mem_singleton.mp filed⟩
  · simp at member

omit [DecidableEq Entity] in
/-- A finding of a shape is its own, or one inside a part that the shape opens. -/
theorem shape_findings_cases (member : found ∈ scope.shapeFindings inside name shape key stored) :
    scope.OwnFinding name key found ∨
      ∃ opening ∈ shape.openings stored, ∃ inner ∈ inside opening.target opening.part,
        found = inner.under ⟨name, opening.position⟩ := by
  unfold shapeFindings at member
  split at member
  · rcases List.mem_append.mp member with content | nested
    · exact Or.inl (scope.content_findings_own content)
    · obtain ⟨opening, opened, filed⟩ := List.mem_flatMap.mp nested
      unfold openingFindings at filed
      split at filed
      · obtain ⟨inner, innerMember, rfl⟩ := List.mem_map.mp filed
        exact Or.inr ⟨opening, opened, inner, innerMember, rfl⟩
      · exact Or.inl ⟨.incompatible, _, _, by decide, List.mem_singleton.mp filed⟩
  · exact Or.inl ⟨.incompatible, none, _, by decide, List.mem_singleton.mp member⟩

theorem verdict_findings_steps {owner : Entity}
    (member : found ∈ scope.verdictFindings owner name key stored) :
    found.steps = [⟨name, none⟩] ∧ found.item.category = .rejected := by
  unfold verdictFindings at member
  split at member
  · rw [List.mem_singleton.mp member]
    exact ⟨rfl, rfl⟩
  · simp at member

/-- A finding of a field is about its absence, its shape or its validator's verdict. -/
theorem field_findings_cases {owner : Entity} {spec : FieldSpec Entity}
    {entries : List (String × Value)}
    (member : found ∈ scope.fieldFindings schema inside owner spec entries) :
    let key := wireKey (schema.wireKeys owner) spec.name scope.options
    found = scope.finding .missing none spec.name none key none ∨
      ∃ stored, schema.stored? scope.options owner spec.name entries = some stored ∧
        (found ∈ scope.shapeFindings inside spec.name spec.shape key stored ∨
          found ∈ scope.verdictFindings owner spec.name key stored) := by
  intro key
  simp only [fieldFindings] at member
  split at member
  · split at member
    · simp at member
    · exact Or.inl (List.mem_singleton.mp member)
  · rename_i stored held
    split at member
    · simp at member
    · split at member
      · exact Or.inr ⟨stored, held, Or.inr member⟩
      · exact Or.inr ⟨stored, held, Or.inl member⟩

/-- Whatever the shape of a stored value finds is a finding of its field. -/
theorem field_findings_of_shape {owner : Entity} {spec : FieldSpec Entity}
    {entries : List (String × Value)}
    (held : schema.stored? scope.options owner spec.name entries = some stored)
    (looked : (stored.isNull && spec.isOptional) = false)
    (member : found ∈ scope.shapeFindings inside spec.name spec.shape
      (wireKey (schema.wireKeys owner) spec.name scope.options) stored) :
    found ∈ scope.fieldFindings schema inside owner spec entries := by
  simp only [fieldFindings, held, looked, Bool.false_eq_true, ↓reduceIte]
  split
  · rename_i nothing
    rw [nothing] at member
    contradiction
  · exact member

/-- A finding of a field is at the field itself, or inside a part that its shape opens. -/
theorem field_findings_places {owner : Entity} {spec : FieldSpec Entity}
    {entries : List (String × Value)}
    (member : found ∈ scope.fieldFindings schema inside owner spec entries) :
    (∃ position, found.steps = [⟨spec.name, position⟩]) ∨
      ∃ stored, schema.stored? scope.options owner spec.name entries = some stored ∧
        ∃ opening ∈ spec.shape.openings stored, ∃ inner ∈ inside opening.target opening.part,
          found = inner.under ⟨spec.name, opening.position⟩ := by
  rcases scope.field_findings_cases schema member with rfl | ⟨stored, held, shape | verdict⟩
  · exact Or.inl ⟨none, rfl⟩
  · rcases scope.shape_findings_cases shape with ⟨-, position, -, -, rfl⟩ | nested
    · exact Or.inl ⟨position, rfl⟩
    · exact Or.inr ⟨stored, held, nested⟩
  · exact Or.inl ⟨none, (scope.verdict_findings_steps verdict).1⟩

theorem field_findings_head {owner : Entity} {spec : FieldSpec Entity}
    {entries : List (String × Value)}
    (member : found ∈ scope.fieldFindings schema inside owner spec entries) :
    ∃ position rest, found.steps = ⟨spec.name, position⟩ :: rest := by
  rcases scope.field_findings_places schema member with ⟨position, placed⟩ | nested
  · exact ⟨position, [], placed⟩
  · obtain ⟨-, -, opening, -, inner, -, rfl⟩ := nested
    exact ⟨opening.position, inner.steps, rfl⟩

theorem findings_entered {owner : Entity} {value : Value}
    (member : found ∈ scope.findings schema owner value) : found.steps ≠ [] := by
  induction value using Value.map_induction with
  | other value scalar =>
      rw [findings_other scope schema owner value scalar] at member
      contradiction
  | map entries =>
      rw [findings_object] at member
      obtain ⟨spec, -, filed⟩ := List.mem_flatMap.mp member
      obtain ⟨position, rest, placed⟩ := scope.field_findings_head schema filed
      rw [placed]
      exact List.cons_ne_nil _ _

end Heads

end Scope
end Interchange
