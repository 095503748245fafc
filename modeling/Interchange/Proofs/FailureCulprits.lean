import Interchange.Proofs.AggregateFailures
import Interchange.Proofs.FailurePlaces
/-!
The values that failures of building are about. A failure that comes from reads blames the value
that its innermost read failed on, read from a field under a wire key; nothing is blamed without a
value but a key that is absent. Main statement: the descriptor of a failure carries that
key and that value, with one exception that the report of the same map does not have. A part of a
field that should be opened as an entity and is no map is left out of the descriptor, which then
has the name of the field for its key.
-/
namespace Interchange

variable {Entity : Type}

/-- What a read failed on: the steps that lead there, the field that was read with its wire key,
and the value, if there is one. A part that should have been a map is marked. -/
structure Culprit where
  steps : List Step
  field : String
  key : String
  raw : Option Value
  mapless : Bool

namespace Culprit

def within (step : Step) (culprit : Culprit) : Culprit :=
  { culprit with steps := step :: culprit.steps }

/-- A descriptor has the key and the value of what failed, unless that is a part and no map. -/
structure Described (culprit : Culprit) (descriptor : Descriptor) : Prop where
  named : (descriptor.wireKey = culprit.key ∧ descriptor.raw = culprit.raw) ↔
    culprit.mapless = false
  nameless : culprit.mapless = true → descriptor.wireKey = culprit.field ∧ descriptor.raw = none

theorem described_same {culprit : Culprit} {descriptor : Descriptor}
    (map : culprit.mapless = false) (key : descriptor.wireKey = culprit.key)
    (raw : descriptor.raw = culprit.raw) : culprit.Described descriptor :=
  ⟨⟨fun _ => map, fun _ => ⟨key, raw⟩⟩, fun mapless => by rw [map] at mapless; contradiction⟩

theorem described_within {culprit : Culprit} {descriptor : Descriptor} (step : Step)
    (described : culprit.Described descriptor) : (culprit.within step).Described descriptor :=
  ⟨described.named, described.nameless⟩

end Culprit

/-- A failure inside a field is described as its source is, at a path inside the field. -/
theorem Failure.nested_located {source : Failure} {locale path : String} {descriptor : Descriptor}
    (located : source.fieldError locale = some (path, descriptor)) (name : String)
    (position : Option Position) :
    (Failure.nested name position source).fieldError locale =
      some (joinPath (Step.text ⟨name, position⟩) path, descriptor) := by
  rw [fieldError, located]
  rfl

section Reads
variable (schema : Schema Entity) (options : Options)

/-- Why any read of a field fails, whether or not it suits a declaration. -/
inductive ReadCause (entity : Entity) (entries : List (String × Value)) (name : String) :
    FieldRead Entity → Failure → Prop where
  | stored {how : FieldRead Entity} (cause : Cause) :
      ReadCause entity entries name how (.field ⟨name, wireKey (schema.wireKeys entity) name options,
        schema.stored? options entity name entries, cause⟩)
  | element {type : ScalarType} {items : List Value} {index : Nat} {item : Value}
      (held : schema.stored? options entity name entries = some (.array items))
      (inside : items[index]? = some item) (cause : Cause) :
      ReadCause entity entries name (.scalarList type) (.nested name (some (.index index))
        (.field ⟨name, wireKey (schema.wireKeys entity) name options, some item, cause⟩))
  | opened {how : FieldRead Entity} {shape : Shape Entity} {stored part : Value} {target : Entity}
      {position : Option Position} {source : Failure}
      (asks : how.opening? = some shape)
      (held : schema.stored? options entity name entries = some stored)
      (opens : shape.Opens stored target position part)
      (failed : schema.decode options target part = .error source) :
      ReadCause entity entries name how (.nested name position source)

variable {schema options} {entity : Entity} {entries : List (String × Value)} {name : String}
  {failure : Failure} {how : FieldRead Entity}

theorem demanded_cause {α : Type} {read : Part schema.Carrier → Except Failure α}
    (each : ∀ stored failure, schema.stored? options entity name entries = some stored →
      read (schema.part options stored) = .error failure →
      ReadCause schema options entity entries name how failure)
    (failed : (schema.fieldsOf options (schema.wireKeys entity) entries).demand name read =
      .error failure) : ReadCause schema options entity entries name how failure := by
  rcases demand_error schema options entity entries name read failure failed with
    ⟨absent, rfl⟩ | ⟨stored, held, failed⟩
  · rw [← absent]
    exact .stored .missing
  · exact each stored failure held failed

theorem offered_cause {α : Type} {fits : Value → Bool}
    {read : Part schema.Carrier → Except Failure α}
    (each : ∀ stored failure, schema.stored? options entity name entries = some stored →
      read (schema.part options stored) = .error failure →
      ReadCause schema options entity entries name how failure)
    (failed : (schema.fieldsOf options (schema.wireKeys entity) entries).offer name fits read =
      .error failure) : ReadCause schema options entity entries name how failure := by
  obtain ⟨stored, held, -, failed⟩ :=
    offer_error schema options entity entries name fits read failure failed
  exact each stored failure held failed

theorem stored_cause {stored : Value}
    (held : schema.stored? options entity name entries = some stored) (cause : Cause) :
    ReadCause schema options entity entries name how
      (.field ⟨name, wireKey (schema.wireKeys entity) name options, some stored, cause⟩) := by
  rw [← held]
  exact .stored cause

theorem case_cause {choices : Enumeration} (stored : Value) (failure : Failure)
    (held : schema.stored? options entity name entries = some stored)
    (failed : (schema.fieldsOf options (schema.wireKeys entity) entries).case name choices
      (schema.part options stored).value = .error failure) :
    ReadCause schema options entity entries name how failure := by
  rw [Schema.part_value] at failed
  rcases case_error schema options entity entries name choices stored failure failed with
    ⟨-, rfl⟩ | ⟨raw, -, -, rfl⟩
  · exact stored_cause held _
  · exact stored_cause held _

theorem open_cause {shape : Shape Entity} {stored : Value} (asks : how.opening? = some shape)
    (held : schema.stored? options entity name entries = some stored)
    (fault : OpenFault schema options shape name (wireKey (schema.wireKeys entity) name options)
      stored failure) : ReadCause schema options entity entries name how failure := by
  rcases fault with ⟨-, expected, rfl⟩ | ⟨target, position, part, source, opens, failed, rfl⟩
  · exact stored_cause held _
  · exact .opened asks held opens failed

theorem read_cause (how : FieldRead Entity)
    (failed : (schema.fieldsOf options (schema.wireKeys entity) entries).read name how =
      .error failure) : ReadCause schema options entity entries name how failure := by
  cases how with
  | wireKey => contradiction
  | lookup => contradiction
  | optional => contradiction
  | required type =>
      refine demanded_cause (fun stored failure held failed => ?_) failed
      rw [Schema.part_value] at failed
      obtain ⟨-, rfl⟩ := scalar_error schema options entity entries name type stored failure failed
      exact stored_cause held _
  | scalarList type =>
      refine demanded_cause (fun stored failure held failed => ?_) failed
      rw [Schema.part_value] at failed
      rcases scalar_list_error schema options entity entries name type stored failure failed with
        ⟨-, expected, rfl⟩ | ⟨items, index, item, rfl, inside, -, rfl⟩
      · exact stored_cause held _
      · exact .element held inside _
  | enumeration choices => exact demanded_cause case_cause failed
  | optionalEnumeration choices => exact offered_cause case_cause failed
  | entity target =>
      exact demanded_cause (fun stored failure held failed => open_cause rfl held
        (entity_error schema options entity entries name target stored failure failed)) failed
  | optionalEntity target =>
      exact offered_cause (fun stored failure held failed => open_cause rfl held
        (entity_error schema options entity entries name target stored failure failed)) failed
  | list target =>
      exact demanded_cause (fun stored failure held failed => open_cause rfl held
        (list_error schema options entity entries name target stored failure failed)) failed
  | optionalList target =>
      exact offered_cause (fun stored failure held failed => open_cause rfl held
        (list_error schema options entity entries name target stored failure failed)) failed
  | keyed target =>
      exact demanded_cause (fun stored failure held failed => open_cause rfl held
        (keyed_error schema options entity entries name target stored failure failed)) failed
  | optionalKeyed target =>
      exact offered_cause (fun stored failure held failed => open_cause rfl held
        (keyed_error schema options entity entries name target stored failure failed)) failed

end Reads

namespace Schema

variable (schema : Schema Entity) (options : Options)

/-- What a failure of reading a map as an entity is about, told from the reads that fail and from
what the map holds. -/
inductive Blames : Entity → List (String × Value) → Failure → Culprit → Prop where
  | stored {entity : Entity} {entries : List (String × Value)} {name : String}
      {how : FieldRead Entity} {fault : FieldFault}
      (failed : (schema.fieldsOf options (schema.wireKeys entity) entries).read name how =
        .error (.field fault)) :
      Blames entity entries (.field fault)
        ⟨[⟨name, none⟩], name, wireKey (schema.wireKeys entity) name options,
          schema.stored? options entity name entries, false⟩
  | element {entity : Entity} {entries : List (String × Value)} {name : String}
      {type : ScalarType} {items : List Value} {index : Nat} {item : Value} {fault : FieldFault}
      (failed : (schema.fieldsOf options (schema.wireKeys entity) entries).read name
        (.scalarList type) = .error (.nested name (some (.index index)) (.field fault)))
      (held : schema.stored? options entity name entries = some (.array items))
      (inside : items[index]? = some item) :
      Blames entity entries (.nested name (some (.index index)) (.field fault))
        ⟨[⟨name, some (.index index)⟩], name, wireKey (schema.wireKeys entity) name options,
          some item, false⟩
  | mapless {entity target : Entity} {entries : List (String × Value)} {name : String}
      {how : FieldRead Entity} {shape : Shape Entity} {stored part : Value}
      {position : Option Position}
      (failed : (schema.fieldsOf options (schema.wireKeys entity) entries).read name how =
        .error (.nested name position (.notAMap (schema.name target) part.kind)))
      (asks : how.opening? = some shape)
      (held : schema.stored? options entity name entries = some stored)
      (opens : shape.Opens stored target position part) (scalar : part.asObject? = none) :
      Blames entity entries (.nested name position (.notAMap (schema.name target) part.kind))
        ⟨[⟨name, position⟩], name, wireKey (schema.wireKeys entity) name options, some part, true⟩
  | inside {entity target : Entity} {entries inner : List (String × Value)} {name : String}
      {how : FieldRead Entity} {shape : Shape Entity} {stored : Value}
      {position : Option Position} {source : Failure} {culprit : Culprit}
      (failed : (schema.fieldsOf options (schema.wireKeys entity) entries).read name how =
        .error (.nested name position source))
      (asks : how.opening? = some shape)
      (held : schema.stored? options entity name entries = some stored)
      (opens : shape.Opens stored target position (.object inner))
      (rest : Blames target inner source culprit) :
      Blames entity entries (.nested name position source) (culprit.within ⟨name, position⟩)

variable {schema options} {entity : Entity} {entries : List (String × Value)} {failure : Failure}
  {culprit : Culprit}

theorem blames_steps (blames : schema.Blames options entity entries failure culprit) :
    culprit.steps ≠ [] := by
  cases blames <;> simp [Culprit.within]

theorem blames_described (locale : String)
    (blames : schema.Blames options entity entries failure culprit) :
    ∃ path descriptor, failure.fieldError locale = some (path, descriptor) ∧
      culprit.Described descriptor := by
  induction blames with
  | stored failed =>
      cases read_cause _ failed with
      | stored cause => exact ⟨_, _, rfl, Culprit.described_same rfl rfl rfl⟩
  | element failed held inside =>
      cases read_cause _ failed with
      | element heldToo insideToo cause =>
          obtain rfl := Value.array.inj (Option.some.inj (held.symm.trans heldToo))
          obtain rfl := Option.some.inj (inside.symm.trans insideToo)
          exact ⟨_, _, rfl, Culprit.described_same rfl rfl rfl⟩
      | opened asks => contradiction
  | mapless => exact ⟨_, _, rfl, by simp, fun _ => ⟨rfl, rfl⟩⟩
  | inside failed asks held opens rest ih =>
      obtain ⟨path, descriptor, located, described⟩ := ih
      exact ⟨_, descriptor, Failure.nested_located located _ _,
        Culprit.described_within _ described⟩

/-- Where all readings fail as their reads do, every failure of a map blames something. -/
theorem blames_of_relays (relays : ∀ target, schema.RelaysReads target) (value : Value) :
    ∀ entity entries failure, value = .object entries →
      schema.decode options entity (.object entries) = .error failure →
      ∃ culprit, schema.Blames options entity entries failure culprit := by
  induction value using Value.inside_induction with
  | step value ih =>
      rintro entity entries failure rfl failed
      rw [decode_object] at failed
      obtain ⟨name, how, read⟩ := relays entity _ failure failed
      have cause := read_cause how read
      cases cause with
      | stored cause => exact ⟨_, .stored read⟩
      | element held inside cause => exact ⟨_, .element read held inside⟩
      | @opened _ shape stored part target position source asks held opens failedInside =>
          cases object : part.asObject? with
          | none =>
              rw [decode_other schema options target part object] at failedInside
              obtain rfl := Except.error.inj failedInside
              exact ⟨_, .mapless read asks held opens object⟩
          | some inner =>
              obtain ⟨inner, rfl⟩ := Value.object_of_asObject part (by simp [object])
              have within := Shape.opens_within opens (stored_inside held)
              obtain ⟨culprit, rest⟩ := ih _ within target inner source rfl failedInside
              exact ⟨_, .inside read asks held opens rest⟩

end Schema

namespace Scope

variable [DecidableEq Entity] (scope : Scope Entity) (schema : Schema Entity)

/-- A blamed value that the report of the map has at its own place, as it should be described. -/
inductive Filed (entity : Entity) (entries : List (String × Value)) (failure : Failure) :
    Culprit → Prop where
  | intro {culprit : Culprit} {path : String} {descriptor : Descriptor}
      (blamed : schema.Blames scope.options entity entries failure culprit)
      (located : failure.fieldError scope.locale = some (path, descriptor))
      (files : (scope.entityReport schema entity (.object entries)).Files (pathText culprit.steps)
        ⟨descriptor.category, none, culprit.key, culprit.raw, scope.locale⟩) :
      Filed entity entries failure culprit

variable {scope schema} {entity : Entity} {entries : List (String × Value)}
  {spec : FieldSpec Entity} {how : FieldRead Entity}

/-- A failure about what is stored as a whole, or about its absence. -/
theorem filed_stored {stored : Option Value} {fault : FieldFault}
    (declared : spec ∈ schema.fields entity)
    (found : schema.stored? scope.options entity spec.name entries = stored)
    (read : (schema.fieldsOf scope.options (schema.wireKeys entity) entries).read spec.name how =
      .error (.field fault))
    (finding : scope.FieldFinding schema spec
      (wireKey (schema.wireKeys entity) spec.name scope.options)
      (scope.registry.get? entity spec.name) stored spec.name
      ⟨fault.cause.category, none, wireKey (schema.wireKeys entity) spec.name scope.options,
        stored, scope.locale⟩) :
    ∃ culprit, scope.Filed schema entity entries (.field fault) culprit := by
  have files := files_declared scope schema declared found finding
  subst found
  refine ⟨_, .stored read, rfl, ?_⟩
  rwa [pathText, step_text_whole]

/-- What a nested entity files stands in the report of the outer one, one step further in. -/
theorem filed_inside {stored : Value} {target : Entity} {position : Option Position}
    {inner : List (String × Value)} {source : Failure} {culprit : Culprit}
    (declared : spec ∈ schema.fields entity)
    (found : schema.stored? scope.options entity spec.name entries = some stored)
    (read : (schema.fieldsOf scope.options (schema.wireKeys entity) entries).read spec.name how =
      .error (.nested spec.name position source))
    (asks : how.opening? = some spec.shape)
    (opens : spec.shape.Opens stored target position (.object inner))
    (filed : scope.Filed schema target inner source culprit) :
    scope.Filed schema entity entries (.nested spec.name position source)
      (culprit.within ⟨spec.name, position⟩) := by
  obtain ⟨blamed, located, files⟩ := filed
  have outer := files_declared scope schema declared found
    (.shape (opens_looked opens) (.nested opens files))
  rw [← path_text_enter _ _ (Schema.blames_steps blamed)] at outer
  exact .intro (.inside read asks found opens blamed) (Failure.nested_located located _ _) outer

/-- One read that suits its field: what its failure blames is filed if the failures of the parts
inside are. -/
theorem read_fault_filed (declared : spec ∈ schema.fields entity) (suits : spec.Suits how)
    {failure : Failure}
    (read : (schema.fieldsOf scope.options (schema.wireKeys entity) entries).read spec.name how =
      .error failure)
    (inside : ∀ stored target position inner source,
      schema.stored? scope.options entity spec.name entries = some stored →
      spec.shape.Opens stored target position (.object inner) →
      schema.decode scope.options target (.object inner) = .error source →
      ∃ culprit, scope.Filed schema target inner source culprit) :
    ∃ culprit, scope.Filed schema entity entries failure culprit := by
  have fault := read_fault schema scope.options entity entries suits read
  generalize found : schema.stored? scope.options entity spec.name entries = stored at fault
  cases fault with
  | missing needed => exact filed_stored declared found read (.missing needed)
  | refused needed refused =>
      exact filed_stored declared found read (.shape (by simp [needed]) (.refused refused))
  | wrongRaw judged present wrong =>
      exact filed_stored declared found read
        (.shape (by simp [present]) (.wrongRaw judged present wrong))
  | unknownCase judged present raw unknown =>
      exact filed_stored declared found read
        (.shape (by simp [present]) (.unknownCase judged present raw unknown))
  | element needed judged held refused =>
      have files := files_declared scope schema declared found
        (.shape rfl (.element judged held refused))
      obtain rfl := suits_list_of suits judged
      exact ⟨_, .element read found held, rfl, files⟩
  | @nested stored part target position source opens failed =>
      have asks := suits_opening suits opens
      cases object : part.asObject? with
      | none =>
          rw [Schema.decode_other schema scope.options target part object] at failed
          obtain rfl := Except.error.inj failed
          have files := files_declared scope schema declared found
            (.shape (opens_looked opens) (.notAMap opens object))
          exact ⟨_, .mapless read asks found opens object, rfl, files⟩
      | some inner =>
          obtain ⟨inner, rfl⟩ := Value.object_of_asObject part (by simp [object])
          obtain ⟨culprit, filed⟩ := inside stored target position inner source found opens failed
          exact ⟨_, filed_inside declared found read asks opens filed⟩

variable (scope schema) in
/-- What a conforming entity fails on is filed under its own key, whatever is registered. -/
theorem conforming_filed (value : Value) :
    ∀ entity entries failure, value = .object entries → schema.Conforming entity →
      schema.decode scope.options entity (.object entries) = .error failure →
      ∃ culprit, scope.Filed schema entity entries failure culprit := by
  induction value using Value.inside_induction with
  | step value ih =>
      rintro entity entries failure rfl conforming failed
      rw [Schema.decode_object] at failed
      obtain ⟨spec, declared, how, suits, read⟩ := follows_run_error _
        (conforming entity (.here entity)) (by simp) failed
      refine read_fault_filed declared suits read ?_
      intro stored target position inner source found opens failedInside
      have within := Shape.opens_within opens (Schema.stored_inside found)
      exact ih _ within target inner source rfl
        (schema.conforming_target conforming declared (Shape.opens_target opens)) failedInside

end Scope

/-- Where decoding a map fails on its reads, something in the map is to blame. The descriptor of
the failure has the wire key of the field that it was read from and the value itself (none just
if the key is absent), unless the value is a part that should have been a map; then it has the
name of the field for a key and no value. The report of a conforming entity has both there, too.
-/
theorem failure_describes_culprit [DecidableEq Entity] (schema : Schema Entity)
    (options : Options) (entity : Entity) (entries : List (String × Value)) (failure : Failure)
    (failed : schema.decode options entity (.object entries) = .error failure) :
    (∀ culprit locale, schema.Blames options entity entries failure culprit →
      ∃ path descriptor, failure.fieldError locale = some (path, descriptor) ∧
        culprit.Described descriptor) ∧
    ((∀ target, schema.RelaysReads target) →
      ∃ culprit, schema.Blames options entity entries failure culprit) ∧
    (schema.Conforming entity → ∀ registry locale,
      ∃ culprit path descriptor report calls descriptors,
        schema.Blames options entity entries failure culprit ∧
        failure.fieldError locale = some (path, descriptor) ∧
        Scope.validate ⟨options, registry, locale⟩ schema entity (.object entries) =
          .ok (report, calls) ∧
        report.get? (pathText culprit.steps) = some descriptors ∧
        ⟨descriptor.category, none, culprit.key, culprit.raw, locale⟩ ∈ descriptors) := by
  refine ⟨fun culprit locale blames => Schema.blames_described locale blames,
    fun relays => Schema.blames_of_relays relays _ entity entries failure rfl failed, ?_⟩
  intro conforming registry locale
  let scope : Scope Entity := ⟨options, registry, locale⟩
  obtain ⟨culprit, blamed, located, files⟩ :=
    scope.conforming_filed schema _ entity entries failure rfl conforming failed
  have formed := scope.entity_report_wellformed schema (.object entries) entity
  obtain ⟨descriptors, listed, member⟩ := (Report.files_get _ formed _ _).mp files
  exact ⟨culprit, _, _, _, _, descriptors, blamed, located,
    scope.validate_object schema entity entries, listed, member⟩

/-! A type that holds more of itself, in a list under another key. -/
namespace Branch

def table : Table Unit :=
  ⟨"Branch", [("branches", "children")], [.optionalText "label", .optionalList "branches" ()]⟩

abbrev schema : Schema Unit := .ofTables fun _ => table

theorem conforms (entity : Unit) : schema.Conforming entity := by
  apply Table.tables_conform
  intro member row declared
  simp only [table, List.mem_cons, List.not_mem_nil, or_false] at declared
  rcases declared with rfl | rfl
  · exact .optional .str
  · exact .optionalList "branches" ()

/-- A number among the branches of a branch: the descriptor of the failure leaves the number out,
that of the report has it. -/
theorem misplaced_number :
    let entries := [("children", Value.array [.object [("children", .array [.integer 5])]])]
    let failure := Failure.nested "branches" (some (.index 0))
      (.nested "branches" (some (.index 0)) (.notAMap "Branch" .integer))
    let culprit : Culprit := ⟨[⟨"branches", some (.index 0)⟩, ⟨"branches", some (.index 0)⟩],
      "branches", "children", some (.integer 5), true⟩
    schema.decode ⟨true⟩ () (.object entries) = .error failure ∧
    schema.Blames ⟨true⟩ () entries failure culprit ∧
    (∃ path descriptor, failure.fieldError "en" = some (path, descriptor) ∧
      culprit.Described descriptor ∧ descriptor.wireKey = "branches" ∧ descriptor.raw = none) ∧
    ∃ culprit path descriptor report calls descriptors,
      schema.Blames ⟨true⟩ () entries failure culprit ∧
      failure.fieldError "en" = some (path, descriptor) ∧
      Scope.validate ⟨⟨true⟩, .empty, "en"⟩ schema () (.object entries) = .ok (report, calls) ∧
      report.get? (pathText culprit.steps) = some descriptors ∧
      ⟨descriptor.category, none, culprit.key, culprit.raw, "en"⟩ ∈ descriptors := by
  intro entries failure culprit
  have failed : schema.decode ⟨true⟩ () (.object entries) = .error failure := rfl
  have inner : (schema.fieldsOf ⟨true⟩ table.keys [("children", .array [.integer 5])]).read
      "branches" (.optionalList ()) =
        .error (.nested "branches" (some (.index 0)) (.notAMap "Branch" .integer)) := rfl
  have outer : (schema.fieldsOf ⟨true⟩ table.keys entries).read "branches" (.optionalList ()) =
      .error failure := rfl
  have mapless : schema.Blames ⟨true⟩ () [("children", .array [.integer 5])] _ _ :=
    .mapless inner rfl rfl (.item () rfl) (rfl : (Value.integer 5).asObject? = none)
  have blames : schema.Blames ⟨true⟩ () entries failure culprit :=
    .inside outer rfl rfl (.item () rfl) mapless
  obtain ⟨described, -, filed⟩ :=
    failure_describes_culprit schema ⟨true⟩ () entries failure failed
  obtain ⟨path, descriptor, located, same⟩ := described culprit "en" blames
  obtain ⟨key, raw⟩ := same.nameless rfl
  exact ⟨failed, blames, ⟨path, descriptor, located, same, key, raw⟩,
    filed (conforms ()) .empty "en"⟩

end Branch

end Interchange
