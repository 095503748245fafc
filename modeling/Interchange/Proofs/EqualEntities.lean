import Interchange.Proofs.FieldReads
import Interchange.Proofs.FindingRules
import Interchange.Proofs.ReorderedReports
/-!
Entities of reordered values. Equality of entities is whatever relation their reading respects: it goes
on alike after equal answers and ends in equal entities. Main statement: two conforming entities that
are built from a value and from its reordering are equal. Tables respect the equality of records up
to the order of their keyed parts.
-/
namespace Interchange

variable {Entity : Type}

section Readings
variable {Carrier : Entity → Type}

/-- Equal answers of a read, where keyed collections have no order and raw values are taken up
to reordering. -/
def FieldRead.Same (same : ∀ entity, Carrier entity → Carrier entity → Prop) :
    (how : FieldRead Entity) → how.Result Carrier → how.Result Carrier → Prop
  | .required type => type.Same
  | .optional type => Option.Rel type.Same
  | .scalarList type => List.Forall₂ type.Same
  | .entity target => same target
  | .optionalEntity target => Option.Rel (same target)
  | .list target => List.Forall₂ (same target)
  | .optionalList target => Option.Rel (List.Forall₂ (same target))
  | .keyed target => AnyOrder (same target)
  | .optionalKeyed target => Option.Rel (AnyOrder (same target))
  | .optionalEnumeration _ => Option.Rel (· = ·)
  | .wireKey | .lookup | .enumeration _ => (· = ·)

/-- Readings that make the same reads as long as these answer well and the same, and end in results
that are equal. -/
inductive Reading.Respects {α : Type} (same : ∀ entity, Carrier entity → Carrier entity → Prop)
    (ends : α → α → Prop) : Reading Carrier α → Reading Carrier α → Prop where
  | done {result other : α} (equal : ends result other) :
      Respects same ends (.done result) (.done other)
  | fail (failure other : Failure) : Respects same ends (.fail failure) (.fail other)
  | read {name : String} {how : FieldRead Entity}
      {next after : Except Failure (how.Result Carrier) → Reading Carrier α}
      (each : ∀ found again, how.Same same found again →
        Respects same ends (next (.ok found)) (after (.ok again))) :
      Respects same ends (.read name how next) (.read name how after)

variable {α β : Type}

theorem follows_read {declared asked : List (FieldSpec Entity)} {failures : List Failure}
    {name : String} {how : FieldRead Entity}
    {next : Except Failure (how.Result Carrier) → Reading Carrier α}
    (follows : (Reading.read name how next).Follows declared asked failures) :
    ∃ spec ∈ declared, spec.name = name ∧ spec.Suits how ∧
      (∀ found, (next (.ok found)).Follows declared (spec :: asked) failures) ∧
      ∀ failure, (next (.error failure)).Follows declared (spec :: asked) (failure :: failures) := by
  cases follows with
  | read member suits onSuccess onFailure =>
      exact ⟨_, member, rfl, suits, onSuccess, onFailure⟩

/-- After a failed read, a reading that follows its declaration does not end well. -/
theorem follows_failed {declared asked : List (FieldSpec Entity)} {failures : List Failure}
    {reading : Reading Carrier α} (follows : reading.Follows declared asked failures)
    (failed : failures ≠ []) (fields : Fields Carrier) (result : α) :
    reading.run fields ≠ .ok result := by
  induction follows with
  | done => exact absurd rfl failed
  | fail => simp [Reading.run]
  | @read asked failures spec how next member suits onSuccess onFailure ihSuccess ihFailure =>
      rw [Reading.run]
      cases fields.read spec.name how with
      | ok found => exact ihSuccess found failed
      | error failure => exact ihFailure failure (List.cons_ne_nil failure failures)

/-- If both end well, they end in related results. -/
def Equates (relates : α → β → Prop) (left : Except Failure α) (right : Except Failure β) : Prop :=
  ∀ found again, left = .ok found → right = .ok again → relates found again

theorem respects_run {same : ∀ entity, Carrier entity → Carrier entity → Prop}
    {ends : α → α → Prop} {reading other : Reading Carrier α}
    (respects : Reading.Respects same ends reading other) {declared : List (FieldSpec Entity)}
    (fields others : Fields Carrier)
    (answers : ∀ spec ∈ declared, ∀ how, spec.Suits how →
      Equates (how.Same same) (fields.read spec.name how) (others.read spec.name how)) :
    ∀ {asked failures askedToo failuresToo}, reading.Follows declared asked failures →
      other.Follows declared askedToo failuresToo →
      Equates ends (reading.run fields) (other.run others) := by
  induction respects with
  | done equal =>
      rintro _ _ _ _ - - found again ⟨⟩ ⟨⟩
      exact equal
  | fail => rintro _ _ _ _ - - found again ⟨⟩
  | @read name how next after each ih =>
      intro asked failures askedToo failuresToo follows follow found again ended endedToo
      obtain ⟨spec, member, rfl, suits, onSuccess, onFailure⟩ := follows_read follows
      obtain ⟨_, _, _, _, onSuccessToo, onFailureToo⟩ := follows_read follow
      rw [Reading.run] at ended endedToo
      cases read : fields.read spec.name how with
      | error failure =>
          rw [read] at ended
          exact absurd ended
            (follows_failed (onFailure failure) (List.cons_ne_nil _ _) fields found)
      | ok answer =>
          cases readToo : others.read spec.name how with
          | error failure =>
              rw [readToo] at endedToo
              exact absurd endedToo
                (follows_failed (onFailureToo failure) (List.cons_ne_nil _ _) others again)
          | ok answerToo =>
              rw [read] at ended
              rw [readToo] at endedToo
              have same := answers spec member how suits answer answerToo read readToo
              exact ih answer answerToo same (onSuccess answer) (onSuccessToo answerToo) found again
                ended endedToo

end Readings

namespace Equates
variable {α β γ δ : Type} {relates : α → β → Prop} {left : Except Failure α}
  {right : Except Failure β}

theorem of_ok {found : α} {again : β} (related : relates found again) :
    Equates relates (.ok found) (.ok again) := by
  rintro _ _ ⟨⟩ ⟨⟩
  exact related

theorem of_error (failure : Failure) : Equates relates (.error failure) right := by
  rintro _ _ ⟨⟩

theorem map (equates : Equates relates left right) {others : γ → δ → Prop} {change : α → γ}
    {changeToo : β → δ} (respects : ∀ item other, relates item other →
      others (change item) (changeToo other)) :
    Equates others (left.map change) (right.map changeToo) := by
  cases left with
  | error failure => exact of_error failure
  | ok found =>
      cases right with
      | error failure => rintro _ _ - ⟨⟩
      | ok again => exact of_ok (respects _ _ (equates found again rfl rfl))

theorem nested (equates : Equates relates left right) (name : String)
    (position : Option Position) :
    Equates relates (left.mapError (.nested name position))
      (right.mapError (.nested name position)) := by
  cases left with
  | error failure => exact of_error _
  | ok found =>
      cases right with
      | error failure => rintro _ _ - ⟨⟩
      | ok again => exact equates

end Equates

namespace Fields
variable {α : Type}

theorem present_reordered {value other : Value} (reordered : Value.Reordered value other) :
    isPresent value = isPresent other := by
  rw [isPresent, isPresent, Value.reordered_null reordered]

theorem object_reordered {value other : Value} (reordered : Value.Reordered value other) :
    isObject value = isObject other := by
  cases reordered <;> rfl

theorem array_reordered {value other : Value} (reordered : Value.Reordered value other) :
    isArray value = isArray other := by
  cases reordered <;> rfl

/-! What was collected, item by item. -/

theorem collect_items_found (name : String) (index : Nat) (done found : List α)
    (results : List (Except Failure α))
    (ended : collectItems name index done results = .ok found) :
    ∃ items, found = done.reverse ++ items ∧
      List.Forall₂ (fun item result => result = .ok item) items results := by
  induction results generalizing index done with
  | nil => exact ⟨[], by simpa [collectItems] using ended.symm, .nil⟩
  | cons first rest ih =>
      cases first with
      | error source => simp [collectItems] at ended
      | ok item =>
          obtain ⟨items, rfl, each⟩ := ih (index + 1) (item :: done) ended
          exact ⟨item :: items, by simp, .cons rfl each⟩

theorem collect_entries_found (name : String) (done found : List (String × α))
    (results : List (String × Except Failure α))
    (ended : collectEntries name done results = .ok found) :
    ∃ items, found = done.reverse ++ items ∧
      List.Forall₂ (SameKey fun item result => result = .ok item) items results := by
  induction results generalizing done with
  | nil => exact ⟨[], by simpa [collectEntries] using ended.symm, .nil⟩
  | cons first rest ih =>
      obtain ⟨key, result⟩ := first
      cases result with
      | error source => simp [collectEntries] at ended
      | ok item =>
          obtain ⟨items, rfl, each⟩ := ih ((key, item) :: done) ended
          exact ⟨(key, item) :: items, by simp, .cons (.mk rfl) each⟩

theorem items_found {β : Type} (name : String) (read : β → Except Failure α) (items : List β)
    (found : List α) (ended : collectItems name 0 [] (items.map read) = .ok found) :
    List.Forall₂ (fun result item => read item = .ok result) found items := by
  obtain ⟨_, rfl, each⟩ := collect_items_found name 0 [] found _ ended
  exact List.forall₂_map_right_iff.mp each

theorem entries_found {β : Type} (name : String) (read : β → Except Failure α)
    (entries : List (String × β)) (found : List (String × α))
    (ended : collectEntries name [] (entries.map fun entry => (entry.1, read entry.2)) =
      .ok found) :
    List.Forall₂ (SameKey fun result item => read item = .ok result) found entries := by
  obtain ⟨_, rfl, each⟩ := collect_entries_found name [] found _ ended
  refine (List.forall₂_map_right_iff.mp each).imp ?_
  rintro ⟨key, result⟩ ⟨_, item⟩ ⟨read⟩
  exact .mk read

end Fields

/-! Reads of two maps of which one has a reordering of what the other has. -/
section Reads
variable {schema : Schema Entity} {options : Options} {owner : Entity}
  {entries others : List (String × Value)} {name : String}
  {same : ∀ entity, schema.Carrier entity → schema.Carrier entity → Prop}

theorem scalar_equates (fields more : Fields schema.Carrier) (type : ScalarType) {raw other : Value}
    (reordered : Value.Reordered raw other) :
    Equates type.Same (fields.scalar name type raw) (more.scalar name type other) := by
  have read := type.read_reordered reordered
  rw [Fields.scalar, Fields.scalar]
  generalize type.read? raw = found at read
  generalize type.read? other = again at read
  cases read with
  | none => exact .of_error _
  | some related => exact .of_ok related

theorem case_equates (fields more : Fields schema.Carrier) {choices : Enumeration}
    (typed : choices.raw ≠ .value) {raw other : Value} (reordered : Value.Reordered raw other) :
    Equates (· = ·) (fields.case name choices raw) (more.case name choices other) := by
  rw [Fields.case, Fields.case, ScalarType.read_typed typed reordered]
  cases choices.raw.read? other with
  | none => exact .of_error _
  | some found =>
      dsimp only
      cases choices.ofRaw? found with
      | none => exact .of_error _
      | some case => exact .of_ok rfl

theorem scalar_list_equates (fields more : Fields schema.Carrier) (type : ScalarType)
    {raw other : Value} (reordered : Value.Reordered raw other) :
    Equates (List.Forall₂ type.Same) (fields.scalarList name type raw)
      (more.scalarList name type other) := by
  cases raw with
  | array items =>
      cases reordered with
      | scalar flat => contradiction
      | array each =>
          intro found again ended endedToo
          exact related_through (Fields.items_found name _ items found ended) each
            (Fields.items_found name _ _ again endedToo) fun item _ other result after read
              related readToo => scalar_equates fields more type related result after read readToo
  | _ => exact .of_error _

/-- A value that is built equally from any of its reorderings. -/
def EqualWhenBuilt (schema : Schema Entity) (options : Options)
    (same : ∀ entity, schema.Carrier entity → schema.Carrier entity → Prop) (target : Entity)
    (value : Value) : Prop :=
  ∀ other, Value.Reordered value other →
    Equates (same target) (schema.decode options target value) (schema.decode options target other)

section Opened
variable {target : Entity} {stored other : Value} (fields more : Fields schema.Carrier)

theorem entity_equates (reordered : Value.Reordered stored other)
    (equal : EqualWhenBuilt schema options same target stored) :
    Equates (same target) (fields.entity name target (schema.part options stored))
      (more.entity name target (schema.part options other)) := by
  have inner := equal other reordered
  rw [Fields.entity, Fields.entity, Schema.part_value, Schema.part_value]
  cases reordered with
  | scalar flat =>
      cases stored with
      | object => contradiction
      | _ => exact .of_error _
  | array => exact .of_error _
  | object => exact inner.nested name none

theorem list_equates (reordered : Value.Reordered stored other)
    (equal : ∀ part, Value.Inside part stored → EqualWhenBuilt schema options same target part) :
    Equates (List.Forall₂ (same target)) (fields.list name target (schema.part options stored))
      (more.list name target (schema.part options other)) := by
  rw [Fields.list, Fields.list, Schema.part_value, Schema.part_value]
  cases reordered with
  | scalar flat =>
      cases stored with
      | array => contradiction
      | _ => exact .of_error _
  | object => exact .of_error _
  | array each =>
      simp only [Schema.part_items]
      intro found again ended endedToo
      exact related_through (Fields.items_found name _ _ found ended) each
        (Fields.items_found name _ _ again endedToo) fun item member other result after read
          related readToo => equal item (.item member) other related result after read readToo

theorem keyed_equates (reordered : Value.Reordered stored other)
    (equal : ∀ part, Value.Inside part stored → EqualWhenBuilt schema options same target part) :
    Equates (AnyOrder (same target)) (fields.keyed name target (schema.part options stored))
      (more.keyed name target (schema.part options other)) := by
  rw [Fields.keyed, Fields.keyed, Schema.part_value, Schema.part_value]
  cases reordered with
  | scalar flat =>
      cases stored with
      | object => contradiction
      | _ => exact .of_error _
  | array => exact .of_error _
  | object moved each =>
      simp only [Schema.part_entries]
      intro found again ended endedToo
      exact any_order_through (Fields.entries_found name _ _ found ended) ⟨moved, each⟩
        (Fields.entries_found name _ _ again endedToo) fun entry member other result after read
          related readToo => equal entry.2 (.entry member) other related result after read readToo

end Opened

variable (held : Option.Rel Value.Reordered (schema.stored? options owner name entries)
  (schema.stored? options owner name others))
include held

theorem demand_equates {α : Type} {relates : α → α → Prop}
    {read readToo : Part schema.Carrier → Except Failure α}
    (each : ∀ stored other, schema.stored? options owner name entries = some stored →
      Value.Reordered stored other →
      Equates relates (read (schema.part options stored)) (readToo (schema.part options other))) :
    Equates relates
      ((schema.fieldsOf options (schema.wireKeys owner) entries).demand name read)
      ((schema.fieldsOf options (schema.wireKeys owner) others).demand name readToo) := by
  intro found again ended endedToo
  obtain ⟨stored, here, ended⟩ := (demand_ok schema options owner entries name read found).mp ended
  obtain ⟨other, there, endedToo⟩ :=
    (demand_ok schema options owner others name readToo again).mp endedToo
  rw [here, there] at held
  cases held with
  | some reordered => exact each stored other here reordered found again ended endedToo

theorem offer_equates {α : Type} {relates : α → α → Prop} {fits : Value → Bool}
    {read readToo : Part schema.Carrier → Except Failure α}
    (kept : ∀ stored other, Value.Reordered stored other → fits stored = fits other)
    (each : ∀ stored other, schema.stored? options owner name entries = some stored →
      Value.Reordered stored other →
      Equates relates (read (schema.part options stored)) (readToo (schema.part options other))) :
    Equates (Option.Rel relates)
      ((schema.fieldsOf options (schema.wireKeys owner) entries).offer name fits read)
      ((schema.fieldsOf options (schema.wireKeys owner) others).offer name fits readToo) := by
  rw [Fields.offer, Fields.offer, Schema.fields_part, Schema.fields_part]
  cases here : schema.stored? options owner name entries with
  | none =>
      rw [here] at held
      generalize schema.stored? options owner name others = there at held
      cases held
      exact .of_ok .none
  | some stored =>
      rw [here] at held
      generalize schema.stored? options owner name others = there at held
      cases held with
      | @some _ other reordered =>
          simp only [Option.map_some, Schema.part_value, kept stored other reordered]
          cases fits other with
          | true => exact (each stored other here reordered).map fun _ _ => .some
          | false => exact .of_ok .none

theorem optional_same (type : ScalarType) :
    Option.Rel type.Same
      ((schema.fieldsOf options (schema.wireKeys owner) entries).optional name type)
      ((schema.fieldsOf options (schema.wireKeys owner) others).optional name type) := by
  rw [Fields.optional, Fields.optional, Fields.lookup, Fields.lookup, Schema.fields_part,
    Schema.fields_part]
  generalize schema.stored? options owner name entries = here at held
  generalize schema.stored? options owner name others = there at held
  cases held with
  | none => exact .none
  | @some stored other reordered =>
      simp only [Option.map_some, Schema.part_value, Value.reordered_null reordered]
      cases other.isNull with
      | true => exact .none
      | false => exact type.read_reordered reordered

/-- A suiting read answers the same for both maps if the entities in them are built equally. -/
theorem read_equates {spec : FieldSpec Entity} {how : FieldRead Entity} (suits : spec.Suits how)
    (equal : ∀ stored target part, schema.stored? options owner name entries = some stored →
      spec.shape.target? = some target → part = stored ∨ Value.Inside part stored →
      EqualWhenBuilt schema options same target part) :
    Equates (how.Same same)
      ((schema.fieldsOf options (schema.wireKeys owner) entries).read name how)
      ((schema.fieldsOf options (schema.wireKeys owner) others).read name how) := by
  cases suits with
  | required carries =>
      refine demand_equates held fun stored other _ reordered => ?_
      rw [Schema.part_value, Schema.part_value]
      exact scalar_equates _ _ _ reordered
  | optional carries => exact .of_ok (optional_same held _)
  | scalarList =>
      refine demand_equates held fun stored other _ reordered => ?_
      rw [Schema.part_value, Schema.part_value]
      exact scalar_list_equates _ _ _ reordered
  | enumeration _ typed =>
      refine demand_equates held fun stored other _ reordered => ?_
      rw [Schema.part_value, Schema.part_value]
      exact case_equates _ _ typed reordered
  | optionalEnumeration _ typed =>
      refine offer_equates held (fun _ _ => Fields.present_reordered) fun stored other _
        reordered => ?_
      rw [Schema.part_value, Schema.part_value]
      exact case_equates _ _ typed reordered
  | entity _ target =>
      exact demand_equates held fun stored other found reordered =>
        entity_equates _ _ reordered (equal stored target stored found rfl (Or.inl rfl))
  | optionalEntity _ target =>
      exact offer_equates held (fun _ _ => Fields.object_reordered) fun stored other found
          reordered =>
        entity_equates _ _ reordered (equal stored target stored found rfl (Or.inl rfl))
  | list _ target =>
      exact demand_equates held fun stored other found reordered =>
        list_equates _ _ reordered fun part inside =>
          equal stored target part found rfl (Or.inr inside)
  | optionalList _ target =>
      exact offer_equates held (fun _ _ => Fields.array_reordered) fun stored other found
          reordered =>
        list_equates _ _ reordered fun part inside =>
          equal stored target part found rfl (Or.inr inside)
  | keyed _ target =>
      exact demand_equates held fun stored other found reordered =>
        keyed_equates _ _ reordered fun part inside =>
          equal stored target part found rfl (Or.inr inside)
  | optionalKeyed _ target =>
      exact offer_equates held (fun _ _ => Fields.object_reordered) fun stored other found
          reordered =>
        keyed_equates _ _ reordered fun part inside =>
          equal stored target part found rfl (Or.inr inside)

end Reads

namespace Schema

/-- The readings of all entity types that are reached respect equality. -/
def Respects (schema : Schema Entity)
    (same : ∀ entity, schema.Carrier entity → schema.Carrier entity → Prop) (entity : Entity) :
    Prop :=
  ∀ member, schema.Reaches entity member →
    Reading.Respects same (same member) (schema.reading member) (schema.reading member)

variable {schema : Schema Entity} {options : Options}
  {same : ∀ entity, schema.Carrier entity → schema.Carrier entity → Prop}

theorem respects_target {entity target : Entity} {spec : FieldSpec Entity}
    (respects : schema.Respects same entity) (declared : spec ∈ schema.fields entity)
    (leads : spec.shape.target? = some target) : schema.Respects same target :=
  fun member reached => respects member (.inside declared leads reached)

/-- By induction on what stands inside: a value and its reordering are built as equal entities. -/
theorem decode_reordered (value : Value) :
    ∀ entity, schema.Conforming entity → schema.Respects same entity →
      value.Every Value.DistinctKeys → EqualWhenBuilt schema options same entity value := by
  induction value using Value.map_induction with
  | other value scalar =>
      intro entity conforming respects keys other reordered
      rw [decode_other schema options entity value scalar]
      exact .of_error _
  | map entries ih =>
      intro entity conforming respects keys other reordered
      cases reordered with
      | scalar flat => contradiction
      | object moved each =>
          have follows := conforming entity (.here entity)
          rw [decode_object, decode_object]
          refine respects_run (respects entity (.here entity)) _ _ ?_ follows follows
          intro spec declared how suits
          refine read_equates (schema.stored_reordered options entity spec.name
            (Value.every_here keys) moved each) suits ?_
          intro stored target part found leads within
          have inside : Value.Inside part (.object entries) := by
            rcases within with rfl | deeper
            · exact stored_inside found
            · exact .deeper deeper (stored_inside found)
          exact ih part inside target (schema.conforming_target conforming declared leads)
            (respects_target respects declared leads) (Value.every_inside keys inside)

end Schema

mutual
/-- Records that are equal but for the order of keyed parts and of keys in raw values. -/
inductive Record.Same : Record → Record → Prop where
  | mk {entity : String} {keys : WireKeys} {writes others : List (String × Content)}
      (each : List.Forall₂ (SameKey Content.Same) writes others) :
      Record.Same (.mk entity keys writes) (.mk entity keys others)
inductive Content.Same : Content → Content → Prop where
  | leaf {value other : Value} (reordered : Value.Reordered value other) :
      Content.Same (.leaf value) (.leaf other)
  | entity {record other : Record} (same : Record.Same record other) :
      Content.Same (.entity record) (.entity other)
  | list {records others : List Record} (each : List.Forall₂ Record.Same records others) :
      Content.Same (.list records) (.list others)
  | keyed {records middle others : List (String × Record)} (moved : records.Perm middle)
      (each : List.Forall₂ (SameKey Record.Same) middle others) :
      Content.Same (.keyed records) (.keyed others)
end

theorem Content.keyed_same {records others : List (String × Record)}
    (alike : AnyOrder Record.Same records others) : Same (.keyed records) (.keyed others) := by
  obtain ⟨moved, each⟩ := alike
  exact .keyed moved each

theorem ScalarType.write_same (type : ScalarType) {found again : type.Carrier}
    (same : type.Same found again) : Value.Reordered (type.write found) (type.write again) := by
  cases type with
  | value => exact same
  | _ =>
      cases same
      exact Value.reordered_refl _

theorem FieldRead.content_same (how : FieldRead Entity) {found again : how.Result Recorded}
    (same : how.Same (fun _ => Record.Same) found again) :
    (how.content found).Same (how.content again) := by
  cases how with
  | wireKey | enumeration =>
      cases same
      exact .leaf (Value.reordered_refl _)
  | lookup =>
      cases same
      cases found <;> exact .leaf (Value.reordered_refl _)
  | required type => exact .leaf (type.write_same same)
  | optional type =>
      cases same with
      | none => exact .leaf (Value.reordered_refl _)
      | some same => exact .leaf (type.write_same same)
  | scalarList type =>
      refine .leaf (.array ?_)
      rw [List.forall₂_map_left_iff, List.forall₂_map_right_iff]
      exact same.imp fun _ _ => type.write_same
  | optionalEnumeration choices =>
      cases same with
      | none => exact .leaf (Value.reordered_refl _)
      | some same =>
          cases same
          exact .leaf (Value.reordered_refl _)
  | entity => exact .entity same
  | optionalEntity =>
      cases same with
      | none => exact .leaf (Value.reordered_refl _)
      | some same => exact .entity same
  | list => exact .list same
  | optionalList =>
      cases same with
      | none => exact .leaf (Value.reordered_refl _)
      | some same => exact .list same
  | keyed => exact Content.keyed_same same
  | optionalKeyed =>
      cases same with
      | none => exact .leaf (Value.reordered_refl _)
      | some same => exact Content.keyed_same same

namespace Table

theorem read_rows_respect (table : Table Entity) (rows : List (Row Entity))
    {done others : List (String × Content)}
    (each : List.Forall₂ (SameKey Content.Same) done others) :
    Reading.Respects (fun _ => Record.Same) Record.Same (table.readRows done rows)
      (table.readRows others rows) := by
  induction rows generalizing done others with
  | nil => exact .done (.mk (List.forall₂_reverse_iff.mpr each))
  | cons row rest ih =>
      exact .read fun found again same => ih (.cons (.mk (row.how.content_same same)) each)

/-- Tables respect the equality of records. -/
theorem tables_respect (tables : Entity → Table Entity) (entity : Entity) :
    (Schema.ofTables tables).Respects (fun _ => Record.Same) entity :=
  fun member _ => read_rows_respect (tables member) (tables member).rows .nil

end Table

end Interchange
