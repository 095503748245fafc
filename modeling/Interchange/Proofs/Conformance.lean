import Interchange.Entity.Decoding
import Interchange.Entity.Table
import Interchange.Proofs.NestedPlaces
/-!
When the reading of an entity fits its declaration. A read suits a field if it asks for what the
field's shape and presence promise; a reading follows a declaration if it makes suiting reads only,
ends well only after all fields have been read well, and otherwise fails as one of its
reads did. The order of the reads and what happens between a failed one and the end are free.
-/
namespace Interchange

variable {Entity : Type}

/-- The scalar types that a shape stands for; a shape without a type of its own is passed on. -/
inductive Shape.Carries : Shape Entity → ScalarType → Prop where
  | bool : Carries .bool .bool
  | str : Carries .str .str
  | identifier : Carries .str .identifier
  | integer (type : IntegerType) : Carries .number (.integer type)
  | single : Carries .number .single
  | double : Carries .number .double
  | bytes : Carries .bytes .bytes
  | any : Carries .any .value
  | list : Carries .list .value
  | map : Carries .map .value

-- A field of scalars in a list has no optional read, and an enumeration whose raw values are
-- arbitrary would take a null for a raw value.
inductive FieldSpec.Suits : FieldSpec Entity → FieldRead Entity → Prop where
  | required {name : String} {shape : Shape Entity} {type : ScalarType}
      (carries : shape.Carries type) : Suits ⟨name, shape, .required⟩ (.required type)
  | optional {name : String} {shape : Shape Entity} {type : ScalarType}
      (carries : shape.Carries type) : Suits ⟨name, shape, .optional⟩ (.optional type)
  | scalarList (name : String) (type : ScalarType) :
      Suits ⟨name, .listOf type, .required⟩ (.scalarList type)
  | enumeration (name : String) {choices : Enumeration} (typed : choices.raw ≠ .value) :
      Suits ⟨name, .enumeration choices, .required⟩ (.enumeration choices)
  | optionalEnumeration (name : String) {choices : Enumeration} (typed : choices.raw ≠ .value) :
      Suits ⟨name, .enumeration choices, .optional⟩ (.optionalEnumeration choices)
  | entity (name : String) (target : Entity) :
      Suits ⟨name, .entity target, .required⟩ (.entity target)
  | optionalEntity (name : String) (target : Entity) :
      Suits ⟨name, .entity target, .optional⟩ (.optionalEntity target)
  | list (name : String) (target : Entity) :
      Suits ⟨name, .entityList target, .required⟩ (.list target)
  | optionalList (name : String) (target : Entity) :
      Suits ⟨name, .entityList target, .optional⟩ (.optionalList target)
  | keyed (name : String) (target : Entity) :
      Suits ⟨name, .entityMap target, .required⟩ (.keyed target)
  | optionalKeyed (name : String) (target : Entity) :
      Suits ⟨name, .entityMap target, .optional⟩ (.optionalKeyed target)

/-- The shape under which a read opens what is stored as entities. -/
def FieldRead.opening? : FieldRead Entity → Option (Shape Entity)
  | .entity target => some (.entity target)
  | .optionalEntity target => some (.entity target)
  | .list target => some (.entityList target)
  | .optionalList target => some (.entityList target)
  | .keyed target => some (.entityMap target)
  | .optionalKeyed target => some (.entityMap target)
  | _ => none

theorem suits_opening {spec : FieldSpec Entity} {how : FieldRead Entity} (suits : spec.Suits how)
    {stored part : Value} {target : Entity} {position : Option Position}
    (opens : spec.shape.Opens stored target position part) :
    how.opening? = some spec.shape := by
  cases suits with
  | required carries => cases carries <;> cases opens
  | optional carries => cases carries <;> cases opens
  | scalarList => cases opens
  | enumeration => cases opens
  | optionalEnumeration => cases opens
  | _ => rfl

theorem suits_list_of {spec : FieldSpec Entity} {how : FieldRead Entity} (suits : spec.Suits how)
    {type : ScalarType} (judged : spec.shape = .listOf type) : how = .scalarList type := by
  cases suits with
  | required carries => cases carries <;> cases judged
  | optional carries => cases carries <;> cases judged
  | scalarList name type =>
      cases judged
      rfl
  | _ => cases judged

/-- A read matches a shape if it opens the shape as entities, or if neither knows any entity. -/
inductive Shape.Meets : Shape Entity → FieldRead Entity → Prop where
  | flat {shape : Shape Entity} {how : FieldRead Entity} (closed : shape.target? = none)
      (plain : how.opening? = none) (keyless : how ≠ .wireKey) : Meets shape how
  | opened {shape : Shape Entity} {how : FieldRead Entity} (asks : how.opening? = some shape) :
      Meets shape how

theorem meets_of_suits {spec : FieldSpec Entity} {how : FieldRead Entity}
    (suits : spec.Suits how) : spec.shape.Meets how := by
  cases suits with
  | required carries => cases carries <;> exact .flat rfl rfl nofun
  | optional carries => cases carries <;> exact .flat rfl rfl nofun
  | scalarList => exact .flat rfl rfl nofun
  | enumeration => exact .flat rfl rfl nofun
  | optionalEnumeration => exact .flat rfl rfl nofun
  | _ => exact .opened rfl

theorem meets_opening {shape opened : Shape Entity} {how : FieldRead Entity}
    (meets : shape.Meets how) (opening : how.opening? = some opened) : shape = opened := by
  cases meets with
  | flat _ plain => simp [plain] at opening
  | opened asks => exact Option.some.inj (asks.symm.trans opening)

theorem meets_closed {shape : Shape Entity} {how : FieldRead Entity} (meets : shape.Meets how)
    (plain : how.opening? = none) : shape.target? = none := by
  cases meets with
  | flat closed => exact closed
  | opened asks => simp [plain] at asks

section Following
variable {Carrier : Entity → Type} {α : Type}

inductive Reading.Follows (declared : List (FieldSpec Entity)) :
    List (FieldSpec Entity) → List Failure → Reading Carrier α → Prop where
  | done {asked : List (FieldSpec Entity)} {result : α}
      (complete : ∀ spec ∈ declared, spec ∈ asked) : Follows declared asked [] (.done result)
  | fail {asked : List (FieldSpec Entity)} {failures : List Failure} {failure : Failure}
      (seen : failure ∈ failures) : Follows declared asked failures (.fail failure)
  | read {asked : List (FieldSpec Entity)} {failures : List Failure}
      {spec : FieldSpec Entity} {how : FieldRead Entity}
      {next : Except Failure (how.Result Carrier) → Reading Carrier α}
      (member : spec ∈ declared) (suits : spec.Suits how)
      (onSuccess : ∀ found, Follows declared (spec :: asked) failures (next (.ok found)))
      (onFailure : ∀ failure,
        Follows declared (spec :: asked) (failure :: failures) (next (.error failure))) :
      Follows declared asked failures (.read spec.name how next)

variable {declared asked : List (FieldSpec Entity)} {failures : List Failure}
  {reading : Reading Carrier α}

/-- A reading that ends well has read every declared field well. -/
theorem follows_run_ok (fields : Fields Carrier)
    (follows : reading.Follows declared asked failures)
    (answered : ∀ spec ∈ asked, ∃ how, spec.Suits how ∧
      ((∃ found, fields.read spec.name how = .ok found) ∨
        ∃ failure ∈ failures, fields.read spec.name how = .error failure))
    {result : α} (ended : reading.run fields = .ok result) :
    ∀ spec ∈ declared, ∃ how found, spec.Suits how ∧ fields.read spec.name how = .ok found := by
  induction follows with
  | done complete =>
      intro spec member
      obtain ⟨how, suits, ⟨found, read⟩ | ⟨failure, impossible, -⟩⟩ :=
        answered spec (complete spec member)
      · exact ⟨how, found, suits, read⟩
      · simp at impossible
  | fail seen => simp [Reading.run] at ended
  | @read asked failures spec how next member suits onSuccess onFailure ihSuccess ihFailure =>
      rw [Reading.run] at ended
      cases read : fields.read spec.name how with
      | ok found =>
          rw [read] at ended
          refine ihSuccess found ?_ ended
          intro earlier inAsked
          rcases List.mem_cons.mp inAsked with rfl | inAsked
          · exact ⟨how, suits, Or.inl ⟨found, read⟩⟩
          · exact answered earlier inAsked
      | error failure =>
          rw [read] at ended
          refine ihFailure failure ?_ ended
          intro earlier inAsked
          rcases List.mem_cons.mp inAsked with rfl | inAsked
          · exact ⟨how, suits, Or.inr ⟨failure, List.mem_cons_self, read⟩⟩
          · obtain ⟨earlierHow, earlierSuits, good | ⟨old, oldMember, oldRead⟩⟩ :=
              answered earlier inAsked
            · exact ⟨earlierHow, earlierSuits, Or.inl good⟩
            · exact ⟨earlierHow, earlierSuits,
                Or.inr ⟨old, List.mem_cons_of_mem _ oldMember, oldRead⟩⟩

/-- A reading that fails does so as one of its reads of a declared field. -/
theorem follows_run_error (fields : Fields Carrier)
    (follows : reading.Follows declared asked failures)
    (caused : ∀ failure ∈ failures, ∃ spec ∈ declared, ∃ how, spec.Suits how ∧
      fields.read spec.name how = .error failure)
    {failure : Failure} (ended : reading.run fields = .error failure) :
    ∃ spec ∈ declared, ∃ how, spec.Suits how ∧ fields.read spec.name how = .error failure := by
  induction follows with
  | done complete => simp [Reading.run] at ended
  | fail seen =>
      simp only [Reading.run, Except.error.injEq] at ended
      exact caused failure (ended ▸ seen)
  | @read asked failures spec how next member suits onSuccess onFailure ihSuccess ihFailure =>
      rw [Reading.run] at ended
      cases read : fields.read spec.name how with
      | ok found =>
          rw [read] at ended
          exact ihSuccess found caused ended
      | error problem =>
          rw [read] at ended
          refine ihFailure problem ?_ ended
          intro earlier inFailures
          rcases List.mem_cons.mp inFailures with rfl | inFailures
          · exact ⟨spec, member, how, suits, read⟩
          · exact caused earlier inFailures

end Following

namespace Schema

variable (schema : Schema Entity)

/-- Every entity type that is reached reads its fields as it declares them. -/
def Conforming (entity : Entity) : Prop :=
  ∀ member, schema.Reaches entity member →
    (schema.reading member).Follows (schema.fields member) [] []

theorem conforming_target {entity target : Entity} {spec : FieldSpec Entity}
    (conforming : schema.Conforming entity) (declared : spec ∈ schema.fields entity)
    (leads : spec.shape.target? = some target) : schema.Conforming target :=
  fun member reached => conforming member (.inside declared leads reached)

end Schema

/-! Tables follow their own rows; all that is asked of a row is that its read suits its field. -/
namespace Table

variable (table : Table Entity)

theorem read_rows_follow (declared asked : List (FieldSpec Entity)) (rows : List (Row Entity))
    (suits : ∀ row ∈ rows, row.spec.Suits row.how)
    (members : ∀ row ∈ rows, row.spec ∈ declared)
    (covered : ∀ spec ∈ declared, spec ∈ asked ∨ ∃ row ∈ rows, row.spec = spec)
    (done : List (String × Content)) :
    (table.readRows done rows).Follows declared asked [] := by
  induction rows generalizing asked done with
  | nil =>
      apply Reading.Follows.done
      intro spec member
      rcases covered spec member with seen | ⟨row, impossible, -⟩
      · exact seen
      · simp at impossible
  | cons row rest ih =>
      have head : row ∈ row :: rest := List.mem_cons_self
      refine .read (members row head) (suits row head) ?_ ?_
      · intro found
        refine ih (row.spec :: asked)
          (fun later inside => suits later (List.mem_cons_of_mem _ inside))
          (fun later inside => members later (List.mem_cons_of_mem _ inside)) ?_ _
        intro spec member
        rcases covered spec member with seen | ⟨other, inside, rfl⟩
        · exact Or.inl (List.mem_cons_of_mem _ seen)
        · rcases List.mem_cons.mp inside with rfl | later
          · exact Or.inl List.mem_cons_self
          · exact Or.inr ⟨other, later, rfl⟩
      · intro failure
        exact .fail List.mem_cons_self

theorem reading_follows (suits : ∀ row ∈ table.rows, row.spec.Suits row.how) :
    table.reading.Follows (table.rows.map (·.spec)) [] [] := by
  apply read_rows_follow table _ [] table.rows suits
  · intro row member
    exact List.mem_map_of_mem member
  · intro spec member
    obtain ⟨row, inside, rfl⟩ := List.mem_map.mp member
    exact Or.inr ⟨row, inside, rfl⟩

theorem tables_conform (tables : Entity → Table Entity)
    (suits : ∀ entity, ∀ row ∈ (tables entity).rows, row.spec.Suits row.how) (entity : Entity) :
    (Schema.ofTables tables).Conforming entity :=
  fun member _ => reading_follows (tables member) (suits member)

end Table

/-! A family of two tables on which the general statements are tried. -/
inductive Ledger where
  | account
  | movement
  deriving DecidableEq

namespace Ledger

inductive Side where
  | credit
  | debit
  deriving DecidableEq

def sides : Enumeration where
  raw := .str
  Case := Side
  ofRaw? := fun text =>
    if text = "credit" then some .credit else if text = "debit" then some .debit else none
  toRaw := fun
    | .credit => "credit"
    | .debit => "debit"

def table : Ledger → Table Ledger
  | .account =>
    ⟨"Account", [("holder", "h")],
      [.text "holder", .scalarList "limits" .double, .list "movements" .movement]⟩
  | .movement => ⟨"Movement", [], [.case "side" sides, .optionalText "comment"]⟩

abbrev schema : Schema Ledger := .ofTables table

theorem conforms (entity : Ledger) : schema.Conforming entity := by
  apply Table.tables_conform
  intro member row declared
  cases member with
  | account =>
      simp only [table, List.mem_cons, List.not_mem_nil, or_false] at declared
      rcases declared with rfl | rfl | rfl
      · exact .required .str
      · exact .scalarList "limits" .double
      · exact .list "movements" Ledger.movement
  | movement =>
      simp only [table, List.mem_cons, List.not_mem_nil, or_false] at declared
      rcases declared with rfl | rfl
      · exact .enumeration "side" (by decide)
      · exact .optional .str

end Ledger

end Interchange
