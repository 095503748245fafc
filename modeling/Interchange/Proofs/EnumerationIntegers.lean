import Interchange.Proofs.FieldFindings
import Interchange.Proofs.FieldReads
import Interchange.Proofs.ScalarRoundTrip
/-!
Integers stored for enumerations. An integer reaches the cases only after it is brought into the
range of the raw type, so the case that it names is written as its residue. Main statement: check
and reads agree on every integer, a case that they find is written as the residue (as the integer
itself, if the raw type holds it), and every other integer is an unknown case, filed and
reported with the value itself.
-/
namespace Interchange

variable {Entity : Type}

/-- The integer that a value of either word stands for. -/
def Value.integer? : Value → Option Int
  | .integer number => some number.toInt
  | .unsigned number => some number.toNat
  | _ => none

theorem Value.integer_present {stored : Value} {number : Int}
    (integral : stored.integer? = some number) : stored.isNull = false := by
  cases stored with
  | null => simp [integer?] at integral
  | _ => rfl

namespace ScalarType

theorem read_integral (type : IntegerType) {stored : Value} {number : Int}
    (integral : stored.integer? = some number) :
    readInteger type stored = some (type.wrap number) := by
  cases stored with
  | integer word =>
      simp only [Value.integer?, Option.some.injEq] at integral
      rw [readInteger, integral]
  | unsigned word =>
      simp only [Value.integer?, Option.some.injEq] at integral
      rw [readInteger, integral]
  | _ => simp [Value.integer?] at integral

/-- A number of an integer type is written as the integer that it is. -/
theorem integer_written {type : IntegerType} (number : type.Number) :
    (ofInteger number).integer? = some number.val := by
  rw [ofInteger]
  by_cases signed : type.signed = true
  · obtain ⟨lower, upper⟩ := type.signed_bounds signed number
    rw [if_pos signed, Value.integer?,
      Int64.toInt_ofInt_of_le (by simpa using lower) (by simpa using upper)]
  · obtain ⟨lower, upper⟩ := type.unsigned_bounds (by simpa using signed) number
    have same : ((UInt64.ofNat number.val.toNat).toNat : Int) = number.val := by
      rw [UInt64.toNat_ofNat']
      omega
    rw [if_neg signed, Value.ofUnsigned]
    by_cases small : (UInt64.ofNat number.val.toNat).toNat < 2 ^ 63
    · rw [if_pos small, Value.integer?, Value.signed_word _ small, same]
    · rw [if_neg small, Value.integer?, same]

end ScalarType

/-- A raw value names a case only if the case is written as it. -/
def Enumeration.Recovers (choices : Enumeration) : Prop :=
  ∀ raw case, choices.ofRaw? raw = some case → choices.toRaw case = raw

section Stored
variable [DecidableEq Entity] (scope : Scope Entity) (schema : Schema Entity) (entity : Entity)
  (entries : List (String × Value)) (name : String) (choices : Enumeration) (stored : Value)

/-- The check passes a stored value and both reads of an enumeration find the case. -/
structure Scope.Finds (case : choices.Case) : Prop where
  checked : choices.check stored = .valid
  read : (schema.fieldsOf scope.options (schema.wireKeys entity) entries).read name
    (.enumeration choices) = .ok case
  offered : (schema.fieldsOf scope.options (schema.wireKeys entity) entries).read name
    (.optionalEnumeration choices) = .ok (some case)

/-- The check and both reads turn a stored value away as a case that is not known. -/
structure Scope.Misses : Prop where
  checked : choices.check stored = .unknownCase
  filed : ∀ presence, ⟨name, .enumeration choices, presence⟩ ∈ schema.fields entity →
    (scope.entityReport schema entity (.object entries)).Files name
      ⟨.unknownCase, none, wireKey (schema.wireKeys entity) name scope.options, some stored,
        scope.locale⟩
  read : (schema.fieldsOf scope.options (schema.wireKeys entity) entries).read name
    (.enumeration choices) = .error (.field
      ⟨name, wireKey (schema.wireKeys entity) name scope.options, some stored, .unknownCase⟩)
  offered : (schema.fieldsOf scope.options (schema.wireKeys entity) entries).read name
    (.optionalEnumeration choices) = .error (.field
      ⟨name, wireKey (schema.wireKeys entity) name scope.options, some stored, .unknownCase⟩)

variable {scope schema entity entries name choices stored}

omit [DecidableEq Entity] in
theorem Scope.finds_named {raw : choices.raw.Carrier} {case : choices.Case}
    (held : schema.stored? scope.options entity name entries = some stored)
    (present : stored.isNull = false) (read : choices.raw.read? stored = some raw)
    (named : choices.ofRaw? raw = some case) :
    scope.Finds schema entity entries name choices stored case := by
  have found : (schema.fieldsOf scope.options (schema.wireKeys entity) entries).case name choices
      stored = .ok case := by
    simp only [Fields.case, read, named]
  have part := schema.part_value scope.options stored
  refine ⟨?_, ?_, ?_⟩
  · simp [Enumeration.check, read, named]
  · rw [Fields.read, demand_ok]
    exact ⟨stored, held, by rw [part, found]⟩
  · rw [Fields.read]
    exact offer_found schema _ entity entries name _ _ held (by simp [Fields.isPresent, present])
      (by rw [part, found])

theorem Scope.misses_unnamed {raw : choices.raw.Carrier}
    (held : schema.stored? scope.options entity name entries = some stored)
    (present : stored.isNull = false) (read : choices.raw.read? stored = some raw)
    (unknown : choices.ofRaw? raw = none) :
    scope.Misses schema entity entries name choices stored := by
  have failed : (schema.fieldsOf scope.options (schema.wireKeys entity) entries).case name choices
      stored = .error (.field ⟨name, wireKey (schema.wireKeys entity) name scope.options,
        some stored, .unknownCase⟩) := by
    simp only [Fields.case, read, unknown]
    rfl
  have part := schema.part_value scope.options stored
  refine ⟨?_, ?_, ?_, ?_⟩
  · simp [Enumeration.check, read, unknown]
  · intro presence declared
    rw [files_entity]
    refine ⟨_, declared, ?_⟩
    rw [files_field, held]
    exact .shape (by simp [present]) (.unknownCase rfl present read unknown)
  · rw [Fields.read, Fields.demand, Schema.fields_part, held]
    simp only [Option.map_some, part, failed]
  · rw [Fields.read, offer_fit schema _ entity entries name _ _ held
      (by simp [Fields.isPresent, present]), part, failed]
    rfl

/-- Whatever integer is stored for an enumeration over an integer type, the check and the reads
agree on it: either it names a case, which is written as the integer's residue, or it is reported
as unknown, and then no case that is recognised at all is written as its residue. -/
theorem integer_names_by_residue (scope : Scope Entity) (schema : Schema Entity)
    (entity : Entity) (entries : List (String × Value)) (name : String) (choices : Enumeration)
    (type : IntegerType) (integers : choices.raw = .integer type) (recovers : choices.Recovers)
    (stored : Value) (number : Int)
    (held : schema.stored? scope.options entity name entries = some stored)
    (integral : stored.integer? = some number) :
    (∃ case, scope.Finds schema entity entries name choices stored case ∧
      (choices.write case).integer? = some (type.residue number) ∧
      (type.least ≤ number → number ≤ type.greatest →
        (choices.write case).integer? = some number)) ∨
    (scope.Misses schema entity entries name choices stored ∧
      ∀ case, choices.ofRaw? (choices.toRaw case) = some case →
        (choices.write case).integer? ≠ some (type.residue number)) := by
  obtain ⟨raw, Case, ofRaw?, toRaw⟩ := choices
  simp only at integers
  subst integers
  have present := Value.integer_present integral
  have read : (ScalarType.integer type).read? stored = some (type.wrap number) :=
    ScalarType.read_integral type integral
  have written : ∀ case, (Enumeration.mk (.integer type) Case ofRaw? toRaw).write case =
      ScalarType.ofInteger (toRaw case) := fun _ => rfl
  cases named : ofRaw? (type.wrap number) with
  | some case =>
      have recovered : toRaw case = type.wrap number := recovers _ case named
      have residue : (ScalarType.ofInteger (toRaw case)).integer? = some (type.residue number) := by
        rw [recovered, ScalarType.integer_written]
        rfl
      refine Or.inl ⟨case, Scope.finds_named held present read named, ?_, ?_⟩
      · rw [written, residue]
      · intro lower upper
        rw [written, residue, type.residue_of_bounds number lower upper]
  | none =>
      refine Or.inr ⟨Scope.misses_unnamed held present read named, ?_⟩
      intro case recognised same
      rw [written, ScalarType.integer_written, Option.some.injEq] at same
      have wrapped : toRaw case = type.wrap number := by
        cases raw : toRaw case with
        | mk amount lower upper =>
            rw [raw] at same
            simp only at same
            simp only [IntegerType.wrap, same]
      simp only [wrapped, named, reduceCtorEq] at recognised

end Stored

/-! An enumeration over one byte, in the only field of a table. -/
inductive Urgency where
  | low
  | high

namespace Urgency

abbrev byte : IntegerType := ⟨false, .byte⟩

def named? (number : byte.Number) : Option Urgency :=
  if number.val = 1 then some .low else if number.val = 2 then some .high else none

def number : Urgency → byte.Number
  | .low => ⟨1, by decide, by decide⟩
  | .high => ⟨2, by decide, by decide⟩

def choices : Enumeration := ⟨.integer byte, Urgency, named?, number⟩

theorem number_of_named (raw : byte.Number) (case : Urgency) (named : named? raw = some case) :
    number case = raw := by
  obtain ⟨amount, lower, upper⟩ := raw
  unfold named? at named
  split at named
  · rename_i one
    cases one
    cases named
    rfl
  · split at named
    · rename_i two
      cases two
      cases named
      rfl
    · cases named

abbrev ticket : Schema Unit :=
  .ofTables fun _ => ⟨"Ticket", [("urgency", "u")], [.case "urgency" choices]⟩

def scope : Scope Unit := ⟨⟨true⟩, .empty, "en"⟩

theorem recovers : choices.Recovers := number_of_named

/-- No case is written as 257, yet it is taken for the one written as 1. -/
theorem wrapped_urgency :
    choices.Recovers ∧ (Value.integer 257).integer? = some 257 ∧
      scope.Finds ticket () [("u", .integer 257)] "urgency" choices (.integer 257) .low ∧
      ∀ case, (choices.write case).integer? ≠ some 257 := by
  refine ⟨recovers, by decide, Scope.finds_named rfl rfl rfl rfl, ?_⟩
  intro case
  cases case <;> decide

theorem greatest_urgency :
    choices.raw = .integer byte ∧ choices.Recovers ∧
    ticket.stored? scope.options () "urgency" [("u", .unsigned 0xFFFFFFFFFFFFFFFF)] =
      some (.unsigned 0xFFFFFFFFFFFFFFFF) ∧
    (Value.unsigned 0xFFFFFFFFFFFFFFFF).integer? = some 0xFFFFFFFFFFFFFFFF ∧
    ((∃ case, scope.Finds ticket () [("u", .unsigned 0xFFFFFFFFFFFFFFFF)] "urgency" choices
        (.unsigned 0xFFFFFFFFFFFFFFFF) case ∧
        (choices.write case).integer? = some 255 ∧
        ((0 : Int) ≤ 0xFFFFFFFFFFFFFFFF → (0xFFFFFFFFFFFFFFFF : Int) ≤ 255 →
          (choices.write case).integer? = some 0xFFFFFFFFFFFFFFFF)) ∨
      (scope.Misses ticket () [("u", .unsigned 0xFFFFFFFFFFFFFFFF)] "urgency" choices
        (.unsigned 0xFFFFFFFFFFFFFFFF) ∧
        ∀ case, choices.ofRaw? (choices.toRaw case) = some case →
          (choices.write case).integer? ≠ some 255)) :=
  ⟨rfl, recovers, rfl, by decide, integer_names_by_residue scope ticket () _ "urgency" choices
    byte rfl recovers (.unsigned 0xFFFFFFFFFFFFFFFF) 0xFFFFFFFFFFFFFFFF rfl (by decide)⟩

end Urgency

end Interchange
