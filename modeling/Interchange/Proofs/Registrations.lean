import Interchange.Validation.Registry
/-!
Runs of registrations. Opening a table does not show, so the tables together act as one: a call adds its
validator where the field is declared and still free, and otherwise leaves everything as it was. A
run then keeps the first of the calls for each declared field and forgets the others.
-/
namespace Interchange

-- One call to register a validator.
structure Registration (Entity : Type) where
  entity : Entity
  field : String
  validator : Validator

def Registration.SameField {Entity : Type} (call other : Registration Entity) : Prop :=
  call.entity = other.entity ∧ call.field = other.field

def Schema.Declares {Entity : Type} (schema : Schema Entity) (entity : Entity) (field : String) :
    Prop :=
  ∃ spec ∈ schema.fields entity, spec.name = field

theorem lookup_entry {Key α : Type} [DecidableEq Key] (wanted : Key) (entry : Key × α)
    (rest : List (Key × α)) :
    (entry :: rest).lookup wanted = if wanted = entry.1 then some entry.2 else rest.lookup wanted := by
  obtain ⟨key, value⟩ := entry
  by_cases same : wanted = key
  · simp [same]
  · simp [List.lookup_cons, same, beq_eq_false_iff_ne.mpr same]

theorem Entries.lookup_set {α : Type} (key wanted : String) (value : α)
    (entries : List (String × α)) :
    (set key value entries).lookup wanted =
      if wanted = key then some value else entries.lookup wanted := by
  induction entries with
  | nil => rw [set, lookup_entry]
  | cons entry rest ih =>
      rw [set, lookup_entry]
      by_cases here : entry.1 = key
      · rw [if_pos here, lookup_entry]
        by_cases same : wanted = key <;> simp [same, here]
      · rw [if_neg here, lookup_entry, ih]
        by_cases same : wanted = key
        · simp [same, Ne.symm here]
        · simp [same]

theorem Entries.length_set {α : Type} (key : String) (value : α) (entries : List (String × α))
    (free : entries.lookup key = none) : (set key value entries).length = entries.length + 1 := by
  induction entries with
  | nil => rfl
  | cons entry rest ih =>
      rw [lookup_entry] at free
      by_cases here : key = entry.1
      · simp [here] at free
      · rw [if_neg here] at free
        simp [set, Ne.symm here, ih free]

namespace Registry

variable {Entity : Type} [DecidableEq Entity]

/-! Tables of entity types. -/
section Tables
variable (entity : Entity) (change : ValidatorTable → ValidatorTable)

theorem lookup_enter (other : Entity) (tables : List (Entity × ValidatorTable)) :
    (enter entity change tables).lookup other =
      if other = entity then some (change ((tables.lookup entity).getD []))
      else tables.lookup other := by
  induction tables with
  | nil => rw [enter, lookup_entry]; rfl
  | cons own rest ih =>
      rw [enter, lookup_entry, lookup_entry]
      by_cases here : own.1 = entity
      · rw [if_pos here, lookup_entry]
        by_cases same : other = entity <;> simp [same, here]
      · rw [if_neg here, lookup_entry, ih, if_neg (Ne.symm here)]
        by_cases same : other = entity
        · simp [same, Ne.symm here]
        · simp [same]

/-- A table that is there is opened again as it is. -/
theorem enter_known (tables : List (Entity × ValidatorTable))
    (known : (tables.lookup entity).isSome) : enter entity id tables = tables := by
  induction tables with
  | nil => contradiction
  | cons own rest ih =>
      rw [enter]
      by_cases here : own.1 = entity
      · simp [← here]
      · rw [lookup_entry, if_neg (Ne.symm here)] at known
        simp [here, ih known]

theorem size_enter (tables : List (Entity × ValidatorTable)) :
    size ⟨enter entity change tables⟩ + ((tables.lookup entity).getD []).length =
      size ⟨tables⟩ + (change ((tables.lookup entity).getD [])).length := by
  induction tables with
  | nil => simp [enter, size]
  | cons own rest ih =>
      rw [enter, lookup_entry]
      by_cases here : own.1 = entity
      · simp only [here, ↓reduceIte, size, List.foldr_cons, Option.getD_some]
        omega
      · simp only [here, Ne.symm here, ↓reduceIte, size, List.foldr_cons] at ih ⊢
        omega

end Tables

/-! What one call can do. -/
section Step
variable (schema : Schema Entity) (call : Registration Entity) (registry : Registry Entity)

inductive Attempted : Option SettingFault × Registry Entity → Prop where
  | undeclared (unknown : ¬ schema.Declares call.entity call.field) :
      Attempted (some (.undeclaredField (schema.name call.entity) call.field), registry)
  | taken (declared : schema.Declares call.entity call.field)
      (known : (registry.get? call.entity call.field).isSome) :
      Attempted (some (.repeatedValidator (schema.name call.entity) call.field), registry)
  | added {next : Registry Entity} (declared : schema.Declares call.entity call.field)
      (free : registry.get? call.entity call.field = none)
      (found : ∀ entity field, next.get? entity field =
        if entity = call.entity ∧ field = call.field then some call.validator
        else registry.get? entity field)
      (more : next.size = registry.size + 1) : Attempted (none, next)

theorem get_opened (entity : Entity) (field : String) :
    get? ⟨enter call.entity id registry.tables⟩ entity field = registry.get? entity field := by
  rw [get?, get?, lookup_enter]
  by_cases same : entity = call.entity
  · rw [if_pos same, same]
    cases registry.tables.lookup call.entity <;> rfl
  · rw [if_neg same]

theorem attempted : Attempted schema call registry
    (registry.attempt schema call.entity call.field call.validator) := by
  have declared : (schema.fields call.entity).any (fun spec => spec.name == call.field) = true ↔
      schema.Declares call.entity call.field := by
    simp [Schema.Declares]
  unfold attempt
  split
  · rename_i unknown
    refine .undeclared fun known => ?_
    simp [declared.mpr known] at unknown
  · rename_i known
    have stands : schema.Declares call.entity call.field := declared.mp (by simpa using known)
    simp only [get_opened]
    split
    · rename_i taken
      have table : (registry.tables.lookup call.entity).isSome := by
        rw [get?] at taken
        exact Option.isSome_of_isSome_bind taken
      rw [enter_known call.entity registry.tables table]
      exact .taken stands taken
    · rename_i free
      have vacant : registry.get? call.entity call.field = none := by simpa using free
      have room : ((registry.tables.lookup call.entity).getD []).lookup call.field = none := by
        rw [get?] at vacant
        cases own : registry.tables.lookup call.entity with
        | none => rfl
        | some table => simpa [own] using vacant
      refine .added stands vacant ?found ?more
      case found =>
        intro entity field
        rw [get?, lookup_enter]
        by_cases same : entity = call.entity
        · subst same
          rw [lookup_enter]
          by_cases here : field = call.field
          · simp [here, Entries.lookup_set]
          · simp only [↓reduceIte, id, Option.getD_some, Option.bind_some, Entries.lookup_set, here,
              and_false, get?]
            cases registry.tables.lookup call.entity <;> rfl
        · simp only [same, ↓reduceIte, false_and, lookup_enter]
          rfl
      case more =>
        have opened := size_enter call.entity id registry.tables
        have filled := size_enter call.entity (Entries.set call.field call.validator)
          (enter call.entity id registry.tables)
        simp only [lookup_enter, ↓reduceIte, Option.getD_some, id,
          Entries.length_set _ _ _ room] at opened filled
        have same : size ⟨registry.tables⟩ = registry.size := rfl
        omega

/-- Registering tells what one call in place does; a call that is refused leaves the registry. -/
theorem attempt_register : registry.attempt schema call.entity call.field call.validator =
    match registry.register schema call.entity call.field call.validator with
    | .ok next => (none, next)
    | .error fault => (some fault, registry) := by
  have step := attempted schema call registry
  rw [register]
  generalize registry.attempt schema call.entity call.field call.validator = made at step
  cases step <;> rfl

theorem attempt_none_iff :
    (registry.attempt schema call.entity call.field call.validator).1 = none ↔
      schema.Declares call.entity call.field ∧ registry.get? call.entity call.field = none := by
  have step := attempted schema call registry
  generalize registry.attempt schema call.entity call.field call.validator = made at step
  cases step with
  | undeclared unknown => simp [unknown]
  | taken _ known => simp [Option.isSome_iff_ne_none.mp known]
  | added declared free => simp [declared, free]

end Step

/-! Calls one after the other. -/
section Run
variable (schema : Schema Entity)

/-- Makes all calls in their order, and tells of each what was wrong with it. -/
def run : List (Registration Entity) → Registry Entity →
    List (Registration Entity × Option SettingFault) × Registry Entity
  | [], registry => ([], registry)
  | call :: rest, registry =>
    let made := registry.attempt schema call.entity call.field call.validator
    let ended := run rest made.2
    ((call, made.1) :: ended.1, ended.2)

theorem run_calls (calls : List (Registration Entity)) (registry : Registry Entity) :
    (run schema calls registry).1.map (·.1) = calls := by
  induction calls generalizing registry with
  | nil => rfl
  | cons call rest ih => exact congrArg (List.cons call) (ih _)

theorem run_append (calls more : List (Registration Entity)) (registry : Registry Entity) :
    run schema (calls ++ more) registry =
      let first := run schema calls registry
      let ended := run schema more first.2
      (first.1 ++ ended.1, ended.2) := by
  induction calls generalizing registry with
  | nil => rfl
  | cons call rest ih => simp only [List.cons_append, run, ih]

/-- What stands under a field stood there before, or its call went through. -/
theorem run_get (calls : List (Registration Entity)) (registry : Registry Entity) (entity : Entity)
    (field : String) (validator : Validator) :
    (run schema calls registry).2.get? entity field = some validator ↔
      registry.get? entity field = some validator ∨
        (⟨entity, field, validator⟩, none) ∈ (run schema calls registry).1 := by
  induction calls generalizing registry with
  | nil => simp [run]
  | cons call rest ih =>
      have step := attempted schema call registry
      simp only [run]
      generalize registry.attempt schema call.entity call.field call.validator = made at step
      rw [ih]
      cases step with
      | undeclared => simp
      | taken => simp
      | @added next _ free found _ =>
          obtain ⟨owner, name, check⟩ := call
          simp only at free found
          simp only [found, List.mem_cons, Prod.mk.injEq, Registration.mk.injEq, and_true,
            ← or_assoc]
          by_cases same : entity = owner ∧ field = name
          · obtain ⟨rfl, rfl⟩ := same
            simp [free, eq_comm]
          · rw [if_neg same]
            grind

/-- From nothing, what stands in the end are the calls that went through. -/
theorem run_standing (calls : List (Registration Entity)) (entity : Entity) (field : String)
    (validator : Validator) :
    (run schema calls .empty).2.get? entity field = some validator ↔
      (⟨entity, field, validator⟩, none) ∈ (run schema calls .empty).1 := by
  have blank : (empty : Registry Entity).get? entity field = none := rfl
  rw [run_get, blank]
  simp only [reduceCtorEq, false_or]

theorem run_free (calls : List (Registration Entity)) (call : Registration Entity) :
    (run schema calls .empty).2.get? call.entity call.field = none ↔
      ∀ earlier, (earlier, none) ∈ (run schema calls .empty).1 → ¬ earlier.SameField call := by
  constructor
  · rintro free ⟨entity, field, validator⟩ earlier ⟨rfl, rfl⟩
    rw [(run_standing schema calls _ _ validator).mpr earlier] at free
    contradiction
  · intro others
    rw [Option.eq_none_iff_forall_ne_some]
    intro validator found
    exact others _ ((run_standing schema calls _ _ validator).mp found) ⟨rfl, rfl⟩

theorem run_size (calls : List (Registration Entity)) (registry : Registry Entity) :
    (run schema calls registry).2.size =
      registry.size + (run schema calls registry).1.countP (·.2.isNone) := by
  induction calls generalizing registry with
  | nil => rfl
  | cons call rest ih =>
      have step := attempted schema call registry
      simp only [run, List.countP_cons, ih]
      generalize registry.attempt schema call.entity call.field call.validator = made at step
      cases step with
      | undeclared => simp
      | taken => simp
      | added _ _ _ more =>
          simp only [Option.isNone_none, ↓reduceIte, more]
          omega

/-- A run up to one of its calls, that call and the run behind it. -/
theorem run_split {calls : List (Registration Entity)} {registry : Registry Entity}
    {past future : List (Registration Entity × Option SettingFault)} {call : Registration Entity}
    {answer : Option SettingFault}
    (history : (run schema calls registry).1 = past ++ (call, answer) :: future) :
    ∃ before, run schema (past.map (·.1)) registry = (past, before) ∧
      let made := before.attempt schema call.entity call.field call.validator
      answer = made.1 ∧
        run schema (future.map (·.1)) made.2 = (future, (run schema calls registry).2) := by
  induction past generalizing calls registry with
  | nil =>
      cases calls with
      | nil => contradiction
      | cons first rest =>
          obtain ⟨same, rfl⟩ := List.cons.inj history
          obtain ⟨rfl, rfl⟩ := Prod.mk.inj same
          refine ⟨registry, rfl, rfl, ?_⟩
          rw [run_calls]
          rfl
  | cons earlier others ih =>
      cases calls with
      | nil => contradiction
      | cons first rest =>
          obtain ⟨rfl, behind⟩ := List.cons.inj history
          obtain ⟨before, reached, answered, ended⟩ := ih behind
          refine ⟨before, ?_, answered, ended⟩
          simp only [List.map_cons, run, reached]

/-- What the calls for one entity type come to among others is what they come to alone. -/
theorem run_own (entity : Entity) (calls : List (Registration Entity))
    {alone among : Registry Entity}
    (agree : ∀ field, alone.get? entity field = among.get? entity field) :
    let own := run schema (calls.filter fun call => call.entity = entity) alone
    own.1 = (run schema calls among).1.filter (fun made => made.1.entity = entity) ∧
      ∀ field, own.2.get? entity field = (run schema calls among).2.get? entity field := by
  induction calls generalizing alone among with
  | nil => exact ⟨rfl, agree⟩
  | cons call rest ih =>
      have step := attempted schema call among
      by_cases mine : call.entity = entity
      · subst mine
        have lone := attempted schema call alone
        simp only [List.filter_cons, decide_true, ↓reduceIte, run, List.cons.injEq, Prod.mk.injEq,
          true_and, and_assoc]
        generalize among.attempt schema call.entity call.field call.validator = made at step
        generalize alone.attempt schema call.entity call.field call.validator = apart at lone
        have answers : apart.1 = made.1 ∧
            ∀ field, apart.2.get? call.entity field = made.2.get? call.entity field := by
          cases step <;> cases lone <;> simp_all
        exact ⟨answers.1, ih answers.2⟩
      · simp only [List.filter_cons, mine, decide_false, Bool.false_eq_true, ↓reduceIte, run]
        generalize among.attempt schema call.entity call.field call.validator = made at step
        refine ih fun field => (agree field).trans ?_
        cases step with
        | undeclared => rfl
        | taken => rfl
        | added _ _ found _ => simp [found, Ne.symm mine]

end Run

variable (schema : Schema Entity)

/--
In any run of registrations from an empty registry, every call does what registering tells where the
calls before it end, and a refused one leaves that registry. A call goes through exactly if its field
is declared and none for the same field of the same entity type has gone through before. A refused
call leaves no trace: without it, all other calls and the registry end as they do with it. In the
end each field has the validator of the one call for it that went through, the size counts these
calls, and the calls for one entity type end as they would without those for all others.
-/
theorem first_registration_stands (calls : List (Registration Entity)) :
    let ended := run schema calls .empty
    ended.1.map (·.1) = calls ∧
    (∀ past call answer future, ended.1 = past ++ (call, answer) :: future →
      let before := (run schema (past.map (·.1)) .empty).2
      let after := (run schema (past.map (·.1) ++ [call]) .empty).2
      match before.register schema call.entity call.field call.validator with
      | .ok next => answer = none ∧ after = next
      | .error fault => answer = some fault ∧ after = before) ∧
    (∀ past call answer future, ended.1 = past ++ (call, answer) :: future →
      (answer = none ↔ schema.Declares call.entity call.field ∧
        ∀ earlier, (earlier, none) ∈ past → ¬ earlier.SameField call)) ∧
    (∀ past call fault future, ended.1 = past ++ (call, some fault) :: future →
      run schema ((past ++ future).map (·.1)) .empty = (past ++ future, ended.2)) ∧
    (∀ entity field validator, ended.2.get? entity field = some validator ↔
      (⟨entity, field, validator⟩, none) ∈ ended.1) ∧
    ended.2.size = ended.1.countP (·.2.isNone) ∧
    (ended.2.isEmpty = true ↔ ∀ made ∈ ended.1, made.2 ≠ none) ∧
    ∀ entity,
      let own := run schema (calls.filter fun call => call.entity = entity) .empty
      own.1 = ended.1.filter (fun made => made.1.entity = entity) ∧
        ∀ field, own.2.get? entity field = ended.2.get? entity field := by
  intro ended
  have counted : ended.2.size = ended.1.countP (·.2.isNone) := by
    have total := run_size schema calls .empty
    have nothing : (empty : Registry Entity).size = 0 := rfl
    rwa [nothing, Nat.zero_add] at total
  refine ⟨run_calls schema calls .empty, ?registered, ?answers, ?traceless,
    run_standing schema calls, counted, ?vacant,
    fun entity => run_own schema entity calls fun _ => rfl⟩
  case registered =>
    intro past call answer future history
    obtain ⟨before, reached, answered, -⟩ := run_split schema history
    simp only [run_append, reached, run, answered, attempt_register schema call before]
    cases before.register schema call.entity call.field call.validator <;> exact ⟨rfl, rfl⟩
  case answers =>
    intro past call answer future history
    obtain ⟨before, reached, answered, -⟩ := run_split schema history
    have free := run_free schema (past.map (·.1)) call
    rw [reached] at free
    rw [answered, attempt_none_iff, free]
  case traceless =>
    intro past call fault future history
    obtain ⟨before, reached, answered, later⟩ := run_split schema history
    rw [attempt_register schema call before] at answered later
    cases told : before.register schema call.entity call.field call.validator with
    | ok next =>
        rw [told] at answered
        contradiction
    | error reason =>
        rw [told] at later
        simp only [List.map_append, run_append, reached, later]
        rfl
  case vacant =>
    rw [isEmpty, decide_eq_true_eq, counted, List.countP_eq_zero]
    simp

end Registry

end Interchange
