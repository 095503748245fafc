import Mathlib.Data.List.Forall2
import Mathlib.Data.List.Induction
import Mathlib.Data.List.Nodup
import Interchange.Proofs.WrittenRecords
/-!
A draft behind any sequence of writes. It holds one entry per write as long as nothing goes wrong,
and what goes wrong first stays with it, whatever is written later. A write goes wrong by
the first of its records that does not encode; where all of them do, by a key that is taken.
-/
namespace Interchange

theorem first_some {α β : Type} (find : α → Option β) (head : α) (rest : List α) :
    (head :: rest).findSome? find = (find head).or (rest.findSome? find) := by
  rw [List.findSome?_cons]
  cases find head <;> rfl

namespace Content

-- The records that a content writes, in order, each with its place.
def nested : Content → List (Option Position × Record)
  | .leaf _ => []
  | .entity record => [(none, record)]
  | .list records => records.zipIdx.map fun item => (some (.index item.2), item.1)
  | .keyed records => records.map fun entry => (some (.key entry.1), entry.2)

theorem holds_nested {content : Content} {record : Record} (holds : content.Holds record) :
    ∃ place, (place, record) ∈ content.nested := by
  cases holds with
  | entity => exact ⟨none, List.mem_cons_self⟩
  | item member =>
      obtain ⟨index, found⟩ := List.mem_iff_getElem?.mp member
      exact ⟨_, List.mem_map_of_mem (List.mk_mem_zipIdx_iff_getElem?.mpr found)⟩
  | entry member => exact ⟨_, List.mem_map_of_mem member⟩

section Problems
variable (options : Options)

-- All the records of a content have a form on the wire.
def Encodes (content : Content) : Prop :=
  ∀ part ∈ content.nested, ∃ value, part.2.encode options = .ok value

def partProblem (name : String) (part : Option Position × Record) : Option Failure :=
  (writtenAs name part.1 (part.2.encode options)).2

theorem part_problem_none (name : String) (part : Option Position × Record) :
    partProblem options name part = none ↔ ∃ value, part.2.encode options = .ok value := by
  rw [partProblem]
  cases part.2.encode options <;> simp [writtenAs]

theorem part_problem_some (name : String) (part : Option Position × Record) (failure : Failure) :
    partProblem options name part = some failure ↔
      ∃ source, part.2.encode options = .error source ∧ .nested name part.1 source = failure := by
  rw [partProblem]
  cases part.2.encode options <;> simp [writtenAs]

theorem items_problem (name : String) (records : List Record) (index : Nat) (done : List Value)
    (noted : Option Failure) :
    (writtenItems options name index done noted records).2 =
      noted.or ((records.zipIdx index).findSome? fun item =>
        partProblem options name (some (.index item.2), item.1)) := by
  induction records generalizing index done noted with
  | nil => simp [writtenItems]
  | cons record rest ih =>
      rw [writtenItems, ih, Option.or_assoc, List.zipIdx_cons, first_some]
      rfl

theorem entries_problem (name : String) (records : List (String × Record))
    (done : List (String × Value)) (noted : Option Failure) :
    (writtenEntries options name done noted records).2 =
      noted.or (records.findSome? fun entry =>
        partProblem options name (some (.key entry.1), entry.2)) := by
  induction records generalizing done noted with
  | nil => simp [writtenEntries]
  | cons entry rest ih =>
      rw [writtenEntries, ih, Option.or_assoc, first_some]
      rfl

/-- What a content notes is the problem of the first of its records that has one. -/
theorem written_problem (name : String) (content : Content) :
    (content.written options name).2 = content.nested.findSome? (partProblem options name) := by
  cases content with
  | leaf => rfl
  | entity record =>
      rw [nested, first_some, List.findSome?_nil, Option.or_none]
      rfl
  | list records =>
      rw [written, nested, items_problem, Option.none_or, List.findSome?_map]
      rfl
  | keyed records =>
      rw [written, nested, entries_problem, Option.none_or, List.findSome?_map]
      rfl

end Problems

end Content

namespace Draft

section Offences
variable (entity : String) (keys : WireKeys) (options : Options)

def keysOf (calls : List (String × Content)) : List String :=
  calls.map fun call => wireKey keys call.1 options

theorem keys_snoc (earlier : List (String × Content)) (call : String × Content) :
    keysOf keys options (earlier ++ [call]) =
      keysOf keys options earlier ++ [wireKey keys call.1 options] := List.map_append

/-- What is wrong with a write behind others. A record that does not encode is reported with its
place, and comes before a key that is taken. -/
inductive Offends (earlier : List (String × Content)) : String × Content → Failure → Prop where
  | nested {name : String} {content : Content} {front behind : List (Option Position × Record)}
      {place : Option Position} {record : Record} {source : Failure}
      (order : content.nested = front ++ (place, record) :: behind)
      (before : ∀ part ∈ front, ∃ value, part.2.encode options = .ok value)
      (failed : record.encode options = .error source) :
      Offends earlier (name, content) (.nested name place source)
  | repeated {name : String} {content : Content} (encodes : content.Encodes options)
      (taken : wireKey keys name options ∈ keysOf keys options earlier) :
      Offends earlier (name, content) (.repeatedKey entity (wireKey keys name options))

-- Nothing is wrong with any write.
structure Clear (calls : List (String × Content)) : Prop where
  apart : (keysOf keys options calls).Nodup
  encodes : ∀ call ∈ calls, call.2.Encodes options

/-- What is wrong with the first write with which anything is wrong. -/
def FirstOffence (calls : List (String × Content)) (failure : Failure) : Prop :=
  ∃ front call behind, calls = front ++ call :: behind ∧ Clear keys options front ∧
    Offends entity keys options front call failure

-- What the draft itself notes of a write, given the keys that it holds.
def problem (taken : List String) (call : String × Content) : Option Failure :=
  (call.2.written options call.1).2.or
    (if wireKey keys call.1 options ∈ taken then
      some (.repeatedKey entity (wireKey keys call.1 options)) else none)

variable {entity keys options} {earlier : List (String × Content)} {call : String × Content}

theorem problem_none_iff : problem entity keys options (keysOf keys options earlier) call = none ↔
    call.2.Encodes options ∧ wireKey keys call.1 options ∉ keysOf keys options earlier := by
  rw [problem, Option.or_eq_none_iff, Content.written_problem, List.findSome?_eq_none_iff]
  refine and_congr ?_ (by simp)
  exact forall₂_congr fun part _ => Content.part_problem_none options call.1 part

theorem problem_some_iff {failure : Failure} :
    problem entity keys options (keysOf keys options earlier) call = some failure ↔
      Offends entity keys options earlier call failure := by
  rw [problem, Option.or_eq_some_iff, Content.written_problem]
  constructor
  · rintro (found | ⟨fine, found⟩)
    · obtain ⟨front, part, behind, order, noted, before⟩ := List.findSome?_eq_some_iff.mp found
      obtain ⟨source, failed, rfl⟩ := (Content.part_problem_some options _ part failure).mp noted
      refine .nested order (fun part member => ?_) failed
      exact (Content.part_problem_none options _ part).mp (before part member)
    · split at found
      case isTrue taken =>
          obtain rfl := Option.some.inj found
          refine .repeated (fun part member => ?_) taken
          exact (Content.part_problem_none options _ part).mp
            (List.findSome?_eq_none_iff.mp fine part member)
      case isFalse => contradiction
  · intro offends
    cases offends with
    | nested order before failed =>
        refine Or.inl (List.findSome?_eq_some_iff.mpr ⟨_, _, _, order, ?_, fun part member => ?_⟩)
        · exact (Content.part_problem_some options _ _ _).mpr ⟨_, failed, rfl⟩
        · exact (Content.part_problem_none options _ part).mpr (before part member)
    | repeated encodes taken =>
        refine Or.inr ⟨List.findSome?_eq_none_iff.mpr fun part member => ?_, if_pos taken⟩
        exact (Content.part_problem_none options _ part).mpr (encodes part member)

theorem clear_snoc (clear : Clear keys options earlier)
    (fine : problem entity keys options (keysOf keys options earlier) call = none) :
    Clear keys options (earlier ++ [call]) := by
  obtain ⟨encodes, fresh⟩ := problem_none_iff.mp fine
  constructor
  · rw [keys_snoc]
    exact clear.apart.append (List.nodup_singleton _) (List.disjoint_singleton.mpr fresh)
  · exact List.forall_mem_append.mpr ⟨clear.encodes, List.forall_mem_singleton.mpr encodes⟩

theorem FirstOffence.extend {failure : Failure} {calls : List (String × Content)}
    (first : FirstOffence entity keys options calls failure) (later : List (String × Content)) :
    FirstOffence entity keys options (calls ++ later) failure := by
  obtain ⟨front, call, behind, rfl, clear, offends⟩ := first
  exact ⟨front, call, behind ++ later, by simp, clear, offends⟩

theorem FirstOffence.not_clear {failure : Failure} {calls : List (String × Content)}
    (first : FirstOffence entity keys options calls failure) : ¬ Clear keys options calls := by
  obtain ⟨front, call, behind, rfl, -, offends⟩ := first
  intro clear
  have encodes := clear.encodes call (by simp)
  have apart := clear.apart
  rw [keysOf, List.map_append, List.map_cons, List.nodup_append] at apart
  have fresh : wireKey keys call.1 options ∉ keysOf keys options front :=
    fun held => apart.2.2 _ held _ List.mem_cons_self rfl
  have fine : problem entity keys options (keysOf keys options front) call = none :=
    problem_none_iff.mpr ⟨encodes, fresh⟩
  rw [problem_some_iff.mpr offends] at fine
  contradiction

end Offences

/-! One write, then all of them. -/
section Runs
variable (entity : String) (keys : WireKeys) (options : Options)

-- What a draft has noted behind writes.
inductive Fate (calls : List (String × Content)) : Option Failure → Prop where
  | clear (clear : Clear keys options calls) : Fate calls none
  | stuck {failure : Failure} (first : FirstOffence entity keys options calls failure) :
      Fate calls (some failure)

variable {entity keys options} {earlier : List (String × Content)} {call : String × Content}

theorem fate_step (call : String × Content) {noted : Option Failure}
    (fate : Fate entity keys options earlier noted) :
    Fate entity keys options (earlier ++ [call])
      (noted.or (problem entity keys options (keysOf keys options earlier) call)) := by
  cases fate with
  | clear clear =>
      rw [Option.none_or]
      cases found : problem entity keys options (keysOf keys options earlier) call with
      | none => exact .clear (clear_snoc clear found)
      | some failure =>
          exact .stuck ⟨earlier, call, [], rfl, clear, problem_some_iff.mp found⟩
  | stuck first => exact .stuck (first.extend [call])

theorem write_next (entity : String) (call : String × Content) {entries : List (String × Value)}
    (noted : Option Failure)
    (held : ∀ key, key ∈ entries.map (·.1) ↔ key ∈ keysOf keys options earlier) :
    ∃ next, write call.1 call.2 ⟨entity, keys, options, entries, noted⟩ =
        ⟨entity, keys, options, next,
          noted.or (problem entity keys options (keysOf keys options earlier) call)⟩ ∧
      ∀ key, key ∈ next.map (·.1) ↔ key ∈ keysOf keys options (earlier ++ [call]) := by
  have taken : Entries.has (wireKey keys call.1 options) entries = true ↔
      wireKey keys call.1 options ∈ keysOf keys options earlier := by
    rw [← held]
    simp [Entries.has]
  rw [problem, ← Option.or_assoc, keys_snoc]
  by_cases known : wireKey keys call.1 options ∈ keysOf keys options earlier
  · simp only [write, note, put, taken.mpr known, known, ↓reduceIte]
    refine ⟨entries, rfl, fun key => ?_⟩
    rw [held, List.mem_append, List.mem_singleton]
    exact ⟨Or.inl, fun found => found.elim id fun same => same ▸ known⟩
  · simp only [write, note, put, mt taken.mp known, known, ↓reduceIte, Option.or_none]
    refine ⟨_, rfl, fun key => ?_⟩
    rw [List.map_append, List.mem_append, held, List.mem_append]
    rfl

/-- The draft behind writes, from an empty one. -/
def run (entity : String) (keys : WireKeys) (options : Options)
    (calls : List (String × Content)) : Draft :=
  calls.foldl (fun draft call => draft.write call.1 call.2) (.fresh entity keys options)

theorem run_append (calls later : List (String × Content)) :
    run entity keys options (calls ++ later) =
      later.foldl (fun draft call => draft.write call.1 call.2) (run entity keys options calls) :=
  List.foldl_append

/-- Behind writes, a draft holds their keys, and it has noted the first problem. -/
theorem run_state (entity : String) (keys : WireKeys) (options : Options)
    (calls : List (String × Content)) :
    ∃ entries noted,
      run entity keys options calls = ⟨entity, keys, options, entries, noted⟩ ∧
      (∀ key, key ∈ entries.map (·.1) ↔ key ∈ keysOf keys options calls) ∧
      Fate entity keys options calls noted := by
  induction calls using List.reverseRecOn with
  | nil =>
      exact ⟨[], none, rfl, fun _ => Iff.rfl, .clear ⟨List.nodup_nil, List.forall_mem_nil _⟩⟩
  | append_singleton earlier call ih =>
      obtain ⟨entries, noted, before, held, fate⟩ := ih
      obtain ⟨next, written, holds⟩ := write_next entity call noted held
      exact ⟨next, _, by rw [run_append, before, ← written]; rfl, holds, fate_step call fate⟩

theorem run_clear_iff (entity : String) (calls : List (String × Content)) :
    (run entity keys options calls).failure = none ↔ Clear keys options calls := by
  obtain ⟨entries, noted, state, -, fate⟩ := run_state entity keys options calls
  rw [state]
  cases fate with
  | clear clear => simp [clear]
  | stuck first => simpa using first.not_clear

theorem write_keeps {failure : Failure} (draft : Draft) (noted : draft.failure = some failure)
    (call : String × Content) : (draft.write call.1 call.2).failure = some failure := by
  by_cases taken : Entries.has (wireKey draft.keys call.1 draft.options) draft.entries = true <;>
    simp [write, note, put, taken, noted]

/-- No later write replaces or clears what a draft has noted. -/
theorem run_keeps {failure : Failure} {calls : List (String × Content)}
    (noted : (run entity keys options calls).failure = some failure)
    (later : List (String × Content)) :
    (run entity keys options (calls ++ later)).failure = some failure := by
  rw [run_append]
  exact later.foldlRecOn (motive := fun draft => draft.failure = some failure) _ noted
    fun draft noted call _ => write_keeps draft noted call

theorem run_stuck_iff (calls : List (String × Content)) (failure : Failure) :
    (run entity keys options calls).failure = some failure ↔
      FirstOffence entity keys options calls failure := by
  constructor
  · intro stuck
    obtain ⟨entries, noted, state, -, fate⟩ := run_state entity keys options calls
    obtain rfl : noted = some failure := by rw [← stuck, state]
    cases fate with
    | stuck first => exact first
  · rintro ⟨front, call, behind, rfl, clear, offends⟩
    rw [List.append_cons]
    refine run_keeps ?_ behind
    obtain ⟨entries, noted, state, held, -⟩ := run_state entity keys options front
    obtain rfl : noted = none := by
      rw [← (run_clear_iff entity front).mpr clear, state]
    obtain ⟨next, written, -⟩ := write_next entity call none held
    rw [run_append, state]
    rw [problem_some_iff.mpr offends] at written
    exact congrArg Draft.failure written

theorem write_all_run (writes : List (String × Content)) (draft : Draft) :
    writeAll draft.options writes draft =
      writes.foldl (fun draft call => draft.write call.1 call.2) draft := by
  induction writes generalizing draft with
  | nil => rfl
  | cons write rest ih =>
      have kept : (draft.write write.1 write.2).options = draft.options := by
        by_cases taken :
            Entries.has (wireKey draft.keys write.1 draft.options) draft.entries = true <;>
          simp [Draft.write, note, put, taken]
      rw [writeAll, List.foldl_cons, ← ih, kept]
      rfl

/-- A record is written as its writes leave an empty draft. -/
theorem encode_run (writes : List (String × Content)) :
    (Record.mk entity keys writes).encode options = (run entity keys options writes).finish :=
  (Record.encode.eq_1 _ _ _ _).trans
    (congrArg finish (write_all_run writes (fresh entity keys options)))

theorem run_image (writes : List (String × Content)) (clear : Clear keys options writes)
    (each : ∀ write ∈ writes, ∀ record, write.2.Holds record → ∀ value,
      record.encode options = .ok value → value = record.image options) :
    run entity keys options writes =
      ⟨entity, keys, options, Content.imageWrites options keys writes, none⟩ := by
  rw [run, ← write_all_run, fresh, write_all_images]
  · rfl
  · intro write member record holds
    obtain ⟨place, part⟩ := Content.holds_nested holds
    obtain ⟨value, encoded⟩ := clear.encodes write member _ part
    rw [encoded, each write member record holds value encoded]
  · exact clear.apart

end Runs

end Draft

theorem Record.encode_only_image {options : Options} (record : Record) :
    ∀ value, record.encode options = .ok value → value = record.image options := by
  induction record using Record.held_induction with
  | step entity keys writes ih =>
      intro value encoded
      rw [Draft.encode_run, Draft.finish] at encoded
      split at encoded
      case h_1 => contradiction
      case h_2 quiet =>
          have clear := (Draft.run_clear_iff entity writes).mp quiet
          rw [Draft.run_image writes clear ih] at encoded
          exact (Except.ok.inj encoded).symm

namespace Draft
variable {entity : String} {keys : WireKeys} {options : Options}

theorem finish_ok_iff (calls : List (String × Content)) (value : Value) :
    (run entity keys options calls).finish = .ok value ↔
      Clear keys options calls ∧ value = .object (Content.imageWrites options keys calls) := by
  constructor
  · intro finished
    have image := Record.encode_only_image _ value ((encode_run calls).trans finished)
    refine ⟨(run_clear_iff entity calls).mp ?_, image⟩
    rw [finish] at finished
    split at finished
    · contradiction
    · assumption
  · rintro ⟨clear, rfl⟩
    rw [run_image calls clear fun _ _ record _ => record.encode_only_image]
    rfl

theorem finish_error_iff (calls : List (String × Content)) (failure : Failure) :
    (run entity keys options calls).finish = .error failure ↔
      FirstOffence entity keys options calls failure := by
  rw [← run_stuck_iff, finish]
  split <;> simp_all

end Draft

/-! The writes that a field can make. -/
-- Absent optional parts are spelled out.
inductive Write where
  | scalar (type : ScalarType) (item : type.Carrier)
  | optional (type : ScalarType) (item : Option type.Carrier)
  | entity (record : Record)
  | optionalEntity (record : Option Record)
  | list (records : List Record)
  | scalarList (type : ScalarType) (items : List type.Carrier)
  | keyed (records : List (String × Record))
  | enumeration (choices : Enumeration) (case : choices.Case)
  | optionalEnumeration (choices : Enumeration) (case : Option choices.Case)

namespace Write

def content : Write → Content
  | .scalar type item => .scalar type item
  | .optional type item => .optional type item
  | .entity record => .entity record
  | .optionalEntity record => .optionalEntity record
  | .list records => .list records
  | .scalarList type items => .scalarList type items
  | .keyed records => .keyed records
  | .enumeration choices case => .enumeration choices case
  | .optionalEnumeration choices case => .optionalEnumeration choices case

/-- What stands on the wire for a write. Where nothing is given, that is a null. -/
inductive Stands (options : Options) : Write → Value → Prop where
  | scalar (type : ScalarType) (item : type.Carrier) :
      Stands options (.scalar type item) (type.write item)
  | given (type : ScalarType) (item : type.Carrier) :
      Stands options (.optional type (some item)) (type.write item)
  | nothing (type : ScalarType) : Stands options (.optional type none) .null
  | entity {record : Record} {value : Value} (encoded : record.encode options = .ok value) :
      Stands options (.entity record) value
  | givenEntity {record : Record} {value : Value} (encoded : record.encode options = .ok value) :
      Stands options (.optionalEntity (some record)) value
  | noEntity : Stands options (.optionalEntity none) .null
  | list {records : List Record} {values : List Value}
      (each : List.Forall₂ (fun record value => record.encode options = .ok value)
        records values) :
      Stands options (.list records) (.array values)
  | scalarList (type : ScalarType) (items : List type.Carrier) :
      Stands options (.scalarList type items) (.array (items.map type.write))
  | keyed {records : List (String × Record)} {entries : List (String × Value)}
      (each : List.Forall₂ (fun record entry => entry.1 = record.1 ∧
        record.2.encode options = .ok entry.2) records entries) :
      Stands options (.keyed records) (.object entries)
  | enumeration (choices : Enumeration) (case : choices.Case) :
      Stands options (.enumeration choices case) (choices.raw.write (choices.toRaw case))
  | givenCase (choices : Enumeration) (case : choices.Case) :
      Stands options (.optionalEnumeration choices (some case))
        (choices.raw.write (choices.toRaw case))
  | noCase (choices : Enumeration) : Stands options (.optionalEnumeration choices none) .null

theorem stands_image {options : Options} (write : Write) (encodes : write.content.Encodes options) :
    write.Stands options (write.content.image options) := by
  have each : ∀ part ∈ write.content.nested,
      part.2.encode options = .ok (part.2.image options) := by
    intro part member
    obtain ⟨value, encoded⟩ := encodes part member
    rw [encoded, part.2.encode_only_image value encoded]
  cases write with
  | scalar type item => exact .scalar type item
  | optional type item =>
      cases item with
      | none => exact .nothing type
      | some item => exact .given type item
  | entity record => exact .entity (each _ List.mem_cons_self)
  | optionalEntity record =>
      cases record with
      | none => exact .noEntity
      | some record => exact .givenEntity (each _ List.mem_cons_self)
  | list records =>
      rw [content, Content.image, Content.image_items]
      refine .list (List.forall₂_map_right_iff.mpr (List.forall₂_same.mpr fun record member => ?_))
      obtain ⟨place, part⟩ := Content.holds_nested (.item member)
      exact each _ part
  | scalarList type items => exact .scalarList type items
  | keyed records =>
      rw [content, Content.image, Content.image_keyed]
      refine .keyed (List.forall₂_map_right_iff.mpr (List.forall₂_same.mpr fun entry member => ?_))
      obtain ⟨place, part⟩ := Content.holds_nested (.entry member)
      exact ⟨rfl, each _ part⟩
  | enumeration choices case => exact .enumeration choices case
  | optionalEnumeration choices case =>
      cases case with
      | none => exact .noCase choices
      | some case => exact .givenCase choices case

def contents (calls : List (String × Write)) : List (String × Content) :=
  calls.map fun call => (call.1, call.2.content)

-- An empty draft, behind the writes.
def draft (entity : String) (keys : WireKeys) (options : Options) (calls : List (String × Write)) :
    Draft :=
  calls.foldl (fun draft call => draft.write call.1 call.2.content) (.fresh entity keys options)

theorem draft_run (entity : String) (keys : WireKeys) (options : Options)
    (calls : List (String × Write)) :
    draft entity keys options calls = Draft.run entity keys options (contents calls) := by
  rw [draft, Draft.run, contents, List.foldl_map]

theorem clear_iff (keys : WireKeys) (options : Options) (calls : List (String × Write)) :
    Draft.Clear keys options (contents calls) ↔
      (calls.map fun call => wireKey keys call.1 options).Nodup ∧
        ∀ call ∈ calls, ∀ part ∈ call.2.content.nested,
          ∃ value, part.2.encode options = .ok value := by
  have same : Draft.keysOf keys options (contents calls) =
      calls.map fun call => wireKey keys call.1 options := by
    rw [Draft.keysOf, contents, List.map_map]
    rfl
  rw [← same]
  constructor
  · rintro ⟨apart, encodes⟩
    exact ⟨apart, fun call member => encodes _ (List.mem_map_of_mem member)⟩
  · rintro ⟨apart, encodes⟩
    exact ⟨apart, List.forall_mem_map.mpr encodes⟩

end Write

/--
A draft keeps every write, or else reports the first problem. It ends well just if the wire keys
differ and every nested record encodes, and then holds one entry per write, in order. What it
reports otherwise is what is wrong with the first write that goes wrong, whatever comes later.
-/
theorem draft_keeps_or_reports (entity : String) (keys : WireKeys) (options : Options)
    (calls : List (String × Write)) :
    let finished := fun calls => (Write.draft entity keys options calls).finish
    ((∃ value, finished calls = .ok value) ↔
      (calls.map fun call => wireKey keys call.1 options).Nodup ∧
        ∀ call ∈ calls, ∀ part ∈ call.2.content.nested,
          ∃ value, part.2.encode options = .ok value) ∧
    (∀ value, finished calls = .ok value → ∃ entries, value = .object entries ∧
      List.Forall₂ (fun call entry => entry.1 = wireKey keys call.1 options ∧
        call.2.Stands options entry.2) calls entries) ∧
    (∀ failure, finished calls = .error failure ↔
      Draft.FirstOffence entity keys options (Write.contents calls) failure) ∧
    (∀ failure later, finished calls = .error failure →
      finished (calls ++ later) = .error failure) ∧
    finished calls = (Record.mk entity keys (Write.contents calls)).encode options := by
  intro finished
  have ran : ∀ calls, finished calls =
      (Draft.run entity keys options (Write.contents calls)).finish := fun calls =>
    congrArg Draft.finish (Write.draft_run entity keys options calls)
  simp only [ran]
  refine ⟨?_, ?_, Draft.finish_error_iff _, ?_, (Draft.encode_run _).symm⟩
  · simp only [Draft.finish_ok_iff, ← Write.clear_iff]
    exact ⟨fun ⟨value, clear, _⟩ => clear, fun clear => ⟨_, clear, rfl⟩⟩
  · intro value kept
    obtain ⟨clear, rfl⟩ := (Draft.finish_ok_iff _ value).mp kept
    refine ⟨_, rfl, ?_⟩
    rw [Content.image_writes, Write.contents, List.map_map, List.forall₂_map_right_iff,
      List.forall₂_same]
    intro call member
    exact ⟨rfl, call.2.stands_image (clear.encodes _ (List.mem_map_of_mem member))⟩
  · intro failure later
    have joined : Write.contents (calls ++ later) = Write.contents calls ++ Write.contents later :=
      List.map_append
    rw [Draft.finish_error_iff, Draft.finish_error_iff, joined]
    exact fun first => first.extend _

end Interchange
