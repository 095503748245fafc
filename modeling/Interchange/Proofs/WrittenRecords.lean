import Interchange.Entity.Encoding
import Interchange.Proofs.ValueParts
/-!
The value that a record is written as. If no record inside it writes a wire key twice, encoding
succeeds with this image, one entry per write in the order of the writes. Otherwise it fails with
a key written twice, and with nothing else.
-/
namespace Interchange

section Images
variable (options : Options)

mutual
def Record.image : Record → Value
  | .mk _ keys writes => .object (Content.imageWrites keys writes)
termination_by structural record => record
def Content.image : Content → Value
  | .leaf value => value
  | .entity record => record.image
  | .list records => .array (Content.imageItems records)
  | .keyed records => .object (Content.imageKeyed records)
termination_by structural content => content
def Content.imageWrites (keys : WireKeys) : List (String × Content) → List (String × Value)
  | [] => []
  | (name, content) :: rest =>
    (wireKey keys name options, content.image) :: Content.imageWrites keys rest
termination_by structural writes => writes
def Content.imageItems : List Record → List Value
  | [] => []
  | record :: rest => record.image :: Content.imageItems rest
termination_by structural records => records
def Content.imageKeyed : List (String × Record) → List (String × Value)
  | [] => []
  | (key, record) :: rest => (key, record.image) :: Content.imageKeyed rest
termination_by structural records => records
end

namespace Content

theorem image_writes (keys : WireKeys) (writes : List (String × Content)) :
    imageWrites options keys writes =
      writes.map fun write => (wireKey keys write.1 options, write.2.image options) := by
  induction writes with
  | nil => rfl
  | cons write rest ih =>
      obtain ⟨name, content⟩ := write
      rw [imageWrites, ih, List.map_cons]

theorem image_items (records : List Record) :
    imageItems options records = records.map (Record.image options) := by
  induction records with
  | nil => rfl
  | cons record rest ih => rw [imageItems, ih, List.map_cons]

theorem image_keyed (records : List (String × Record)) :
    imageKeyed options records = records.map fun entry => (entry.1, entry.2.image options) := by
  induction records with
  | nil => rfl
  | cons entry rest ih =>
      obtain ⟨key, record⟩ := entry
      rw [imageKeyed, ih, List.map_cons]

end Content

end Images

/-! Induction over the records inside a record. -/
inductive Content.Holds : Content → Record → Prop where
  | entity (record : Record) : Holds (.entity record) record
  | item {records : List Record} {record : Record} (member : record ∈ records) :
      Holds (.list records) record
  | entry {records : List (String × Record)} {key : String} {record : Record}
      (member : (key, record) ∈ records) : Holds (.keyed records) record

theorem Content.holds_smaller {content : Content} {record : Record}
    (holds : content.Holds record) : sizeOf record < sizeOf content := by
  cases holds with
  | entity => simp
  | item member =>
      have smaller := List.sizeOf_lt_of_mem member
      simp only [Content.list.sizeOf_spec]
      omega
  | entry member =>
      have smaller := List.sizeOf_lt_of_mem member
      simp only [Prod.mk.sizeOf_spec] at smaller
      simp only [Content.keyed.sizeOf_spec]
      omega

theorem Record.write_smaller {entity name : String} {keys : WireKeys} {content : Content}
    {writes : List (String × Content)} (member : (name, content) ∈ writes) :
    sizeOf content < sizeOf (Record.mk entity keys writes) := by
  have smaller := List.sizeOf_lt_of_mem member
  simp only [Prod.mk.sizeOf_spec] at smaller
  simp only [Record.mk.sizeOf_spec]
  omega

theorem Record.held_induction {motive : Record → Prop}
    (step : ∀ entity keys writes,
      (∀ write ∈ writes, ∀ inner, write.2.Holds inner → motive inner) →
        motive (.mk entity keys writes))
    (record : Record) : motive record :=
  match record with
  | .mk entity keys writes =>
    step entity keys writes fun _ _ inner _ => held_induction step inner
termination_by sizeOf record
decreasing_by exact Nat.lt_trans (Content.holds_smaller ‹_›) (Record.write_smaller ‹_ ∈ _›)

/-- No record, at any depth, writes a wire key twice. -/
inductive Record.Distinct (options : Options) : Record → Prop where
  | mk {entity : String} {keys : WireKeys} {writes : List (String × Content)}
      (apart : (writes.map fun write => wireKey keys write.1 options).Nodup)
      (inner : ∀ write ∈ writes, ∀ record, write.2.Holds record → Distinct options record) :
      Distinct options (.mk entity keys writes)

-- A keyed collection is a map, so its keys arrive once each; so do those of all inside it.
inductive Record.KeyedOnce : Record → Prop where
  | mk {entity : String} {keys : WireKeys} {writes : List (String × Content)}
      (once : ∀ write ∈ writes, ∀ records, write.2 = .keyed records →
        (records.map (·.1)).Nodup)
      (inner : ∀ write ∈ writes, ∀ record, write.2.Holds record → KeyedOnce record) :
      KeyedOnce (.mk entity keys writes)

section Encoding
variable (options : Options)

namespace Content

theorem written_items (name : String) (index : Nat) (done : List Value) (records : List Record)
    (each : ∀ record ∈ records, record.encode options = .ok (record.image options)) :
    writtenItems options name index done none records =
      (done.reverse ++ records.map (Record.image options), none) := by
  induction records generalizing index done with
  | nil => simp [writtenItems]
  | cons record rest ih =>
      obtain ⟨head, tail⟩ := List.forall_mem_cons.mp each
      rw [writtenItems, head]
      simp only [writtenAs, Option.or_none]
      rw [ih _ _ tail, List.reverse_cons, List.append_assoc, List.singleton_append, List.map_cons]

theorem written_entries (name : String) (done : List (String × Value))
    (records : List (String × Record))
    (each : ∀ entry ∈ records, entry.2.encode options = .ok (entry.2.image options)) :
    writtenEntries options name done none records =
      (done.reverse ++ records.map fun entry => (entry.1, entry.2.image options), none) := by
  induction records generalizing done with
  | nil => simp [writtenEntries]
  | cons entry rest ih =>
      obtain ⟨key, record⟩ := entry
      obtain ⟨head, tail⟩ := List.forall_mem_cons.mp each
      rw [writtenEntries, head]
      simp only [writtenAs, Option.or_none]
      rw [ih _ tail, List.reverse_cons, List.append_assoc, List.singleton_append, List.map_cons]

/-- A content whose records all encode is written as its image, with nothing to report. -/
theorem written_image (name : String) (content : Content)
    (each : ∀ record, content.Holds record → record.encode options = .ok (record.image options)) :
    content.written options name = (content.image options, none) := by
  cases content with
  | leaf value => rfl
  | entity record => rw [written, each record (.entity record), writtenAs, image]
  | list records =>
      rw [written, written_items options name 0 [] records fun record member =>
        each record (.item member), image, image_items]
      rfl
  | keyed records =>
      rw [written, written_entries options name [] records fun entry member =>
        each entry.2 (.entry member), image, image_keyed]
      rfl

end Content

namespace Draft

theorem has_fresh (key : String) (entries : List (String × Value))
    (fresh : key ∉ entries.map (·.1)) : Entries.has key entries = false := by
  rw [Entries.has, List.any_eq_false]
  intro entry member
  simp only [beq_iff_eq]
  intro same
  exact fresh (same ▸ List.mem_map_of_mem member)

/-- Writes under new keys add their images behind what is there. -/
theorem write_all_images (entity : String) (keys : WireKeys) (writes : List (String × Content))
    (each : ∀ write ∈ writes, ∀ record, write.2.Holds record →
      record.encode options = .ok (record.image options))
    (entries : List (String × Value))
    (apart : (entries.map (·.1) ++ writes.map fun write => wireKey keys write.1 options).Nodup) :
    writeAll options writes ⟨entity, keys, options, entries, none⟩ =
      ⟨entity, keys, options, entries ++ Content.imageWrites options keys writes, none⟩ := by
  induction writes generalizing entries with
  | nil => simp [writeAll, Content.imageWrites]
  | cons write rest ih =>
      obtain ⟨name, content⟩ := write
      obtain ⟨head, tail⟩ := List.forall_mem_cons.mp each
      have fresh : wireKey keys name options ∉ entries.map (·.1) := by
        intro inside
        have separate := (List.nodup_append.mp apart).2.2
        exact separate _ inside _ List.mem_cons_self rfl
      have moved : ((entries ++ [(wireKey keys name options, content.image options)]).map (·.1) ++
          rest.map fun write => wireKey keys write.1 options).Nodup := by
        simpa using apart
      rw [writeAll, Content.written_image options name content head]
      simp only [note, put, Option.or_none, has_fresh _ _ fresh, Bool.false_eq_true, ↓reduceIte]
      rw [ih tail _ moved, Content.imageWrites, List.append_assoc, List.singleton_append]

end Draft

theorem Record.encode_image (record : Record) (distinct : record.Distinct options) :
    record.encode options = .ok (record.image options) := by
  induction distinct with
  | @mk entity keys writes apart inner ih =>
      rw [encode, Draft.fresh, Draft.write_all_images options entity keys writes ih []
        (by simpa using apart)]
      rfl

end Encoding

/-! What encoding fails with, down to the record that is to blame. -/
-- A wire key written twice, in the record itself or in one inside it.
inductive Failure.OfWriting : Failure → Prop where
  | repeatedKey (entity wireKey : String) : OfWriting (.repeatedKey entity wireKey)
  | nested (name : String) (position : Option Position) {source : Failure}
      (inner : OfWriting source) : OfWriting (.nested name position source)

section Failing
variable {options : Options}

theorem written_as_fails {result : Except Failure Value}
    (each : ∀ failure, result = .error failure → failure.OfWriting) (name : String)
    (position : Option Position) :
    ∀ failure ∈ (writtenAs name position result).2, failure.OfWriting := by
  cases result with
  | ok value => simp [writtenAs]
  | error source =>
      intro failure noted
      exact Option.some.inj noted ▸ .nested name position (each source rfl)

theorem first_of_both {holds : Failure → Prop} {one other : Option Failure}
    (first : ∀ failure ∈ one, holds failure) (second : ∀ failure ∈ other, holds failure) :
    ∀ failure ∈ one.or other, holds failure := by
  cases one with
  | none => exact second
  | some failure => exact first

namespace Content

theorem items_fail (name : String) (index : Nat) (done : List Value) (noted : Option Failure)
    (before : ∀ failure ∈ noted, failure.OfWriting) (records : List Record)
    (each : ∀ record ∈ records, ∀ failure, record.encode options = .error failure →
      failure.OfWriting) :
    ∀ failure ∈ (writtenItems options name index done noted records).2, failure.OfWriting := by
  induction records generalizing index done noted with
  | nil => exact before
  | cons record rest ih =>
      obtain ⟨head, tail⟩ := List.forall_mem_cons.mp each
      exact ih _ _ _ (first_of_both before (written_as_fails head name _)) tail

theorem entries_fail (name : String) (done : List (String × Value)) (noted : Option Failure)
    (before : ∀ failure ∈ noted, failure.OfWriting) (records : List (String × Record))
    (each : ∀ entry ∈ records, ∀ failure, entry.2.encode options = .error failure →
      failure.OfWriting) :
    ∀ failure ∈ (writtenEntries options name done noted records).2, failure.OfWriting := by
  induction records generalizing done noted with
  | nil => exact before
  | cons entry rest ih =>
      obtain ⟨key, record⟩ := entry
      obtain ⟨head, tail⟩ := List.forall_mem_cons.mp each
      exact ih _ _ (first_of_both before (written_as_fails head name _)) tail

theorem written_fails (name : String) (content : Content)
    (each : ∀ record, content.Holds record → ∀ failure, record.encode options = .error failure →
      failure.OfWriting) :
    ∀ failure ∈ (content.written options name).2, failure.OfWriting := by
  cases content with
  | leaf value => simp [written]
  | entity record => exact written_as_fails (each record (.entity record)) name none
  | list records =>
      exact items_fail name 0 [] none (by simp) records fun record member =>
        each record (.item member)
  | keyed records =>
      exact entries_fail name [] none (by simp) records fun entry member =>
        each entry.2 (.entry member)

end Content

namespace Draft

theorem put_fails (name : String) (value : Value) {draft : Draft}
    (before : ∀ failure ∈ draft.failure, failure.OfWriting) :
    ∀ failure ∈ (draft.put name value).failure, failure.OfWriting := by
  rw [put]
  split
  · exact first_of_both before fun failure repeats =>
      Option.some.inj repeats ▸ .repeatedKey draft.entity _
  · exact before

theorem write_all_fails (writes : List (String × Content))
    (each : ∀ write ∈ writes, ∀ record, write.2.Holds record → ∀ failure,
      record.encode options = .error failure → failure.OfWriting)
    (draft : Draft) (before : ∀ failure ∈ draft.failure, failure.OfWriting) :
    ∀ failure ∈ (writeAll options writes draft).failure, failure.OfWriting := by
  induction writes generalizing draft with
  | nil => exact before
  | cons write rest ih =>
      obtain ⟨name, content⟩ := write
      obtain ⟨head, tail⟩ := List.forall_mem_cons.mp each
      exact ih tail _ (put_fails name _ (first_of_both before (content.written_fails name head)))

end Draft

theorem Record.encode_fails (record : Record) :
    ∀ failure, record.encode options = .error failure → failure.OfWriting := by
  induction record using Record.held_induction with
  | step entity keys writes ih =>
      intro failure failed
      have noted := Draft.write_all_fails writes ih (.fresh entity keys options) (by simp [Draft.fresh])
      rw [encode, Draft.finish] at failed
      split at failed
      · rename_i found held
        exact Except.error.inj failed ▸ noted found held
      · contradiction

end Failing

end Interchange
