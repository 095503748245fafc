import Interchange.Entity.Schema
/-!
Turning records into maps. A draft takes writes in order and never refuses one; the first problem
stays with it until the end, and a nested record that fails leaves a null in its place.
-/
namespace Interchange

structure Draft where
  entity : String
  keys : WireKeys
  options : Options
  entries : List (String × Value)
  failure : Option Failure

namespace Draft

def fresh (entity : String) (keys : WireKeys) (options : Options) : Draft :=
  ⟨entity, keys, options, [], none⟩

-- The first failure is the one that counts.
def note (failure : Option Failure) (draft : Draft) : Draft :=
  { draft with failure := draft.failure.or failure }

def put (name : String) (value : Value) (draft : Draft) : Draft :=
  let key := wireKey draft.keys name draft.options
  if Entries.has key draft.entries then draft.note (some (.repeatedKey draft.entity key))
  else { draft with entries := draft.entries ++ [(key, value)] }

def finish (draft : Draft) : Except Failure Value :=
  match draft.failure with
  | some failure => .error failure
  | none => .ok (.object draft.entries)

end Draft

-- A value with nulls where nested records failed, and the first of those failures.
abbrev Written (α : Type) := α × Option Failure

def writtenAs (name : String) (position : Option Position) :
    Except Failure Value → Written Value
  | .ok value => (value, none)
  | .error failure => (.null, some (.nested name position failure))

mutual
def Record.encode (options : Options) : Record → Except Failure Value
  | .mk entity keys writes => (Draft.writeAll options writes (.fresh entity keys options)).finish
termination_by structural record => record
def Draft.writeAll (options : Options) : List (String × Content) → Draft → Draft
  | [], draft => draft
  | (name, content) :: rest, draft =>
    let written := content.written options name
    Draft.writeAll options rest ((draft.note written.2).put name written.1)
termination_by structural writes => writes
def Content.written (options : Options) (name : String) : Content → Written Value
  | .leaf value => (value, none)
  | .entity record => writtenAs name none (record.encode options)
  | .list records =>
    let written := Content.writtenItems options name 0 [] none records
    (.array written.1, written.2)
  | .keyed records =>
    let written := Content.writtenEntries options name [] none records
    (.object written.1, written.2)
termination_by structural content => content
def Content.writtenItems (options : Options) (name : String) (index : Nat) (done : List Value)
    (failure : Option Failure) : List Record → Written (List Value)
  | [] => (done.reverse, failure)
  | record :: rest =>
    let written := writtenAs name (some (.index index)) (record.encode options)
    Content.writtenItems options name (index + 1) (written.1 :: done)
      (failure.or written.2) rest
termination_by structural records => records
def Content.writtenEntries (options : Options) (name : String) (done : List (String × Value))
    (failure : Option Failure) : List (String × Record) → Written (List (String × Value))
  | [] => (done.reverse, failure)
  | (key, record) :: rest =>
    let written := writtenAs name (some (.key key)) (record.encode options)
    Content.writtenEntries options name ((key, written.1) :: done) (failure.or written.2) rest
termination_by structural records => records
end

namespace Draft

/-- One write, under the options of the draft. -/
def write (name : String) (content : Content) (draft : Draft) : Draft :=
  let written := content.written draft.options name
  (draft.note written.2).put name written.1

end Draft

namespace Schema

variable {Entity : Type} (schema : Schema Entity)

/-- Turns an entity into a map. -/
def encode (options : Options) (entity : Entity) (carrier : schema.Carrier entity) :
    Except Failure Value :=
  (schema.record entity carrier).encode options

end Schema

end Interchange
