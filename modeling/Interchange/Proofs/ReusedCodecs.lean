import Interchange.Proofs.PackedBytes
import Interchange.Proofs.ValueParts
/-!
Codecs that serve many requests. A write ends the same way and leaves the same bytes whatever stands
in the buffer, and an encoding clears the buffer before it writes. Main statement: in any run, with
writes that are given up and requests that fail in between, every request is answered as it is by a
fresh writer or fresh codecs.
-/
namespace Interchange

/-! Requests one after the other, each with the state that the one before it left. -/
section Runs
variable {Asked Told State : Type} (perform : Asked → State → Told × State)

def answersOf : List Asked → State → List Told × State
  | [], state => ([], state)
  | request :: rest, state =>
    let made := perform request state
    let later := answersOf rest made.2
    (made.1 :: later.1, later.2)

/-- If no single answer depends on the state, then no answer of a run does. -/
theorem answers_of_blind (alone : Asked → Told)
    (blind : ∀ request state, (perform request state).1 = alone request)
    (requests : List Asked) (state : State) :
    (answersOf perform requests state).1 = requests.map alone := by
  induction requests generalizing state with
  | nil => rfl
  | cons request rest ih =>
      simp only [answersOf, List.map_cons]
      rw [blind, ih]

end Runs

namespace MessagePack.Writer

/-- The end of a write, with the writer as it stands then. -/
def ended {α : Type} : EStateM.Result Fault Writer α → Except Fault α × Writer
  | .ok result after => (.ok result, after)
  | .error fault after => (.error fault, after)

theorem ended_ok_iff {α : Type} {result : EStateM.Result Fault Writer α} {found : α}
    {after : Writer} : ended result = (.ok found, after) ↔ result = .ok found after := by
  cases result <;> simp [ended]

theorem ended_error_iff {α : Type} {result : EStateM.Result Fault Writer α} {fault : Fault}
    {after : Writer} : ended result = (.error fault, after) ↔ result = .error fault after := by
  cases result <;> simp [ended]

/-! Single writes. -/
section Writes

/-- A write that the buffer has no influence on: it ends as it ends, with as many bytes behind
those of the buffer as it got to. -/
def Blind (write : Write Unit) : Prop :=
  ∃ answer, ∃ bytes : List UInt8, ∀ writer,
    ended (write writer) = (answer, ⟨writer.buffer ++ bytes⟩)

theorem blind_emit (bytes : List UInt8) : Blind (emit bytes) := ⟨.ok (), bytes, fun _ => rfl⟩

theorem blind_done : Blind (pure ()) := by
  refine ⟨.ok (), [], fun writer => ?_⟩
  rw [Array.appendList_nil]
  rfl

theorem blind_fault (fault : Fault) : Blind (throw fault) := by
  refine ⟨.error fault, [], fun writer => ?_⟩
  rw [Array.appendList_nil]
  rfl

theorem blind_both {first second : Write Unit} (head : Blind first) (tail : Blind second) :
    Blind (do first; second) := by
  obtain ⟨answer, before, headEnds⟩ := head
  obtain ⟨finish, behind, tailEnds⟩ := tail
  cases answer with
  | error fault =>
      refine ⟨.error fault, before, fun writer => ?_⟩
      have stopped := ended_error_iff.mp (headEnds writer)
      simp only [bind, EStateM.bind, stopped, ended]
  | ok _ =>
      refine ⟨finish, before ++ behind, fun writer => ?_⟩
      have reached := ended_ok_iff.mp (headEnds writer)
      have joined : writer.buffer ++ (before ++ behind) = writer.buffer ++ before ++ behind :=
        Array.ext' (by simp)
      simp only [bind, EStateM.bind, reached, tailEnds, joined]

theorem blind_choice {holds : Prop} [Decidable holds] {first second : Write Unit}
    (head : Blind first) (other : Blind second) : Blind (if holds then first else second) := by
  split
  · exact head
  · exact other

theorem blind_wide (size : Nat) (marker16 marker32 : UInt8) :
    Blind (wideLength size marker16 marker32) :=
  blind_choice (blind_emit _) (blind_choice (blind_emit _) (blind_fault _))

theorem blind_length (size : Nat) (marker8 marker16 marker32 : UInt8) :
    Blind (length size marker8 marker16 marker32) :=
  blind_choice (blind_emit _) (blind_wide _ _ _)

theorem blind_text (text : String) : Blind (str text) := by
  rw [str]
  dsimp only
  split
  · exact blind_both (blind_emit _) (blind_emit _)
  · exact blind_both (blind_length _ _ _ _) (blind_emit _)

theorem blind_binary (content : List UInt8) : Blind (bin content) :=
  blind_both (blind_length _ _ _ _) (blind_emit _)

theorem blind_array_header (size : Nat) : Blind (arrayHeader size) :=
  blind_choice (blind_emit _) (blind_wide _ _ _)

theorem blind_map_header (size : Nat) : Blind (mapHeader size) :=
  blind_choice (blind_emit _) (blind_wide _ _ _)

theorem blind_items (items : List Value) (each : ∀ item ∈ items, Blind (value item)) :
    Blind (values items) := by
  induction items with
  | nil => exact blind_done
  | cons item rest ih =>
      obtain ⟨head, tail⟩ := List.forall_mem_cons.mp each
      exact blind_both head (ih tail)

theorem blind_entries (entries : List (String × Value))
    (each : ∀ entry ∈ entries, Blind (value entry.2)) : Blind (members entries) := by
  induction entries with
  | nil => exact blind_done
  | cons entry rest ih =>
      obtain ⟨head, tail⟩ := List.forall_mem_cons.mp each
      exact blind_both (blind_text entry.1) (blind_both head (ih tail))

theorem blind_value (content : Value) : Blind (value content) := by
  induction content using Value.inside_induction with
  | step content ih =>
      cases content with
      | str text => exact blind_text text
      | bytes content => exact blind_binary content
      | array items =>
          exact blind_both (blind_array_header _)
            (blind_items items fun item member => ih item (.item member))
      | object entries =>
          exact blind_both (blind_map_header _)
            (blind_entries entries fun entry member => ih entry.2 (.entry member))
      | _ => exact blind_emit _

end Writes

/-! What can be asked of a writer. -/
section Calls

inductive Piece where
  | null
  | bool (flag : Bool)
  | integer (number : Int64)
  | unsigned (number : UInt64)
  | float (number : Binary64)
  | str (text : String)
  | bin (content : List UInt8)
  | arrayHeader (size : Nat)
  | mapHeader (size : Nat)
  | value (content : Value)

def Piece.write : Piece → Write Unit
  | .null => Writer.null
  | .bool flag => Writer.bool flag
  | .integer number => Writer.integer number
  | .unsigned number => Writer.unsigned number
  | .float number => Writer.float number
  | .str text => Writer.str text
  | .bin content => Writer.bin content
  | .arrayHeader size => Writer.arrayHeader size
  | .mapHeader size => Writer.mapHeader size
  | .value content => Writer.value content

theorem blind_piece (piece : Piece) : Blind piece.write := by
  cases piece with
  | str text => exact blind_text text
  | bin content => exact blind_binary content
  | arrayHeader size => exact blind_array_header size
  | mapHeader size => exact blind_map_header size
  | value content => exact blind_value content
  | _ => exact blind_emit _

-- A piece stays in the buffer; an encoding takes the bytes of its value out of it.
inductive Call where
  | write (piece : Piece)
  | encode (content : Value)

inductive Answer where
  | written (result : Except Fault Unit)
  | encoded (result : Except Fault (List UInt8))

def Call.perform : Call → Writer → Answer × Writer
  | .write piece, writer =>
    let made := ended (piece.write.run writer)
    (.written made.1, made.2)
  | .encode content, writer =>
    let made := ended ((Writer.encode content).run writer)
    (.encoded made.1, made.2)

/-- The answer to a call that is alone with a writer of its own. -/
def Call.alone : Call → Answer
  | .write piece => .written (ended (piece.write.run .fresh)).1
  | .encode content => .encoded (MessagePack.encode content)

/-- An encoding forgets the buffer before it starts. -/
theorem encode_forgets (content : Value) (writer : Writer) :
    (Writer.encode content).run writer = (Writer.encode content).run .fresh := rfl

theorem perform_alone (call : Call) (writer : Writer) : (call.perform writer).1 = call.alone := by
  cases call with
  | write piece =>
      obtain ⟨answer, bytes, ends⟩ := blind_piece piece
      simp only [Call.perform, Call.alone, EStateM.run, ends]
  | encode content =>
      rw [Call.perform, Call.alone, MessagePack.encode, encode_forgets content writer]
      cases (Writer.encode content).run fresh <;> rfl

end Calls

end MessagePack.Writer

/-- The bytes of a value in the format of a codec, with nothing kept from before. -/
def Codec.encode : Codec → Value → Except CodecFault (List UInt8)
  | .messagePack, value => (MessagePack.encode value).mapError .messagePack
  | .json, value => (Json.encode value).mapError .json

namespace Codecs

-- What can be asked of codecs: to pack, to unpack, one codec by itself, or the writer they keep.
inductive Request where
  | pack (value : Value) (format : ContentType)
  | unpack (bytes : List UInt8) (format : ContentType) (allowed : List ContentType)
  | encode (codec : Codec) (value : Value)
  | direct (call : MessagePack.Writer.Call)

inductive Answer where
  | packed (result : Except PackFault (List UInt8))
  | unpacked (result : Except PackFault Value)
  | encoded (result : Except CodecFault (List UInt8))
  | written (answer : MessagePack.Writer.Answer)

def Request.perform : Request → Codecs → Answer × Codecs
  | .pack value format, codecs =>
    let made := codecs.pack value format
    (.packed made.1, made.2)
  | .unpack bytes format allowed, codecs =>
    (.unpacked (codecs.unpack bytes format allowed), codecs)
  | .encode codec value, codecs =>
    let made := codecs.encode codec value
    (.encoded made.1, made.2)
  | .direct call, codecs =>
    let made := call.perform codecs.writer
    (.written made.1, ⟨made.2⟩)

/-- The answer to a request that is alone with codecs of its own. -/
def Request.alone : Request → Answer
  | .pack value format => .packed (Interchange.pack value format)
  | .unpack bytes format allowed => .unpacked (Interchange.unpack bytes format allowed)
  | .encode codec value => .encoded (codec.encode value)
  | .direct call => .written call.alone

theorem encode_alone (codecs : Codecs) (codec : Codec) (value : Value) :
    (codecs.encode codec value).1 = codec.encode value := by
  cases codec with
  | messagePack =>
      rw [encode, Codec.encode, MessagePack.encode, MessagePack.Writer.encode_forgets]
      cases (MessagePack.Writer.encode value).run .fresh <;> rfl
  | json => rfl

theorem pack_alone (codecs : Codecs) (value : Value) (format : ContentType) :
    (codecs.pack value format).1 = Interchange.pack value format := by
  rw [Interchange.pack, pack_result, pack_result]
  simp only [encode_alone]

theorem request_alone (request : Request) (codecs : Codecs) :
    (request.perform codecs).1 = request.alone := by
  cases request with
  | pack value format => exact congrArg Answer.packed (pack_alone codecs value format)
  | unpack bytes format allowed => rfl
  | encode codec value => exact congrArg Answer.encoded (encode_alone codecs codec value)
  | direct call => exact congrArg Answer.written (MessagePack.Writer.perform_alone call codecs.writer)

end Codecs

/-- Codecs and writers may be used again. Every answer of a run, in whatever state it starts, is the
answer to the request alone, and what was asked before leaves nothing in the answers to later
requests. An encoding ends in the state that it ends in with a fresh writer, and of any other write
neither its end nor what it appends depends on the bytes that an earlier one left. -/
theorem reused_as_fresh :
    (∀ requests codecs,
      (answersOf Codecs.Request.perform requests codecs).1 = requests.map Codecs.Request.alone) ∧
    (∀ past later codecs,
      (answersOf Codecs.Request.perform (past ++ later) codecs).1 =
        (answersOf Codecs.Request.perform past codecs).1 ++
          (answersOf Codecs.Request.perform later .fresh).1) ∧
    (∀ calls writer,
      (answersOf MessagePack.Writer.Call.perform calls writer).1 =
        calls.map MessagePack.Writer.Call.alone) ∧
    (∀ past later writer,
      (answersOf MessagePack.Writer.Call.perform (past ++ later) writer).1 =
        (answersOf MessagePack.Writer.Call.perform past writer).1 ++
          (answersOf MessagePack.Writer.Call.perform later .fresh).1) ∧
    (∀ content writer, (MessagePack.Writer.encode content).run writer =
      (MessagePack.Writer.encode content).run .fresh) ∧
    ∀ piece : MessagePack.Writer.Piece, MessagePack.Writer.Blind piece.write := by
  have answered := answers_of_blind _ _ Codecs.request_alone
  have called := answers_of_blind _ _ MessagePack.Writer.perform_alone
  refine ⟨answered, ?_, called, ?_, MessagePack.Writer.encode_forgets,
    MessagePack.Writer.blind_piece⟩
  · intro past later codecs
    rw [answered, answered, answered, List.map_append]
  · intro past later writer
    rw [called, called, called, List.map_append]

-- The start of a map that is given up is not in what is encoded next.
example : answersOf MessagePack.Writer.Call.perform
    [.write (.mapHeader 3), .write (.str "a"), .encode (.bool true)] .fresh =
      ([.written (.ok ()), .written (.ok ()), .encoded (.ok [0xc3])], .fresh) := rfl

end Interchange
