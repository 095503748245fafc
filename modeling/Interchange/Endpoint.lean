import Interchange.Config
import Interchange.Context
import Interchange.Entity.Decoding
import Interchange.Entity.Encoding
import Interchange.Validation.Check
/-!
An endpoint joins checked settings with a frozen registry and carries requests through: unpack,
validate, build, handle, encode, pack. The first stage that fails ends the exchange, and
a handler only ever sees a request that passed all stages before it.

Results come with the calls made on the way, so that who was called, how often and with what can
be stated next to the result.
-/
namespace Interchange

structure Endpoint (Entity : Type) where
  options : Options
  registry : Registry Entity
  accept : List ContentType
  respondWith : ContentType
  locale : String

variable {Entity : Type} [DecidableEq Entity]

-- A result and the validator calls that were made for it.
structure Checked (Entity : Type) (α : Type) where
  calls : List (Call Entity)
  result : Except Failure α

abbrev Handler (Request Response : Type) := Request → Context → Except String Response

-- What an exchange does to the outside: it asks a validator, or it hands a request over.
inductive Event (Entity : Type) (Request : Type) where
  | asked (call : Call Entity)
  | handled (request : Request) (context : Context)

namespace Event

variable {Request : Type}

def call? : Event Entity Request → Option (Call Entity)
  | .asked call => some call
  | .handled _ _ => none

def handled? : Event Entity Request → Option (Request × Context)
  | .asked _ => none
  | .handled request context => some (request, context)

end Event

-- An exchange: all that was done on the way, in order, and how it ended.
structure Served (Entity : Type) (Request : Type) where
  events : List (Event Entity Request)
  result : Except Failure (List UInt8)

namespace Served

variable {Request : Type}

def calls (served : Served Entity Request) : List (Call Entity) :=
  served.events.filterMap Event.call?

def handled (served : Served Entity Request) : List (Request × Context) :=
  served.events.filterMap Event.handled?

end Served

-- The steps of an exchange: a failure ends it, and what was done before stays done.
abbrev Exchange (Entity : Type) (Request : Type) :=
  ExceptT Failure (StateM (List (Event Entity Request)))

namespace Exchange

variable {Request Response α : Type}

def note (events : List (Event Entity Request)) : Exchange Entity Request Unit :=
  modify (· ++ events)

def ask (checked : Checked Entity α) : Exchange Entity Request α := do
  note (checked.calls.map .asked)
  liftExcept checked.result

def handle (handler : Handler Request Response) (request : Request) (context : Context) :
    Exchange Entity Request Response := do
  note [.handled request context]
  liftExcept ((handler request context).mapError Failure.handler)

def serve (exchange : Exchange Entity Request (List UInt8)) : Served Entity Request :=
  let (result, events) := exchange.run []
  ⟨events, result⟩

end Exchange

namespace Endpoint

def ofConfig (config : Config) (registry : Registry Entity) : Except Failure (Endpoint Entity) :=
  match config.check with
  | .ok _ =>
    .ok ⟨config.options, registry, config.accept, config.respondWith, config.locale⟩
  | .error fault => .error (.setting fault)

variable (endpoint : Endpoint Entity) (schema : Schema Entity)

/-- A local context in the endpoint's own locale. -/
def context : Context := .ofLocale endpoint.locale

/-- An empty locale stands for the endpoint's own. -/
def effective (locale : String) : String := if locale = "" then endpoint.locale else locale

def scope (locale : String) : Scope Entity :=
  ⟨endpoint.options, endpoint.registry, endpoint.effective locale⟩

def validate (entity : Entity) (value : Value) (locale : String) : Checked Entity Report :=
  match (endpoint.scope locale).validate schema entity value with
  | .ok (report, calls) => ⟨calls, .ok report⟩
  | .error failure => ⟨[], .error failure⟩

/-- Building after a clean report; a failure at a field becomes a report of its own. -/
def build (entity : Entity) (value : Value) (locale : String) :
    Except Failure (schema.Carrier entity) :=
  match schema.decode endpoint.options entity value with
  | .ok built => .ok built
  | .error failure =>
    match failure.fieldError (endpoint.effective locale) with
    | some (path, descriptor) =>
      .error (.invalid (schema.name entity) (.single path descriptor))
    | none => .error failure

def decode (entity : Entity) (value : Value) (locale : String) :
    Checked Entity (schema.Carrier entity) :=
  match endpoint.validate schema entity value locale with
  | ⟨calls, .error failure⟩ => ⟨calls, .error failure⟩
  | ⟨calls, .ok report⟩ =>
    if report.isEmpty then ⟨calls, endpoint.build schema entity value locale⟩
    else ⟨calls, .error (.invalid (schema.name entity) report)⟩

def encode (entity : Entity) (carrier : schema.Carrier entity) : Except Failure Value :=
  schema.encode endpoint.options entity carrier

def unpack (entity : Entity) (bytes : List UInt8) (format : ContentType)
    (allowed : List ContentType) (locale : String) : Checked Entity (schema.Carrier entity) :=
  match Interchange.unpack bytes format allowed with
  | .ok value => endpoint.decode schema entity value locale
  | .error fault => ⟨[], .error (.pack fault)⟩

def pack (entity : Entity) (carrier : schema.Carrier entity) (format : ContentType) :
    Except Failure (List UInt8) :=
  match endpoint.encode schema entity carrier with
  | .ok value => (Interchange.pack value format).mapError .pack
  | .error failure => .error failure

def serve (request response : Entity)
    (handler : Handler (schema.Carrier request) (schema.Carrier response))
    (bytes : List UInt8) (format : ContentType) (allowed : List ContentType)
    (replyFormat : ContentType) (context : Context) :
    Served Entity (schema.Carrier request) :=
  Exchange.serve do
    let built ← Exchange.ask (endpoint.unpack schema request bytes format allowed context.locale)
    let answer ← Exchange.handle handler built context
    liftExcept (endpoint.pack schema response answer replyFormat)

/-- Serves with the endpoint's own accept list and reply format. -/
def respond (request response : Entity)
    (handler : Handler (schema.Carrier request) (schema.Carrier response))
    (bytes : List UInt8) (format : ContentType) (context : Context) :
    Served Entity (schema.Carrier request) :=
  endpoint.serve schema request response handler bytes format endpoint.accept
    endpoint.respondWith context

end Endpoint

end Interchange
