import Interchange.Proofs.ExchangeStages
/-!
One exchange with an endpoint, as it is seen from outside. It ends with the failure of the first
stage that fails; the handler is run once if none stands before it, and never otherwise.
-/
namespace Interchange

variable {Entity : Type}

/-! What each step adds to the events, whatever was noted before it. -/
namespace Exchange

variable {Request Response α β : Type} (log : List (Event Entity Request))

theorem run_bind (first : Exchange Entity Request α) (next : α → Exchange Entity Request β) :
    (first >>= next).run log =
      match first.run log with
      | (.ok found, after) => (next found).run after
      | (.error failure, after) => (.error failure, after) := by
  change ExceptT.bindCont next (first.run log).1 (first.run log).2 = _
  rcases first.run log with ⟨found | failure, after⟩ <;> rfl

theorem run_lift (result : Except Failure α) :
    (liftExcept result : Exchange Entity Request α).run log = (result, log) := by
  cases result <;> rfl

theorem run_ask (checked : Checked Entity α) :
    (ask checked : Exchange Entity Request α).run log =
      (checked.result, log ++ checked.calls.map .asked) :=
  run_lift _ checked.result

theorem run_handle (handler : Handler Request Response) (request : Request) (context : Context) :
    (handle handler request context : Exchange Entity Request Response).run log =
      ((handler request context).mapError .handler, log ++ [.handled request context]) :=
  run_lift _ _

end Exchange

namespace Served

variable {Request : Type} (calls : List (Call Entity)) (runs : List (Request × Context))
  (result : Except Failure (List UInt8))

/-- An exchange in which all calls come before all runs of the handler. -/
def ofParts : Served Entity Request :=
  ⟨calls.map .asked ++ runs.map fun run => .handled run.1 run.2, result⟩

theorem parts_calls : (ofParts calls runs result).calls = calls := by
  simp [Served.calls, ofParts, Function.comp_def, Event.call?]

theorem parts_handled : (ofParts calls runs result).handled = runs := by
  simp [Served.handled, ofParts, Function.comp_def, Event.handled?]

end Served

namespace Inquiry

variable [DecidableEq Entity] {schema : Schema Entity} (inquiry : Inquiry schema)
  (endpoint : Endpoint Entity)

/-- What the handler and the stages behind it make of a request. -/
def reply (built : schema.Carrier inquiry.request) : Except Failure (List UInt8) := do
  let answer ← (inquiry.handler built inquiry.context).mapError .handler
  endpoint.pack schema inquiry.response answer inquiry.replyFormat

/-- How the handler and the stages behind it end. -/
inductive Replied (built : schema.Carrier inquiry.request) :
    Except Failure (List UInt8) → Prop where
  | refused {reason : String} (refused : inquiry.handler built inquiry.context = .error reason) :
      Replied built (.error (.handler reason))
  | unencoded {answer : schema.Carrier inquiry.response} {failure : Failure}
      (answers : inquiry.Answers endpoint answer)
      (failed : endpoint.encode schema inquiry.response answer = .error failure) :
      Replied built (.error failure)
  | packed {value : Value} (replies : inquiry.Replies endpoint value) :
      Replied built ((pack value inquiry.replyFormat).mapError .pack)

section Steps
variable {inquiry endpoint}

omit [DecidableEq Entity] in
theorem unpack_ok_iff (value : Value) :
    unpack inquiry.bytes inquiry.format inquiry.allowed = .ok value ↔
      inquiry.format ∈ inquiry.allowed ∧ inquiry.Arrives value := by
  by_cases listed : inquiry.format ∈ inquiry.allowed
  · rw [unpack, Codecs.unpack_listed _ listed]
    simp only [Arrives, listed, true_and]
    cases known : Codec.ofFormat? inquiry.format with
    | none => simp
    | some codec => cases read : codec.decode inquiry.bytes <;> simp [read, eq_comm]
  · rw [unpack, Codecs.unpack_unlisted _ listed]
    simp [listed]

theorem decode_ok_iff {value : Value} (arrives : inquiry.Arrives value)
    (built : schema.Carrier inquiry.request) :
    (endpoint.decode schema inquiry.request value inquiry.context.locale).result = .ok built ↔
      inquiry.Builds endpoint built := by
  rw [endpoint.decode_ok_iff]
  constructor
  · rintro ⟨report, found, clean, ended⟩
    exact ⟨value, report, arrives, found, clean, ended⟩
  · rintro ⟨again, report, arrivesAgain, found, clean, ended⟩
    obtain rfl := arrives_unique arrives arrivesAgain
    exact ⟨report, found, clean, ended⟩

theorem reply_replied {built : schema.Carrier inquiry.request}
    (builds : inquiry.Builds endpoint built) :
    inquiry.Replied endpoint built (inquiry.reply endpoint built) := by
  rw [reply]
  cases answered : inquiry.handler built inquiry.context with
  | error reason => exact .refused answered
  | ok answer =>
      have answers : inquiry.Answers endpoint answer := ⟨built, builds, answered⟩
      change inquiry.Replied endpoint built
        (endpoint.pack schema inquiry.response answer inquiry.replyFormat)
      rw [Endpoint.pack]
      cases encoded : endpoint.encode schema inquiry.response answer with
      | error failure => exact .unencoded answers encoded
      | ok value => exact .packed ⟨answer, answers, encoded⟩

end Steps

/-- How an exchange ends: without a value, without a request, or with what becomes of one. -/
inductive Ends : Served Entity (schema.Carrier inquiry.request) → Prop where
  | unread {fault : PackFault}
      (failed : unpack inquiry.bytes inquiry.format inquiry.allowed = .error fault) :
      Ends (.ofParts [] [] (.error (.pack fault)))
  | undecoded {value : Value} {failure : Failure} (listed : inquiry.format ∈ inquiry.allowed)
      (arrives : inquiry.Arrives value)
      (failed : (endpoint.decode schema inquiry.request value inquiry.context.locale).result =
        .error failure) :
      Ends (.ofParts (inquiry.validate endpoint value).calls [] (.error failure))
  | handled {value : Value} {built : schema.Carrier inquiry.request}
      (listed : inquiry.format ∈ inquiry.allowed) (arrives : inquiry.Arrives value)
      (builds : inquiry.Builds endpoint built) :
      Ends (.ofParts (inquiry.validate endpoint value).calls [(built, inquiry.context)]
        (inquiry.reply endpoint built))

theorem serve_ends : inquiry.Ends endpoint (inquiry.serve endpoint) := by
  rw [serve, Endpoint.serve, Exchange.serve, Exchange.run_bind, Exchange.run_ask, Endpoint.unpack]
  cases unpacked : unpack inquiry.bytes inquiry.format inquiry.allowed with
  | error fault => exact .unread unpacked
  | ok value =>
      obtain ⟨listed, arrives⟩ := (unpack_ok_iff value).mp unpacked
      have calls := endpoint.decode_calls schema inquiry.request value inquiry.context.locale
      dsimp only
      rw [calls]
      cases decoded :
          (endpoint.decode schema inquiry.request value inquiry.context.locale).result with
      | error failure =>
          have ends := Ends.undecoded listed arrives decoded
          rw [Served.ofParts, List.map_nil, List.append_nil] at ends
          exact ends
      | ok built =>
          have builds := (decode_ok_iff arrives built).mp decoded
          have ends := Ends.handled listed arrives builds
          simp only [Exchange.run_bind, Exchange.run_handle, List.nil_append]
          rw [reply] at ends
          cases answered : inquiry.handler built inquiry.context with
          | error reason =>
              rw [answered] at ends
              exact ends
          | ok answer =>
              rw [answered] at ends
              simp only [Except.mapError, Exchange.run_lift]
              exact ends

section Results
variable {inquiry endpoint}

theorem serve_handles {built : schema.Carrier inquiry.request}
    (admits : inquiry.Admits endpoint built) :
    (inquiry.serve endpoint).handled = [(built, inquiry.context)] := by
  obtain ⟨listed, builds⟩ := admits
  have ends := inquiry.serve_ends endpoint
  generalize inquiry.serve endpoint = served at ends
  cases ends with
  | unread failed =>
      obtain ⟨value, -, arrives, -⟩ := builds
      rw [(unpack_ok_iff value).mpr ⟨listed, arrives⟩] at failed
      contradiction
  | undecoded _ arrives failed =>
      rw [(decode_ok_iff arrives built).mpr builds] at failed
      contradiction
  | handled _ arrives again =>
      rw [builds_unique builds again]
      exact Served.parts_handled _ _ _

theorem serve_calls {value : Value} (listed : inquiry.format ∈ inquiry.allowed)
    (arrives : inquiry.Arrives value) :
    (inquiry.serve endpoint).calls = (inquiry.validate endpoint value).calls := by
  have ends := inquiry.serve_ends endpoint
  generalize inquiry.serve endpoint = served at ends
  cases ends with
  | unread failed =>
      rw [(unpack_ok_iff value).mpr ⟨listed, arrives⟩] at failed
      contradiction
  | undecoded _ again =>
      rw [arrives_unique arrives again]
      exact Served.parts_calls _ _ _
  | handled _ again =>
      rw [arrives_unique arrives again]
      exact Served.parts_calls _ _ _

end Results

end Inquiry

namespace Ledger

-- An account in good order, sent to a desk that has closed.
def closing : Inquiry schema where
  request := .account
  response := .movement
  handler := fun _ _ => .error "closed"
  bytes := [0x83, 0xA1, 0x68, 0xA1, 0x41, 0xA6, 0x6C, 0x69, 0x6D, 0x69, 0x74, 0x73, 0x90,
    0xA9, 0x6D, 0x6F, 0x76, 0x65, 0x6D, 0x65, 0x6E, 0x74, 0x73, 0x90]
  format := .binaryMap
  allowed := [.json, .binaryMap]
  replyFormat := .xml
  context := .ofLocale "de"

end Ledger

end Interchange
