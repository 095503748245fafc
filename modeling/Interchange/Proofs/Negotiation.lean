import Interchange.ConfigFile
import Interchange.Proofs.ReceivedValues
import Interchange.Proofs.ServedExchanges
import Interchange.Proofs.WrittenRecords
/-!
What the check of the settings is good for. An endpoint keeps just what was checked, so that no
exchange ever meets a reserved format: a request is turned away for its format only if that is not
accepted, and an answer that can be packed at all is packed.
-/
namespace Interchange

namespace Config

variable {config : Config}

/-- All that checked settings have been checked for. -/
structure Usable (config : Config) : Prop where
  accepting : config.accept ≠ []
  accepts : ∀ format ∈ config.accept, format.isReserved = false
  responds : config.respondWith.isReserved = false
  located : Text.trim config.locale.toList ≠ []

theorem check_ok_iff : config.check = .ok () ↔ config.Usable := by
  constructor
  · intro checked
    rw [check] at checked
    split at checked
    case isTrue => contradiction
    case isFalse accepting =>
      split at checked
      case h_1 => contradiction
      case h_2 unreserved =>
        split at checked
        case isTrue => contradiction
        case isFalse responds =>
          split at checked
          case isTrue => contradiction
          case isFalse located =>
            refine ⟨by simpa using accepting, ?_, by simpa using responds, by simpa using located⟩
            simpa using unreserved
  · rintro ⟨accepting, accepts, responds, located⟩
    have unreserved : config.accept.find? ContentType.isReserved = none := by simpa using accepts
    simp [check, accepting, unreserved, responds, located]

/-- Settings are not handed out of a text before they are checked. -/
theorem of_toml_usable {source : String} (read : ofToml source = .ok config) : config.Usable := by
  rw [ofToml] at read
  split at read
  · contradiction
  · split at read
    · contradiction
    · rename_i settings _
      cases checked : settings.check with
      | error fault => simp [checked] at read
      | ok done =>
          simp only [checked, Except.ok.injEq] at read
          exact check_ok_iff.mp (read ▸ checked)

end Config

variable {Entity : Type}

theorem unpack_open {bytes : List UInt8} {format : ContentType} {allowed : List ContentType}
    {fault : PackFault} (accepts : ∀ listed ∈ allowed, listed.isReserved = false)
    (failed : unpack bytes format allowed = .error fault) :
    (format ∉ allowed ∧ fault = .notAllowed format allowed) ∨
      (format ∈ allowed ∧ ∃ source, fault = .undecodable bytes.length format source) := by
  by_cases listed : format ∈ allowed
  case neg =>
    rw [unpack, Codecs.unpack_unlisted _ listed] at failed
    exact .inl ⟨listed, (Except.error.inj failed).symm⟩
  case pos =>
    obtain ⟨codec, known⟩ := ContentType.codec_of_open (accepts format listed)
    rw [unpack, Codecs.unpack_listed _ listed, known] at failed
    refine .inr ⟨listed, ?_⟩
    cases read : codec.decode bytes with
    | ok value => simp [read] at failed
    | error source =>
        simp only [read, Except.error.injEq] at failed
        exact ⟨source, failed.symm⟩

theorem pack_open_fails {value : Value} {format : ContentType} {fault : PackFault}
    (isOpen : format.isReserved = false) (failed : pack value format = .error fault) :
    ∃ source, fault = .codec source := by
  obtain ⟨codec, known⟩ := ContentType.codec_of_open isOpen
  rw [pack, Codecs.pack_result, known] at failed
  cases encoded : (Codecs.fresh.encode codec value).1 with
  | ok bytes => simp [encoded, Except.mapError] at failed
  | error source =>
      simp only [encoded, Except.mapError, Except.error.injEq] at failed
      exact ⟨source, failed.symm⟩

namespace Schema

variable (schema : Schema Entity)

/-- The entity's own reading fails so on some value. -/
def Raises (options : Options) (entity : Entity) (failure : Failure) : Prop :=
  ∃ value, schema.decode options entity value = .error failure

variable {schema} {options : Options}

/-- Reads of fields have nothing to do with packing. -/
theorem relays_no_pack {entity : Entity} (relays : schema.RelaysReads entity) (fault : PackFault) :
    ¬ schema.Raises options entity (.pack fault) := by
  rintro ⟨value, failed⟩
  cases object : value.asObject? with
  | none =>
      rw [decode_other schema options entity value object] at failed
      cases failed
  | some entries =>
      obtain ⟨found, rfl⟩ := Value.object_of_asObject value (by simp [object])
      cases decode_at_field relays failed

theorem encode_no_pack {entity : Entity} {carrier : schema.Carrier entity}
    {fault : PackFault} : schema.encode options entity carrier ≠ .error (.pack fault) := by
  intro failed
  cases (schema.record entity carrier).encode_fails _ failed

end Schema

variable [DecidableEq Entity]

namespace Endpoint

variable {endpoint : Endpoint Entity} {schema : Schema Entity}

omit [DecidableEq Entity] in
theorem of_config_ok_iff {config : Config} {registry : Registry Entity} :
    ofConfig config registry = .ok endpoint ↔ config.Usable ∧ endpoint =
      ⟨config.options, registry, config.accept, config.respondWith, config.locale⟩ := by
  rw [← Config.check_ok_iff, ofConfig]
  cases config.check with
  | error fault => simp
  | ok done => simp [eq_comm]

theorem decode_no_pack {entity : Entity} {value : Value} {locale : String} {fault : PackFault}
    (failed : (endpoint.decode schema entity value locale).result = .error (.pack fault)) :
    schema.Raises endpoint.options entity (.pack fault) := by
  by_cases object : value.kind = .object
  case neg =>
    rw [decode, endpoint.validate_other schema entity object locale] at failed
    cases failed
  case pos =>
    obtain ⟨entries, rfl⟩ := Value.object_of_kind object
    have validated : endpoint.validate schema entity (.object entries) locale = ⟨_, .ok _⟩ := rfl
    rw [decode, validated] at failed
    dsimp only at failed
    split at failed
    case isFalse => cases failed
    case isTrue =>
      rw [build] at failed
      cases ended : schema.decode endpoint.options entity (.object entries) with
      | ok built => simp [ended] at failed
      | error failure =>
          simp only [ended] at failed
          split at failed
          · cases failed
          · exact ⟨_, ended.trans (congrArg Except.error (Except.error.inj failed))⟩

/-- An exchange that comes to the validation of a value, and goes on as its decoding ends. -/
structure Considers (endpoint : Endpoint Entity) (schema : Schema Entity) (request : Entity)
    (value : Value) (context : Context) (served : Served Entity (schema.Carrier request)) :
    Prop where
  calls : served.calls = (endpoint.validate schema request value context.locale).calls
  refused : ∀ failure, (endpoint.decode schema request value context.locale).result =
    .error failure → served.result = .error failure
  handed : ∀ built, (endpoint.decode schema request value context.locale).result = .ok built →
    served.handled = [(built, context)]

end Endpoint

namespace Inquiry

variable {schema : Schema Entity} (inquiry : Inquiry schema) {endpoint : Endpoint Entity}

/-- Failures of packing are those of the request's bytes, of its own reading and of the reply. -/
theorem serve_pack_fails {fault : PackFault}
    (failed : (inquiry.serve endpoint).result = .error (.pack fault)) :
    unpack inquiry.bytes inquiry.format inquiry.allowed = .error fault ∨
      schema.Raises endpoint.options inquiry.request (.pack fault) ∨
      inquiry.format ∈ inquiry.allowed ∧ ∃ value, pack value inquiry.replyFormat = .error fault := by
  have ends := inquiry.serve_ends endpoint
  generalize inquiry.serve endpoint = served at ends failed
  cases ends with
  | unread unread =>
      obtain rfl := Failure.pack.inj (Except.error.inj failed)
      exact .inl unread
  | undecoded _ _ undecoded =>
      obtain rfl := Except.error.inj failed
      exact .inr (.inl (Endpoint.decode_no_pack undecoded))
  | handled listed _ builds =>
      refine .inr (.inr ⟨listed, ?_⟩)
      have replied := reply_replied builds
      change inquiry.reply endpoint _ = _ at failed
      generalize inquiry.reply endpoint _ = result at replied failed
      cases replied with
      | refused => cases failed
      | unencoded _ unencoded =>
          obtain rfl := Except.error.inj failed
          exact absurd unencoded Schema.encode_no_pack
      | @packed value replies =>
          refine ⟨value, ?_⟩
          cases packed : pack value inquiry.replyFormat with
          | ok reply => simp [packed, Except.mapError] at failed
          | error source =>
              rw [packed] at failed
              rw [Failure.pack.inj (Except.error.inj failed)]

/-- Where no format is reserved, bytes and replies only fail for what is in them. -/
theorem serve_open_fails (accepts : ∀ listed ∈ inquiry.allowed, listed.isReserved = false)
    (responds : inquiry.replyFormat.isReserved = false) {fault : PackFault}
    (failed : (inquiry.serve endpoint).result = .error (.pack fault)) :
    schema.Raises endpoint.options inquiry.request (.pack fault) ∨
      (inquiry.format ∉ inquiry.allowed ∧ fault = .notAllowed inquiry.format inquiry.allowed) ∨
      inquiry.format ∈ inquiry.allowed ∧ ∃ source,
        fault = .undecodable inquiry.bytes.length inquiry.format source ∨ fault = .codec source := by
  rcases inquiry.serve_pack_fails failed with unread | raised | ⟨listed, value, unpacked⟩
  · rcases unpack_open accepts unread with unlisted | ⟨listed, source, broken⟩
    · exact .inr (.inl unlisted)
    · exact .inr (.inr ⟨listed, source, .inl broken⟩)
  · exact .inl raised
  · obtain ⟨source, unwritten⟩ := pack_open_fails responds unpacked
    exact .inr (.inr ⟨listed, source, .inr unwritten⟩)

theorem serve_unread {fault : PackFault}
    (failed : unpack inquiry.bytes inquiry.format inquiry.allowed = .error fault) :
    inquiry.serve endpoint = ⟨[], .error (.pack fault)⟩ := by
  have ends := inquiry.serve_ends endpoint
  generalize inquiry.serve endpoint = served at ends
  cases ends with
  | unread again =>
      rw [Except.error.inj (failed.symm.trans again)]
      rfl
  | undecoded listed arrives =>
      rw [(unpack_ok_iff _).mpr ⟨listed, arrives⟩] at failed
      contradiction
  | handled listed arrives =>
      rw [(unpack_ok_iff _).mpr ⟨listed, arrives⟩] at failed
      contradiction

theorem serve_considers {value : Value}
    (unpacked : unpack inquiry.bytes inquiry.format inquiry.allowed = .ok value) :
    endpoint.Considers schema inquiry.request value inquiry.context (inquiry.serve endpoint) := by
  obtain ⟨listed, arrives⟩ := (unpack_ok_iff value).mp unpacked
  refine ⟨serve_calls listed arrives, fun failure refused => ?_, fun built ended =>
    serve_handles ⟨listed, (decode_ok_iff arrives built).mp ended⟩⟩
  have ends := inquiry.serve_ends endpoint
  generalize inquiry.serve endpoint = served at ends
  cases ends with
  | unread failed =>
      rw [unpacked] at failed
      contradiction
  | undecoded _ again failed =>
      rw [← arrives_unique arrives again, refused] at failed
      exact congrArg Except.error (Except.error.inj failed).symm
  | handled _ _ builds =>
      rw [(decode_ok_iff arrives _).mpr builds] at refused
      contradiction

theorem serve_replies {built : schema.Carrier inquiry.request}
    {answer : schema.Carrier inquiry.response} {value : Value} {reply : List UInt8}
    (handled : (built, inquiry.context) ∈ (inquiry.serve endpoint).handled)
    (answered : inquiry.handler built inquiry.context = .ok answer)
    (encoded : endpoint.encode schema inquiry.response answer = .ok value)
    (packed : pack value inquiry.replyFormat = .ok reply) :
    (inquiry.serve endpoint).result = .ok reply := by
  have ends := inquiry.serve_ends endpoint
  generalize inquiry.serve endpoint = served at ends handled
  cases ends with
  | unread => cases handled
  | undecoded => simp [Served.parts_handled] at handled
  | @handled _ found listed _ builds =>
      rw [Served.parts_handled, List.mem_singleton] at handled
      obtain rfl := congrArg Prod.fst handled
      change inquiry.reply endpoint built = .ok reply
      rw [Inquiry.reply, answered]
      change endpoint.pack schema inquiry.response answer inquiry.replyFormat = .ok reply
      rw [Endpoint.pack, encoded]
      simp only [packed, Except.mapError]

end Inquiry

namespace Config

/--
Settings that an endpoint takes keep every exchange clear of reserved formats. It is turned away
for its format just if that is not accepted; what was packed in an accepted one comes to
validation, unless it nests too deep to be read; and an answer with finite floats and lengths that
fit is packed. What the reading of the request itself may fail with is not the endpoint's.
-/
theorem negotiates (config : Config) (registry : Registry Entity) :
    (∀ source, ofToml source = .ok config →
      ∃ endpoint, Endpoint.ofConfig config registry = .ok endpoint) ∧
    ∀ endpoint, Endpoint.ofConfig config registry = .ok endpoint →
    ∀ (schema : Schema Entity) (request response : Entity)
      (handler : Handler (schema.Carrier request) (schema.Carrier response))
      (bytes : List UInt8) (format : ContentType) (context : Context),
    let served := endpoint.respond schema request response handler bytes format context
    (∀ fault, served.result = .error (.pack fault) → fault.isContent = true →
      schema.Raises config.options request (.pack fault)) ∧
    (format ∉ config.accept →
      served = ⟨[], .error (.pack (.notAllowed format config.accept))⟩) ∧
    (∀ other allowed, served.result = .error (.pack (.notAllowed other allowed)) →
      format ∉ config.accept ∨
        schema.Raises config.options request (.pack (.notAllowed other allowed))) ∧
    (schema.RelaysReads request → ∀ fault,
      ¬ schema.Raises config.options request (.pack fault)) ∧
    (∀ value, format ∈ config.accept → pack value format = .ok bytes →
      value.Every Value.DistinctKeys → value.height ≤ format.maxDepth →
      endpoint.Considers schema request (format.received value) context served) ∧
    ∀ built answer value, (built, context) ∈ served.handled →
      handler built context = .ok answer →
      endpoint.encode schema response answer = .ok value →
      value.Every Json.Finite → value.Every MessagePack.Sized →
      ∃ reply, pack value config.respondWith = .ok reply ∧ served.result = .ok reply := by
  refine ⟨fun source read => ⟨_, Endpoint.of_config_ok_iff.mpr ⟨of_toml_usable read, rfl⟩⟩, ?_⟩
  intro endpoint started schema request response handler bytes format context
  obtain ⟨⟨-, accepts, responds, -⟩, rfl⟩ := Endpoint.of_config_ok_iff.mp started
  let inquiry : Inquiry schema :=
    ⟨request, response, handler, bytes, format, config.accept, config.respondWith, context⟩
  refine ⟨fun fault failed content => ?content, fun unlisted => ?unlisted,
    fun other allowed failed => ?notAllowed, fun relays => Schema.relays_no_pack relays,
    fun value listed packed distinct shallow => ?considers,
    fun built answer value handled answered encoded finite sized => ?replies⟩
  case content =>
    rcases inquiry.serve_open_fails accepts responds failed with
      raised | ⟨-, rfl⟩ | ⟨-, source, rfl | rfl⟩
    · exact raised
    all_goals contradiction
  case unlisted => exact inquiry.serve_unread (Codecs.fresh.unpack_unlisted unlisted)
  case notAllowed =>
    rcases inquiry.serve_open_fails accepts responds failed with
      raised | ⟨unlisted, -⟩ | ⟨-, source, wrong | wrong⟩
    · exact .inr raised
    · exact .inl unlisted
    all_goals contradiction
  case considers =>
    exact inquiry.serve_considers (unpack_packed listed packed distinct shallow)
  case replies =>
    obtain ⟨reply, packed⟩ := pack_open responds finite sized
    exact ⟨reply, packed,
      inquiry.serve_replies handled answered encoded packed⟩

end Config

namespace Ledger

def desk : Config := ⟨true, "en", [.json, .binaryMap], .json⟩

def order : Value := .object [("h", .str "A"), ("limits", .array []), ("movements", .array [])]

/-- An account that comes as JSON is handed over and comes back; XML is turned away. -/
theorem desk_negotiates :
    let text := "accept = [\"json\", \"msgpack\"]\nrespond_with = \"application/json\""
    let bytes := Utf8.encode "\x7b\"h\":\"A\",\"limits\":[],\"movements\":[]\x7d"
    Config.ofToml text = .ok desk ∧
    ∃ endpoint, Endpoint.ofConfig desk audited.registry = .ok endpoint ∧
      let served := fun format => endpoint.respond schema .account .account
        (fun account _ => .ok account) bytes format (.ofLocale "de")
      (.json ∈ desk.accept ∧ pack order .json = .ok bytes ∧ order.Every Value.DistinctKeys ∧
        order.height ≤ ContentType.json.maxDepth) ∧
      (∃ built, (served .json).handled = [(built, .ofLocale "de")] ∧
        endpoint.encode schema .account built = .ok order) ∧
      (order.Every Json.Finite ∧ order.Every MessagePack.Sized) ∧
      (served .json).result = .ok bytes ∧
      (.xml ∉ desk.accept ∧
        served .xml = ⟨[], .error (.pack (.notAllowed .xml [.json, .binaryMap]))⟩) := by
  intro text bytes
  have read : Config.ofToml text = .ok desk := by decide +kernel
  have packed : pack order .json = .ok bytes := by decide +kernel
  have distinct : order.Every Value.DistinctKeys := by decide +kernel
  have finite : order.Every Json.Finite := by decide +kernel
  have sized : order.Every MessagePack.Sized := by decide +kernel
  obtain ⟨starts, exchanges⟩ := Config.negotiates desk audited.registry
  obtain ⟨endpoint, started⟩ := starts text read
  obtain ⟨-, rfl⟩ := Endpoint.of_config_ok_iff.mp started
  have exchange := exchanges _ started schema .account .account (fun account _ => .ok account)
    bytes
  obtain ⟨-, -, -, -, considers, replies⟩ := exchange .json (.ofLocale "de")
  obtain ⟨-, refuses, -⟩ := exchange .xml (.ofLocale "de")
  have handed := (considers order (by decide) packed distinct (by decide)).handed _ rfl
  refine ⟨read, _, started, ⟨by decide, packed, distinct, by decide⟩, ⟨_, handed, rfl⟩,
    ⟨finite, sized⟩, ?_, by decide, refuses (by decide)⟩
  obtain ⟨reply, repacked, ended⟩ :=
    replies _ _ order (handed ▸ List.mem_singleton_self _) rfl rfl finite sized
  rw [ended, Except.ok.inj (repacked.symm.trans packed)]

end Ledger

/-- A list inside a list and so on, to a depth. -/
def Value.nest : Nat → Value
  | 0 => .null
  | depth + 1 => .array [nest depth]

-- Parcels that unpack what is inside them while they are read, from a format without a codec.
def parcels : Schema Unit where
  Carrier := fun _ => Unit
  name := fun _ => "Parcel"
  wireKeys := fun _ => []
  fields := fun _ => []
  reading := fun _ => .fail (.pack (.unreadable 0 .xml))
  record := fun _ _ => .mk "Parcel" [] []

namespace Ledger

-- An order with a remark that no field of an account asks for, of lists inside lists.
def remarked (depth : Nat) : Value :=
  .object [("h", .str "A"), ("limits", .array []), ("movements", .array []), ("remark", .nest depth)]

/-- What was packed in an accepted format and is clean may nest too deep to come to validation,
and a request that unpacks something itself may fail as if its own format were reserved. -/
theorem negotiation_limits :
    (∃ endpoint bytes, Endpoint.ofConfig desk audited.registry = .ok endpoint ∧
      .binaryMap ∈ desk.accept ∧ (remarked 256).Every Value.DistinctKeys ∧
      pack (remarked 256) .binaryMap = .ok bytes ∧
      endpoint.validate schema .account (remarked 256) "de" =
        ⟨[⟨some .account, "holder", .str "A"⟩, ⟨some .account, "movements", .array []⟩],
          .ok .empty⟩ ∧
      endpoint.respond schema .account .account (fun account _ => .ok account) bytes .binaryMap
          (.ofLocale "de") =
        ⟨[], .error (.pack
          (.undecodable bytes.length .binaryMap (.messagePack (.tooDeep 256))))⟩) ∧
    ∃ endpoint : Endpoint Unit, Endpoint.ofConfig desk .empty = .ok endpoint ∧
      (endpoint.respond parcels () () (fun _ _ => .ok ()) [0x80] .binaryMap
          (.ofLocale "de")).result = .error (.pack (.unreadable 0 .xml)) := by
  have distinct : (remarked 256).Every Value.DistinctKeys := by decide +kernel
  have sized : (remarked 256).Every MessagePack.Sized := by decide +kernel
  have packed : pack (remarked 256) .binaryMap = .ok (MessagePack.image (remarked 256)) :=
    pack_ok_iff.mpr ⟨.messagePack, rfl, by
      rw [Codec.encode_map, MessagePack.encode_sized _ sized]
      rfl⟩
  let inquiry : Inquiry schema :=
    ⟨.account, .account, fun account _ => .ok account, MessagePack.image (remarked 256),
      .binaryMap, desk.accept, desk.respondWith, .ofLocale "de"⟩
  have unread := unpack_deep (by decide : .binaryMap ∈ desk.accept) packed distinct
    (by decide +kernel : MessagePack.maxDepth < (remarked 256).height)
  exact ⟨⟨_, _, rfl, by decide, distinct, packed, rfl, inquiry.serve_unread unread⟩, _, rfl, rfl⟩

end Ledger

end Interchange
