import Pikamux.Board.Ledger
import Pikamux.Json.Sizes
import Pikamux.Support.Result
import Pikamux.Support.Uuid
import Pikamux.Terminal.Frame

/-!
# Client — Messages

What a board and the bridge of a client say to each other: the request to open a window, the receipt
of a window that was launched, and the texts both sides check.  A request is checked before it is
sent and when it comes; `LaunchRequest.Valid.validated` says that checking a checked request gives
the request itself.
-/

namespace Pikamux.Client

open Support Json

def bridgeProtocol : String := "pikamux-client-launch"

def bridgeVersion : Nat := 2

inductive ClientBridgeErrorKind where
  | invalid
  | incompatible
  | rejected
  | unavailable
  | outcomeUnknown
  | io
  deriving DecidableEq, Repr

structure ClientBridgeError where
  kind : ClientBridgeErrorKind
  message : String
  deriving DecidableEq, Repr

def sanitizedMessage (value : String) (max : Nat) : String :=
  let result := (value.toList.map fun c => if Terminal.isControl c then ' ' else c).take max
  if result = [] then "Client bridge error" else String.ofList result

/-- `ClientBridgeError::new` -/
def newError (kind : ClientBridgeErrorKind) (message : String) : ClientBridgeError :=
  ⟨kind, sanitizedMessage message 500⟩

def invalid (message : String) : ClientBridgeError := newError .invalid message

def incompatible (message : String) : ClientBridgeError := newError .incompatible message

def rejected (message : String) : ClientBridgeError := newError .rejected message

/-! ### Texts -/

def canonicalUuidStr (value label : String) : Except ClientBridgeError String :=
  context (invalid label) (Uuid.canonical value)

def conversationIdentity (provider : Provider) (value : String) : Except ClientBridgeError String :=
  if provider = .opencode then do
    ensure (value.toList.take 4 == "ses_".toList && decide (8 ≤ value.utf8ByteSize) &&
      decide (value.utf8ByteSize ≤ 128) && (value.toList.drop 4).all Char.isAlphanum)
      (invalid "Invalid conversation identity")
    return value
  else canonicalUuidStr value "Invalid conversation identity"

def bridgeTokenStr (value : String) : Except ClientBridgeError String := do
  ensure (value.utf8ByteSize == 64) (invalid "Invalid bridge token")
  let digits ← context (invalid "Invalid bridge token") (Uuid.digits value.toList)
  return String.ofList digits

def clientAlias (value : String) : Except ClientBridgeError String := do
  ensure (decide (1 ≤ value.utf8ByteSize) && decide (value.utf8ByteSize ≤ 63) &&
      value.toList.head?.any Char.isAlphanum &&
      value.toList.tail.all fun c => c.isAlphanum || ['.', '_', '-'].contains c)
    (invalid "Pika client node alias is malformed")
  return value

def sshTargetValue (value : String) : Except ClientBridgeError String := do
  ensure (value != "" && decide (value.utf8ByteSize ≤ 255) && value.toList.head? != some '-' &&
      value.toList.all fun c => ! ['\r', '\n', '\x00'].contains c)
    (invalid "Invalid SSH target")
  return value

def validatePort (port : Nat) (message : String) : Except ClientBridgeError Nat := do
  ensure (decide (1024 ≤ port)) (invalid message)
  return port

def validateLoopbackHost (host message : String) : Except ClientBridgeError Unit :=
  ensure (["127.0.0.1", "::1", "localhost"].contains host) (invalid message)

/-- The text of a field, an empty one where there is none. -/
def textOr (value : Option Value) : String := (value.bind Value.asStr).getD ""

def canonicalUuid (value : Option Value) (label : String) : Except ClientBridgeError String :=
  canonicalUuidStr (textOr value) label

def bridgeToken (value : Option Value) : Except ClientBridgeError String :=
  bridgeTokenStr (textOr value)

def optionalPort (value : Option Value) (default : Nat) (label : String) :
    Except ClientBridgeError Nat :=
  match value with
  | none | some .null => .ok default
  | some value =>
      context (invalid (label ++ " is invalid"))
        (value.asU64.filter fun port => decide (port < 65536) && decide (1024 ≤ port))

def requiredPrintableText (value : Option Value) (max : Nat) (message : String) :
    Except ClientBridgeError String :=
  context (invalid message) <| (value.bind Value.asStr).filter fun text =>
    text != "" && decide (text.length ≤ max) && ! text.toList.any Terminal.isControl

def optionalText (value : Option Value) (default : String) (max : Nat) (label : String) :
    Except ClientBridgeError String :=
  match value with
  | none | some .null => .ok default
  | value => requiredPrintableText value max ("Invalid " ++ label)

def exactObject (value : Value) (names : List String) (message : String) :
    Except ClientBridgeError (List (String × Value)) := do
  let object ← context (invalid message) value.asObject
  ensure (object.length == names.length && object.all fun f => names.contains f.1) (invalid message)
  return object

/-- `prefix`, of a text without wide characters. -/
def shortened (value : String) (count : Nat) : String := String.ofList (value.toList.take count)

/-! ### Records -/

/-- The fields of a record as `serde` reads them, from an object that has no others or from a list
in their order. -/
def record (names : List String) : Value → Option (List Value)
  | .object fields =>
      if fields.all fun f => names.contains f.1 then names.mapM (List.lookup · fields) else none
  | .array items => if items.length = names.length then some items else none
  | _ => none

def asU32 (value : Value) : Option Nat := value.asU64.filter (· < 2 ^ 32)

def providers : List Provider := [.codex, .claude, .opencode, .muse]

/-- A provider by its name, alone or as the key of `null`. -/
def asProvider : Value → Option Provider
  | .string name | .object [(name, .null)] => providers.find? (·.text = name)
  | _ => none

structure LaunchRequest where
  messageType : String
  protocol : String
  version : Nat
  requestId : String
  clientId : String
  token : String
  sourceNodeId : String
  targetNodeId : String
  provider : Provider
  sessionId : String
  deriving DecidableEq, Repr

namespace LaunchRequest

def names : List String :=
  ["type", "protocol", "version", "request_id", "client_id", "token", "source_node_id",
    "target_node_id", "provider", "session_id"]

def ofValue? (value : Value) : Option LaunchRequest := do
  match ← record names value with
  | [messageType, protocol, version, requestId, clientId, token, source, target, provider,
      sessionId] =>
      return ⟨← messageType.asStr, ← protocol.asStr, ← asU32 version, ← requestId.asStr,
        ← clientId.asStr, ← token.asStr, ← source.asStr, ← target.asStr, ← asProvider provider,
        ← sessionId.asStr⟩
  | _ => none

def toValue (request : LaunchRequest) : Value :=
  .object [("client_id", .string request.clientId), ("protocol", .string request.protocol),
    ("provider", .string request.provider.text), ("request_id", .string request.requestId),
    ("session_id", .string request.sessionId), ("source_node_id", .string request.sourceNodeId),
    ("target_node_id", .string request.targetNodeId), ("token", .string request.token),
    ("type", .string request.messageType), ("version", .number (.posInt request.version))]

end LaunchRequest

structure ClientLaunchReceipt where
  messageType : String
  protocol : String
  version : Nat
  requestId : String
  targetNodeId : String
  provider : Provider
  sessionId : String
  detail : String
  deriving DecidableEq, Repr

namespace ClientLaunchReceipt

def names : List String :=
  ["type", "protocol", "version", "request_id", "target_node_id", "provider", "session_id",
    "detail"]

def ofValue? (value : Value) : Option ClientLaunchReceipt := do
  match ← record names value with
  | [messageType, protocol, version, requestId, target, provider, sessionId, detail] =>
      return ⟨← messageType.asStr, ← protocol.asStr, ← asU32 version, ← requestId.asStr,
        ← target.asStr, ← asProvider provider, ← sessionId.asStr, ← detail.asStr⟩
  | _ => none

def toValue (receipt : ClientLaunchReceipt) : Value :=
  .object [("detail", .string receipt.detail), ("protocol", .string receipt.protocol),
    ("provider", .string receipt.provider.text), ("request_id", .string receipt.requestId),
    ("session_id", .string receipt.sessionId), ("target_node_id", .string receipt.targetNodeId),
    ("type", .string receipt.messageType), ("version", .number (.posInt receipt.version))]

end ClientLaunchReceipt

def validateLaunchRequest (value : Value) : Except ClientBridgeError LaunchRequest := do
  let request ← context (invalid "Malformed client launch request") (LaunchRequest.ofValue? value)
  ensure (request.messageType == "open" && request.protocol == bridgeProtocol &&
    request.version == bridgeVersion) (incompatible "Incompatible client launch request")
  let requestId ← canonicalUuidStr request.requestId "Invalid request identity"
  let clientId ← canonicalUuidStr request.clientId "Invalid client identity"
  let token ← bridgeTokenStr request.token
  let sourceNodeId ← canonicalUuidStr request.sourceNodeId "Invalid source node identity"
  let targetNodeId ← canonicalUuidStr request.targetNodeId "Invalid target node identity"
  let sessionId ← conversationIdentity request.provider request.sessionId
  return { request with requestId, clientId, token, sourceNodeId, targetNodeId, sessionId }

def makeLaunchRequest (clientId token sourceNodeId targetNodeId : String) (provider : Provider)
    (sessionId requestId : String) : Except ClientBridgeError LaunchRequest :=
  validateLaunchRequest (LaunchRequest.toValue
    { messageType := "open"
      protocol := bridgeProtocol
      version := bridgeVersion
      requestId, clientId, token, sourceNodeId, targetNodeId, provider, sessionId })

/-! ### A request that was checked -/

section Checked

variable {value label other text : String}

theorem canonicalUuidStr_ok (h : canonicalUuidStr value label = .ok text) :
    canonicalUuidStr text other = .ok text := by
  rw [canonicalUuidStr, context_eq_ok] at h ⊢
  exact Uuid.canonical_canonical h

theorem conversationIdentity_ok {provider : Provider}
    (h : conversationIdentity provider value = .ok text) :
    conversationIdentity provider text = .ok text := by
  by_cases hprovider : provider = .opencode
  · rw [conversationIdentity, if_pos hprovider] at h ⊢
    obtain ⟨_, hvalid, hvalue⟩ := bind_eq_ok.mp h
    rw [pure_eq_ok] at hvalue
    subst hvalue
    exact h
  · rw [conversationIdentity, if_neg hprovider] at h ⊢
    exact canonicalUuidStr_ok h

/-- Hexadecimal digits have one byte each, before and after they are put in lower case. -/
theorem digits_bytes {chars digits : List Char} (h : Uuid.digits chars = some digits) :
    charsBytes digits = charsBytes chars := by
  have hdigits : Uuid.hexDigits.all (fun c => c.utf8Size == 1) = true := by decide
  have hcanonical : Uuid.canonicalChars.all (fun c => c.utf8Size == 1) = true := by decide
  obtain ⟨hlength, -, hchars⟩ := Uuid.digits_spec h
  have hall : ∀ c ∈ chars, c ∈ Uuid.hexDigits := by
    by_contra hother
    rw [Uuid.digits, if_neg (by simpa using hother)] at h
    cases h
  have hafter : ∀ c ∈ digits, c.utf8Size = 1 := fun c hc =>
    beq_iff_eq.mp (List.all_eq_true.mp hcanonical c (hchars c hc))
  have hbefore : ∀ c ∈ chars, c.utf8Size = 1 := fun c hc =>
    beq_iff_eq.mp (List.all_eq_true.mp hdigits c (hall c hc))
  rw [charsBytes_eq_length hafter, charsBytes_eq_length hbefore, hlength]

theorem bridgeTokenStr_ok (h : bridgeTokenStr value = .ok text) :
    bridgeTokenStr text = .ok text := by
  obtain ⟨_, hsize, h⟩ := bind_eq_ok.mp h
  obtain ⟨digits, hdigits, h⟩ := bind_eq_ok.mp h
  rw [pure_eq_ok] at h
  subst h
  rw [ensure_eq_ok, beq_iff_eq] at hsize
  rw [context_eq_ok] at hdigits
  have hbytes : (String.ofList digits).utf8ByteSize = 64 := by
    rw [utf8ByteSize_ofList, digits_bytes hdigits, charsBytes_toList, hsize]
  rw [bridgeTokenStr, hbytes, String.toList_ofList, (Uuid.digits_spec hdigits).2.1]
  rfl

/-- What a request has that was checked. -/
structure LaunchRequest.Valid (request : LaunchRequest) : Prop where
  messageType : request.messageType = "open"
  protocol : request.protocol = bridgeProtocol
  version : request.version = bridgeVersion
  requestId : ∀ label, canonicalUuidStr request.requestId label = .ok request.requestId
  clientId : ∀ label, canonicalUuidStr request.clientId label = .ok request.clientId
  token : bridgeTokenStr request.token = .ok request.token
  sourceNodeId : ∀ label, canonicalUuidStr request.sourceNodeId label = .ok request.sourceNodeId
  targetNodeId : ∀ label, canonicalUuidStr request.targetNodeId label = .ok request.targetNodeId
  sessionId : conversationIdentity request.provider request.sessionId = .ok request.sessionId

theorem validateLaunchRequest_valid {value : Value} {request : LaunchRequest}
    (h : validateLaunchRequest value = .ok request) : request.Valid := by
  obtain ⟨read, -, h⟩ := bind_eq_ok.mp h
  obtain ⟨_, hkind, h⟩ := bind_eq_ok.mp h
  obtain ⟨requestId, hrequest, h⟩ := bind_eq_ok.mp h
  obtain ⟨clientId, hclient, h⟩ := bind_eq_ok.mp h
  obtain ⟨token, htoken, h⟩ := bind_eq_ok.mp h
  obtain ⟨source, hsource, h⟩ := bind_eq_ok.mp h
  obtain ⟨target, htarget, h⟩ := bind_eq_ok.mp h
  obtain ⟨session, hsession, h⟩ := bind_eq_ok.mp h
  rw [pure_eq_ok] at h
  subst h
  simp only [ensure_eq_ok, Bool.and_eq_true, beq_iff_eq] at hkind
  exact ⟨hkind.1.1, hkind.1.2, hkind.2, fun _ => canonicalUuidStr_ok hrequest,
    fun _ => canonicalUuidStr_ok hclient, bridgeTokenStr_ok htoken,
    fun _ => canonicalUuidStr_ok hsource, fun _ => canonicalUuidStr_ok htarget,
    conversationIdentity_ok hsession⟩

theorem LaunchRequest.ofValue?_toValue {request : LaunchRequest}
    (h : request.version = bridgeVersion) : ofValue? request.toValue = some request := by
  obtain ⟨_, _, version, _, _, _, _, _, provider, _⟩ := request
  subst h
  cases provider <;> rfl

/-- Checking a request that was checked gives the request. -/
theorem LaunchRequest.Valid.validated {request : LaunchRequest} (h : request.Valid) :
    validateLaunchRequest request.toValue = .ok request := by
  rw [validateLaunchRequest, ofValue?_toValue h.version]
  simp only [context_some, ok_bind, h.messageType, h.protocol, h.version, beq_self_eq_true,
    Bool.and_self, ensure_true, h.requestId, h.clientId, h.token, h.sourceNodeId, h.targetNodeId,
    h.sessionId]
  obtain ⟨_, _, _, _, _, _, _, _, _, _⟩ := request
  obtain ⟨rfl, rfl, rfl, -⟩ := h
  rfl

end Checked

end Pikamux.Client
