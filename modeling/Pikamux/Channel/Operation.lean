import Pikamux.Json.Value
import Pikamux.Model
import Pikamux.Support.Result
import Pikamux.Support.Uuid

/-!
# Channel — Operation

`mobile_claude_channel.rs`: the ledger transactions that admit a message for a native session,
attest a tool call and execute it.  A literal text is released only to an attested tool call of the
launch it was admitted for.

A `meta` row holds JSON text in the source; here it holds what that text is read as, and a row of
another shape is refused as the parser refuses it.
-/

namespace Pikamux.Channel

open Std Support Json

/-- `TEXT`. -/
def textBytes : Nat := 65536

/-- `TTL`, in seconds. -/
def ttl : Nat := 5 * 60

structure Route where
  initialized : Bool := false
  started : Bool := false
  revoked : Bool := false
  deriving DecidableEq, Repr, Inhabited

structure Attestation where
  toolId : String
  toolName : String
  arguments : Value
  issued : Nat
  deriving Repr, Inhabited

structure Operation where
  text : String
  released : Bool
  reply : Option String
  attestation : Option Attestation
  fetchToolId : Option String
  replyToolId : Option String
  deriving Repr, Inhabited

/-- What a native launch is bound to. -/
structure Binding where
  token : String
  thread : String
  nativePid : Int
  nativeStart : Nat
  serverName : String
  deriving Repr, Inhabited

/-- A certified owner of a conversation. -/
structure RecoveryOwner where
  pid : Int
  startTime : Int
  launchToken : String
  deriving Repr, Inhabited

/-- A `meta` row. -/
inductive Row where
  | text (s : String)
  | route (r : Route)
  | operation (o : Operation)
  deriving Repr, Inhabited

/-- What the transactions read and write: for Claude conversations their status, whether they are
watched and their owner, the launch bindings, and the `meta` rows. -/
structure Ledger where
  sessions : ExtTreeMap String Status compare
  watched : ExtTreeSet String compare
  launches : ExtTreeMap String (Provider × String) compare
  owners : ExtTreeMap String RecoveryOwner compare
  metadata : ExtTreeMap String Row compare

def Ledger.setMeta (ledger : Ledger) (key : String) (row : Row) : Ledger :=
  { ledger with metadata := ledger.metadata.insert key row }

/-! ### Authority -/

def requireAuthority (ledger : Ledger) (binding : Binding) : Except String Unit := do
  let status ← context "Original conversation unavailable" ledger.sessions[binding.thread]?
  ensure (status ≠ .openTwice) "Original conversation has multiple owners"
  ensure (ledger.watched.contains binding.thread) "Original conversation no longer watched"
  ensure (ledger.launches[binding.token]? = some (.claude, binding.thread))
    "Original launch revoked"
  let owner ← context "Original owner revoked" ledger.owners[binding.thread]?
  ensure (owner.pid = binding.nativePid && owner.startTime = binding.nativeStart &&
    owner.launchToken = binding.token) "Original owner changed"

/-! ### Keys -/

/-- `Uuid::parse_str(s)?.to_string()`. -/
def parseUuid (s : String) : Except String String := context "invalid UUID" (Uuid.canonical s)

def routeKey (binding : Binding) : String := "claude-channel:" ++ binding.token ++ ":route"

def threadKey (binding : Binding) : String := "claude-channel:" ++ binding.token ++ ":thread"

def tokenOperationKey (token id : String) : Except String String := do
  let canonical ← parseUuid token
  ensure (canonical = token) "Canonical original launch required"
  let id ← parseUuid id
  return "claude-channel:" ++ token ++ ":operation:" ++ id

def operationKey (binding : Binding) (id : String) : Except String String :=
  tokenOperationKey binding.token id

def operationOwnerKey (thread id : String) : Except String String := do
  let canonical ← parseUuid thread
  ensure (canonical = thread) "Canonical original thread required"
  let id ← parseUuid id
  return "claude-operation:" ++ thread ++ ":" ++ id

/-! ### Rows -/

/-- A row read as an operation. -/
def Row.asOperation : Row → Except String Operation
  | operation o => .ok o
  | _ => .error "invalid operation"

def Row.asRoute : Row → Except String Route
  | route r => .ok r
  | _ => .error "invalid route"

/-- The token an owner row holds; `get_meta` reads any row as text, and only a text row is a
token. -/
def Row.asText : Row → Except String String
  | text s => .ok s
  | _ => .error "invalid token"

def readRoute (ledger : Ledger) (binding : Binding) : Except String Route :=
  match ledger.metadata[routeKey binding]? with
  | some row => row.asRoute
  | none => .ok {}

def checkRoute (route : Route) (initialized : Bool) : Except String Unit := do
  ensure (!route.revoked) "Native session lifecycle invalidated this continuation route"
  ensure (!initialized || route.initialized && route.started)
    "Native continuation initialization pending"

def readOperation (ledger : Ledger) (binding : Binding) (id : String) :
    Except String Operation := do
  let key ← operationKey binding id
  let row ← context "Unknown operation; never infer or replay it" ledger.metadata[key]?
  row.asOperation

def writeOperation (ledger : Ledger) (binding : Binding) (id : String) (op : Operation) :
    Except String Ledger := do
  let key ← operationKey binding id
  return ledger.setMeta key (.operation op)

def alreadyAdmitted (ledger : Ledger) (binding : Binding) (id text : String) :
    Except String Bool := do
  let key ← operationOwnerKey binding.thread id
  match ledger.metadata[key]? with
  | none => return false
  | some row => do
      let token ← row.asText
      let key ← tokenOperationKey token id
      let row ← context "Original operation unavailable; never replay" ledger.metadata[key]?
      let op ← row.asOperation
      ensure (op.text = text) "Operation UUID reused for different text"
      return true

/-! ### The transactions -/

/-- `char::is_whitespace`. -/
def isWhitespace (c : Char) : Bool :=
  let n := c.toNat
  (0x9 ≤ n && n ≤ 0xd) || n = 0x20 || n = 0x85 || n = 0xa0 || n = 0x1680 ||
    (0x2000 ≤ n && n ≤ 0x200a) || n = 0x2028 || n = 0x2029 || n = 0x202f || n = 0x205f || n = 0x3000

/-- The text is not blank and within the bound. -/
def bounded (text : String) : Bool :=
  !text.toList.all isWhitespace && text.utf8ByteSize ≤ textBytes

/-- What one of the transactions yields. -/
inductive Outcome where
  | admitted (fresh : Bool)
  | attested
  | executed (text : String)
  | changed
  deriving DecidableEq, Repr, Inhabited

def admitText (binding : Binding) (id text : String) (ledger : Ledger) :
    Except String (Outcome × Ledger) := do
  let id ← parseUuid id
  ensure (bounded text) "Message exceeds native channel bound"
  requireAuthority ledger binding
  checkRoute (← readRoute ledger binding) true
  let ledger := ledger.setMeta (threadKey binding) (.text binding.thread)
  if ← alreadyAdmitted ledger binding id text then return (.admitted false, ledger)
  else
    let key ← operationOwnerKey binding.thread id
    let ledger := ledger.setMeta key (.text binding.token)
    let ledger ← writeOperation ledger binding id ⟨text, false, none, none, none, none⟩
    return (.admitted true, ledger)

def toolName (binding : Binding) (short : String) : String :=
  "mcp__" ++ binding.serverName ++ "__" ++ short

/-- The arguments a tool takes. -/
def toolArguments (short id : String) (input : Value) : Except String Value :=
  if short = "fetch_message" then .ok (.object [("operation_id", .string id)])
  else if short = "reply" then do
    let text ← context "Literal reply missing" input["text"].asStr
    ensure (bounded text) "Reply exceeds native channel bound"
    return .object [("operation_id", .string id), ("text", .string text)]
  else .error "Unknown channel tool"

/-- The operation a tool call names, and its arguments as the tool takes them. -/
def canonicalArguments (short : String) (input : Value) : Except String (String × Value) := do
  let id ← context "Operation UUID missing" input["operation_id"].asStr
  let canonicalId ← parseUuid id
  let canonical ← toolArguments short id input
  ensure (input.eq canonical) "Unexpected native tool arguments"
  return (canonicalId, canonical)

/-- The call a native hook input attests: its tool, its operation and the attestation. -/
def attested (binding : Binding) (input : Value) (issued : Nat) :
    Except String (String × String × Attestation) := do
  ensure (input["hook_event_name"].asStr = some "PreToolUse" &&
    input["session_id"].asStr = some binding.thread) "Wrong native tool session"
  ensure ((input.get? "agent_id").all Value.isNull) "Subagent content release refused"
  let name ← context "Native tool name missing" input["tool_name"].asStr
  let short ← context "Native tool name not this channel"
    (["fetch_message", "reply"].find? fun s => toolName binding s = name)
  let (id, arguments) ← canonicalArguments short input["tool_input"]
  let toolId ← context "Native tool-use identity missing"
    (input["tool_use_id"].asStr.filter fun v => "toolu_".toList.isPrefixOf v.toList &&
      v.utf8ByteSize ≤ 128)
  return (short, id, ⟨toolId, name, arguments, issued⟩)

def installAttestation (binding : Binding) (input : Value) (issued : Nat) (ledger : Ledger) :
    Except String (Outcome × Ledger) := do
  let (short, id, attestation) ← attested binding input issued
  requireAuthority ledger binding
  checkRoute (← readRoute ledger binding) true
  let op ← readOperation ledger binding id
  ensure op.reply.isNone "Operation already replied; no replay"
  ensure (short ≠ "fetch_message" || !op.released) "Content already released; no refetch"
  let ledger ← writeOperation ledger binding id { op with attestation := some attestation }
  return (.attested, ledger)

def validateAttestation (proof : Attestation) (binding : Binding) (short nativeId : String)
    (canonical : Value) (now : Nat) : Except String Unit := do
  ensure (proof.toolId = nativeId && proof.toolName = toolName binding short &&
    proof.arguments.eq canonical) "Native tool attestation mismatch"
  ensure (now ≥ proof.issued && now - proof.issued ≤ ttl) "Native tool attestation expired"

/-- What a tool call with a valid attestation does to its operation. -/
def consume (op : Operation) (short nativeId : String) (canonical : Value) :
    Except String (String × Operation) :=
  if short = "fetch_message" then do
    ensure (!op.released && op.reply.isNone) "Content already released; no refetch"
    return (op.text,
      { op with released := true, fetchToolId := some nativeId, attestation := none })
  else do
    ensure (op.released && op.reply.isNone) "Reply has no released operation or already exists"
    let reply ← context "Reply missing" canonical["text"].asStr
    return ("Reply recorded for the original Pika operation.",
      { op with reply := some reply, replyToolId := some nativeId, attestation := none })

def executeTool (binding : Binding) (short : String) (arguments : Value) (nativeId : String)
    (now : Nat) (ledger : Ledger) : Except String (Outcome × Ledger) := do
  let (id, canonical) ← canonicalArguments short arguments
  requireAuthority ledger binding
  checkRoute (← readRoute ledger binding) true
  let op ← readOperation ledger binding id
  let proof ← context "Native tool attestation missing; content withheld" op.attestation
  validateAttestation proof binding short nativeId canonical now
  let (text, op) ← consume op short nativeId canonical
  let ledger ← writeOperation ledger binding id op
  return (.executed text, ledger)

/-- What the lifecycle of a native session does to its route. -/
inductive RouteUpdate where
  | initialized
  | started
  | revoked
  deriving DecidableEq, Repr, Inhabited

def RouteUpdate.apply : RouteUpdate → Route → Route
  | initialized, route => { route with initialized := true }
  | started, route => { route with started := true }
  | revoked, route => { route with revoked := true }

def changeRoute (binding : Binding) (update : RouteUpdate) (ledger : Ledger) :
    Except String (Outcome × Ledger) := do
  let route ← readRoute ledger binding
  return (.changed, ledger.setMeta (routeKey binding) (.route (update.apply route)))

/-! ### Calls -/

/-- A call of one of the parties: the phone's sender, the native hook, the channel server and the
session lifecycle. -/
inductive Call where
  | admitText (binding : Binding) (id text : String)
  | install (binding : Binding) (input : Value) (issued : Nat)
  | execute (binding : Binding) (short : String) (arguments : Value) (nativeId : String) (now : Nat)
  | change (binding : Binding) (update : RouteUpdate)

def Call.run : Call → Ledger → Except String (Outcome × Ledger)
  | admitText binding id text => Channel.admitText binding id text
  | install binding input issued => installAttestation binding input issued
  | execute binding short arguments nativeId now =>
      executeTool binding short arguments nativeId now
  | change binding update => changeRoute binding update

/-- `reconcile_transaction`: a failed transaction is rolled back. -/
def transaction (run : Ledger → Except String (Outcome × Ledger)) (ledger : Ledger) :
    Except String Outcome × Ledger :=
  match run ledger with
  | .ok (outcome, ledger) => (.ok outcome, ledger)
  | .error e => (.error e, ledger)

def Call.perform (call : Call) (ledger : Ledger) : Except String Outcome × Ledger :=
  transaction call.run ledger

end Pikamux.Channel
