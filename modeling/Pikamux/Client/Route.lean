import Pikamux.Client.Bridge

/-!
# Client — Route

How a board opens a conversation on a client: it tries the bridges that are configured, and goes on
to the next one only when it could not connect.  When none could be reached it attaches itself.

* `requestClientLaunch_step` — what asking one bridge comes to.
* `routed` — the request is handed to one bridge at most, and to none when the board attaches.
* `opens_one_window` — with the bridges' side.
-/

namespace Pikamux.Client

open Support Json

def defaultRemotePort : Nat := 47654

structure LoopbackEndpoint where
  host : String
  port : Nat

structure ServerBridgeRoute where
  clientId : String
  label : String
  host : String
  port : Nat
  token : String
  enabled : Bool

namespace ServerBridgeRoute

def enabledOf (value : Option Value) : Except ClientBridgeError Bool :=
  match value with
  | none => .ok true
  | some (.bool value) => .ok value
  | some _ => .error (invalid "Client bridge enabled flag is invalid")

def hostOf (value : Option Value) : Except ClientBridgeError String :=
  match value with
  | none | some .null => .ok "127.0.0.1"
  | some (.string host) =>
      if host = "" then .error (invalid "Client bridge endpoint is invalid") else .ok host
  | some _ => .error (invalid "Client bridge endpoint is invalid")

/-- Whether a timeout is given as a number, which is then brought between 0.05 and 2 seconds. -/
def checkTimeout (value : Option Value) : Except ClientBridgeError Unit :=
  match value with
  | none | some .null | some (.number _) => .ok ()
  | some _ => .error (invalid "Client bridge timeout is invalid")

def fromValue (value : Value) : Except ClientBridgeError ServerBridgeRoute := do
  let object ← context (invalid "Client bridge route is malformed") value.asObject
  let enabled ← enabledOf (object.lookup "enabled")
  let host ← hostOf (object.lookup "host")
  validateLoopbackHost host "Client bridge endpoint must stay on server loopback"
  let port ← optionalPort (object.lookup "port") defaultRemotePort "Client bridge port"
  checkTimeout (object.lookup "timeout")
  let label ← optionalText (object.lookup "label") "pika-client" 63 "client label"
  let clientId ← canonicalUuid (object.lookup "client_id") "Invalid client identity"
  let token ← bridgeToken (object.lookup "token")
  return { clientId, label, host, port, token, enabled }

def endpoint (route : ServerBridgeRoute) : Except ClientBridgeError LoopbackEndpoint := do
  validateLoopbackHost route.host "The Pika client bridge may use only loopback"
  ensure (decide (1024 ≤ route.port)) (invalid "Client bridge port must be between 1024 and 65535")
  return ⟨route.host, route.port⟩

end ServerBridgeRoute

/-! ### Asking a bridge -/

/-- What happens to an exchange: no connection, one over which the request could not be written or
no reply could be read, or a reply. -/
inductive Peer where
  | unavailable (detail : String)
  | unsent (detail : String)
  | unanswered (detail : String)
  | replies (value : Value)

/-- Whether the connection was accepted. -/
def Peer.accepted : Peer → Bool
  | .unavailable _ => false
  | _ => true

def exchange : Peer → Except ClientBridgeError Value
  | .unavailable detail => .error (newError .unavailable ("Client bridge unavailable: " ++ detail))
  | .unsent detail =>
      .error (newError .outcomeUnknown
        ("Client bridge outcome is unknown after connecting: " ++ detail))
  | .unanswered detail =>
      .error (newError .outcomeUnknown
        ("Client bridge outcome is unknown after submitting the request: " ++ detail))
  | .replies value => .ok value

def checkRejection (response : Value) : Except ClientBridgeError ClientLaunchReceipt := do
  let object ← exactObject response ["type", "protocol", "version", "message"]
    "Malformed client bridge rejection"
  ensure ((object.lookup "protocol").bind Value.asStr == some bridgeProtocol &&
      (object.lookup "version").bind Value.asU64 == some bridgeVersion)
    (incompatible "Incompatible client bridge rejection")
  let message ← requiredPrintableText (object.lookup "message") 500
    "Client bridge rejected the request"
  .error (rejected message)

def checkReceipt (validated : LaunchRequest) (response : Value) :
    Except ClientBridgeError ClientLaunchReceipt := do
  let receipt ← context (rejected "Malformed client launch receipt")
    (ClientLaunchReceipt.ofValue? response)
  ensure (receipt.messageType == "launched" && receipt.protocol == bridgeProtocol &&
    receipt.version == bridgeVersion) (incompatible "Incompatible client launch receipt")
  let requestId ← canonicalUuidStr receipt.requestId "Invalid request identity"
  let targetNodeId ← canonicalUuidStr receipt.targetNodeId "Invalid target node identity"
  let sessionId ← conversationIdentity receipt.provider receipt.sessionId
  ensure (requestId == validated.requestId && targetNodeId == validated.targetNodeId &&
      receipt.provider == validated.provider && sessionId == validated.sessionId)
    (rejected "Client launch receipt identity mismatch")
  let detail ← requiredPrintableText (some (.string receipt.detail)) 500
    "Malformed client launch receipt detail"
  return { receipt with requestId, targetNodeId, sessionId, detail }

def checkResponse (validated : LaunchRequest) (response : Value) :
    Except ClientBridgeError ClientLaunchReceipt :=
  if (response.get? "type").bind Value.asStr = some "error" then checkRejection response
  else checkReceipt validated response

/-- The result, and the request where a bridge accepted the connection. -/
def requestClientLaunch (peer : Value → Peer) (request : LaunchRequest) :
    Except ClientBridgeError ClientLaunchReceipt × List LaunchRequest :=
  match validateLaunchRequest request.toValue with
  | .error error => (.error error, [])
  | .ok validated =>
      let peer := peer request.toValue
      (exchange peer >>= checkResponse validated, if peer.accepted then [request] else [])

inductive ClientWindowOutcome where
  | continueWithExistingAttach
  | windowLaunched (receipt : ClientLaunchReceipt)

section Routes

-- what each attempt meets, and the ids that are drawn for the requests
variable (peers : Nat → LoopbackEndpoint → Value → Peer) (newId : Nat → String)

/-- The bridges from the `n`th attempt on. -/
def tryRoutes (sourceNodeId targetNodeId : String) (provider : Provider) (sessionId : String) :
    Nat → List Value → Except ClientBridgeError ClientWindowOutcome × List LaunchRequest
  | _, [] => (.ok .continueWithExistingAttach, [])
  | n, raw :: configured =>
      if raw.asObject.isNone ∨ (raw.get? "enabled").bind Value.asBool = some false then
        tryRoutes sourceNodeId targetNodeId provider sessionId n configured
      else
        match ServerBridgeRoute.fromValue raw with
        | .error error => (.error error, [])
        | .ok route =>
            if ¬ route.enabled then
              tryRoutes sourceNodeId targetNodeId provider sessionId n configured
            else
              match makeLaunchRequest route.clientId route.token sourceNodeId targetNodeId provider
                  sessionId (newId n) with
              | .error error => (.error error, [])
              | .ok request =>
                  match route.endpoint with
                  | .error error => (.error error, [])
                  | .ok endpoint =>
                      match requestClientLaunch (peers n endpoint) request with
                      | (.ok receipt, handed) => (.ok (.windowLaunched receipt), handed)
                      | (.error error, handed) =>
                          if error.kind = .unavailable then
                            let rest := tryRoutes sourceNodeId targetNodeId provider sessionId
                              (n + 1) configured
                            (rest.1, handed ++ rest.2)
                          else (.error error, handed)

def routeClientWindow (configured : List Value) (clientContext : Bool)
    (sourceNodeId targetNodeId : String) (provider : Provider) (sessionId : String) :
    Except ClientBridgeError ClientWindowOutcome × List LaunchRequest :=
  if sessionId.toList.take 8 = "unbound:".toList ∨ configured = [] ∨ clientContext = false then
    (.ok .continueWithExistingAttach, [])
  else
    match canonicalUuidStr sourceNodeId "Invalid source node identity" with
    | .error error => (.error error, [])
    | .ok source =>
        match canonicalUuidStr targetNodeId "Invalid target node identity" with
        | .error error => (.error error, [])
        | .ok target =>
            match conversationIdentity provider sessionId with
            | .error error => (.error error, [])
            | .ok session => tryRoutes peers newId source target provider session 0 configured

end Routes

/-! ### Errors after a connection -/

section Decided

variable {α β : Type}

/-- A failure that does not say that there was no connection. -/
def Decided (x : Except ClientBridgeError α) : Prop :=
  ∀ error, x = .error error → error.kind ≠ .unavailable

theorem Decided.bind {x : Except ClientBridgeError α} {f : α → Except ClientBridgeError β}
    (h : Decided x) (hf : ∀ a, Decided (f a)) : Decided (x >>= f) := by
  intro error herror
  cases x with
  | error =>
      cases herror
      exact h error rfl
  | ok a => exact hf a error herror

theorem Decided.error {kind : ClientBridgeErrorKind} {message : String} (h : kind ≠ .unavailable) :
    Decided (.error (newError kind message) : Except ClientBridgeError α) := by
  intro error herror
  cases herror
  exact h

theorem Decided.context {kind : ClientBridgeErrorKind} {message : String} {o : Option α}
    (h : kind ≠ .unavailable) : Decided (context (newError kind message) o) := by
  cases o with
  | none => exact .error h
  | some a => exact nofun

theorem Decided.ensure {kind : ClientBridgeErrorKind} {message : String} {c : Bool}
    (h : kind ≠ .unavailable) : Decided (ensure c (newError kind message)) := by
  cases c with
  | false => exact .error h
  | true => exact nofun

theorem Decided.ok (a : α) : Decided (pure a) := nofun

theorem canonicalUuidStr_decided (value label : String) : Decided (canonicalUuidStr value label) :=
  .context (by decide)

theorem conversationIdentity_decided (provider : Provider) (value : String) :
    Decided (conversationIdentity provider value) := by
  rw [conversationIdentity]
  by_cases hprovider : provider = .opencode
  · rw [if_pos hprovider]
    exact .bind (.ensure (by decide)) fun _ => .ok value
  · rw [if_neg hprovider]
    exact canonicalUuidStr_decided value _

theorem checkResponse_decided (validated : LaunchRequest) (response : Value) :
    Decided (checkResponse validated response) := by
  rw [checkResponse]
  by_cases herror : (response.get? "type").bind Value.asStr = some "error"
  · rw [if_pos herror]
    refine .bind (.bind (.context (by decide)) fun _ => ?_) fun _ => ?_
    · exact .bind (.ensure (by decide)) fun _ => .ok _
    · refine .bind (.ensure (by decide)) fun _ => ?_
      exact .bind (.context (by decide)) fun _ => .error (by decide)
  · rw [if_neg herror]
    refine .bind (.context (by decide)) fun receipt => .bind (.ensure (by decide)) fun _ => ?_
    refine .bind (canonicalUuidStr_decided _ _) fun _ => ?_
    refine .bind (canonicalUuidStr_decided _ _) fun _ => ?_
    refine .bind (conversationIdentity_decided _ _) fun _ => ?_
    exact .bind (.ensure (by decide)) fun _ => .bind (.context (by decide)) fun _ => .ok _

end Decided

/-! ### One window -/

section Routed

variable {peers : Nat → LoopbackEndpoint → Value → Peer} {newId : Nat → String}
  {peer : Value → Peer} {source target session : String} {provider : Provider}
  {request validated : LaunchRequest} {receipt : ClientLaunchReceipt}

/-- The receipt of a request. -/
structure Matches (receipt : ClientLaunchReceipt) (request : LaunchRequest) : Prop where
  requestId : receipt.requestId = request.requestId
  targetNodeId : receipt.targetNodeId = request.targetNodeId
  provider : receipt.provider = request.provider
  sessionId : receipt.sessionId = request.sessionId

theorem checkResponse_ok {response : Value} (h : checkResponse validated response = .ok receipt) :
    Matches receipt validated := by
  rw [checkResponse] at h
  by_cases herror : (response.get? "type").bind Value.asStr = some "error"
  · rw [if_pos herror] at h
    obtain ⟨_, -, h⟩ := bind_eq_ok.mp h
    obtain ⟨_, -, h⟩ := bind_eq_ok.mp h
    obtain ⟨_, -, h⟩ := bind_eq_ok.mp h
    cases h
  · rw [if_neg herror] at h
    obtain ⟨read, -, h⟩ := bind_eq_ok.mp h
    obtain ⟨_, -, h⟩ := bind_eq_ok.mp h
    obtain ⟨requestId, -, h⟩ := bind_eq_ok.mp h
    obtain ⟨targetNodeId, -, h⟩ := bind_eq_ok.mp h
    obtain ⟨sessionId, -, h⟩ := bind_eq_ok.mp h
    obtain ⟨_, hsame, h⟩ := bind_eq_ok.mp h
    obtain ⟨detail, -, h⟩ := bind_eq_ok.mp h
    rw [pure_eq_ok] at h
    subst h
    simp only [ensure_eq_ok, Bool.and_eq_true, beq_iff_eq] at hsame
    exact ⟨hsame.1.1.1, hsame.1.1.2, hsame.1.2, hsame.2⟩

/-- What asking one bridge comes to. -/
inductive LaunchStep (request : LaunchRequest) :
    Except ClientBridgeError ClientLaunchReceipt × List LaunchRequest → Prop where
  | unavailable {error : ClientBridgeError} : LaunchStep request (.error error, [])
  | failed {error : ClientBridgeError} (decided : error.kind ≠ .unavailable) :
      LaunchStep request (.error error, [request])
  | launched {receipt : ClientLaunchReceipt} (matched : Matches receipt request) :
      LaunchStep request (.ok receipt, [request])

theorem requestClientLaunch_step (peer : Value → Peer) (hvalid : request.Valid) :
    LaunchStep request (requestClientLaunch peer request) := by
  rw [requestClientLaunch, hvalid.validated]
  simp only
  cases hpeer : peer request.toValue with
  | unavailable detail => exact .unavailable
  | unsent detail =>
      exact .failed (show ClientBridgeErrorKind.outcomeUnknown ≠ .unavailable by decide)
  | unanswered detail =>
      exact .failed (show ClientBridgeErrorKind.outcomeUnknown ≠ .unavailable by decide)
  | replies response =>
      rw [exchange, ok_bind]
      cases hchecked : checkResponse request response with
      | error error => exact .failed (checkResponse_decided request response error hchecked)
      | ok receipt => exact .launched (checkResponse_ok hchecked)

/-- The request that was handed over is for the conversation that was to be opened. -/
structure Asked (target : String) (provider : Provider) (session : String)
    (request : LaunchRequest) : Prop where
  targetNodeId : Uuid.canonical target = some request.targetNodeId
  sessionId : conversationIdentity provider session = .ok request.sessionId
  provider : request.provider = provider

/-- What opening a conversation comes to. -/
structure Routed (target : String) (provider : Provider) (session : String)
    (r : Except ClientBridgeError ClientWindowOutcome × List LaunchRequest) : Prop where
  one : r.2.length ≤ 1
  asked : ∀ request ∈ r.2, Asked target provider session request
  attach : r.1 = .ok .continueWithExistingAttach → r.2 = []
  launched : ∀ receipt, r.1 = .ok (.windowLaunched receipt) →
    ∃ request, r.2 = [request] ∧ Matches receipt request

/-- Nothing was handed over, and no window was launched. -/
theorem Routed.quiet {reply : Except ClientBridgeError ClientWindowOutcome}
    (h : ∀ receipt, reply ≠ .ok (.windowLaunched receipt)) :
    Routed target provider session (reply, []) :=
  ⟨by simp, by simp, fun _ => rfl, fun receipt hreply => absurd hreply (h receipt)⟩

theorem makeLaunchRequest_asked {clientId token requestId : String}
    (htarget : Uuid.canonical target = some target)
    (hsession : conversationIdentity provider session = .ok session)
    (h : makeLaunchRequest clientId token source target provider session requestId = .ok request) :
    request.Valid ∧ Asked target provider session request := by
  refine ⟨validateLaunchRequest_valid h, ?_⟩
  obtain ⟨read, hread, h⟩ := bind_eq_ok.mp h
  rw [context_eq_ok, LaunchRequest.ofValue?_toValue rfl] at hread
  cases hread
  obtain ⟨_, -, h⟩ := bind_eq_ok.mp h
  obtain ⟨_, -, h⟩ := bind_eq_ok.mp h
  obtain ⟨_, -, h⟩ := bind_eq_ok.mp h
  obtain ⟨_, -, h⟩ := bind_eq_ok.mp h
  obtain ⟨_, -, h⟩ := bind_eq_ok.mp h
  obtain ⟨canonical, hcanonical, h⟩ := bind_eq_ok.mp h
  obtain ⟨identity, hidentity, h⟩ := bind_eq_ok.mp h
  rw [pure_eq_ok] at h
  subst h
  rw [canonicalUuidStr, htarget] at hcanonical
  rw [hsession] at hidentity
  cases hcanonical
  cases hidentity
  exact ⟨htarget, hsession, rfl⟩

theorem tryRoutes_routed (htarget : Uuid.canonical target = some target)
    (hsession : conversationIdentity provider session = .ok session) (n : Nat)
    (configured : List Value) :
    Routed target provider session
      (tryRoutes peers newId source target provider session n configured) := by
  induction configured generalizing n with
  | nil => exact .quiet nofun
  | cons raw configured ih =>
      rw [tryRoutes]
      by_cases hskipped :
          raw.asObject.isNone ∨ (raw.get? "enabled").bind Value.asBool = some false
      · rw [if_pos hskipped]
        exact ih n
      rw [if_neg hskipped]
      cases ServerBridgeRoute.fromValue raw with
      | error error => exact .quiet nofun
      | ok route =>
          simp only
          by_cases henabled : ¬ route.enabled
          · rw [if_pos henabled]
            exact ih n
          rw [if_neg henabled]
          cases hmake : makeLaunchRequest route.clientId route.token source target provider session
              (newId n) with
          | error error => exact .quiet nofun
          | ok request =>
              obtain ⟨hvalid, hasked⟩ := makeLaunchRequest_asked htarget hsession hmake
              simp only
              cases route.endpoint with
              | error error => exact .quiet nofun
              | ok endpoint =>
                  have hstep := requestClientLaunch_step (peers n endpoint) hvalid
                  simp only
                  generalize requestClientLaunch (peers n endpoint) request = r at hstep
                  cases hstep with
                  | @unavailable error =>
                      simp only
                      by_cases hkind : error.kind = .unavailable
                      · rw [if_pos hkind]
                        exact ih (n + 1)
                      · rw [if_neg hkind]
                        exact .quiet nofun
                  | failed decided =>
                      simp only [if_neg decided]
                      exact ⟨Nat.le_refl 1, by simpa using hasked, nofun, nofun⟩
                  | launched matched =>
                      refine ⟨Nat.le_refl 1, by simpa using hasked, nofun, fun receipt h => ?_⟩
                      cases h
                      exact ⟨request, rfl, matched⟩

theorem routed (configured : List Value) (clientContext : Bool)
    (source target : String) (provider : Provider) (session : String) :
    Routed target provider session
      (routeClientWindow peers newId configured clientContext source target provider session) := by
  rw [routeClientWindow]
  by_cases hlocal : session.toList.take 8 = "unbound:".toList ∨ configured = [] ∨
      clientContext = false
  · rw [if_pos hlocal]
    exact .quiet nofun
  rw [if_neg hlocal]
  cases canonicalUuidStr source "Invalid source node identity" with
  | error error => exact .quiet nofun
  | ok sourceNodeId =>
      simp only
      cases htarget : canonicalUuidStr target "Invalid target node identity" with
      | error error => exact .quiet nofun
      | ok targetNodeId =>
          simp only
          cases hsession : conversationIdentity provider session with
          | error error => exact .quiet nofun
          | ok sessionId =>
              rw [canonicalUuidStr, context_eq_ok] at htarget
              have htarget' := Uuid.canonical_canonical htarget
              have hsession' := conversationIdentity_ok hsession
              have htried : Routed targetNodeId provider sessionId (tryRoutes peers newId
                  sourceNodeId targetNodeId provider sessionId 0 configured) :=
                tryRoutes_routed htarget' hsession' 0 configured
              refine ⟨htried.one, fun request hrequest => ?_, htried.attach, htried.launched⟩
              -- what is canonical is its own canonical form
              have hasked := htried.asked request hrequest
              refine ⟨?_, ?_, hasked.provider⟩
              · rw [htarget, ← htarget', hasked.targetNodeId]
              · rw [hsession, ← hsession', hasked.sessionId]

end Routed

/-- A conversation is opened on one bridge at most, and not here too; and a bridge launches a window
for an id once in the time of its receipt, for one identity. -/
theorem opens_one_window {start bridge : ClientLaunchBridge} {pre post : List Made} {e : Made}
    (peers : Nat → LoopbackEndpoint → Value → Peer) (newId : Nat → String) (configured : List Value)
    (clientContext : Bool) (source target : String) (provider : Provider) (session : String)
    (h : History perform NoDrift start (pre ++ e :: post) bridge)
    (htimes : (pre ++ e :: post).Pairwise fun a b => a.call.now ≤ b.call.now) :
    Routed target provider session
        (routeClientWindow peers newId configured clientContext source target provider session) ∧
      Deduplicated pre e :=
  ⟨routed configured clientContext source target provider session, deduplicated h htimes⟩

/-! ### A board and a bridge -/

def board : ClientNode where
  nodeId := "11111111-1111-1111-1111-111111111111"
  nodeAlias := "board"
  sshTarget := "board"
  token := "00112233445566778899aabbccddeeff00112233445566778899aabbccddeeff"
  remotePort := none
  allowFleetRelay := false

def paired : ClientLaunchBridge where
  clientId := "22222222-2222-2222-2222-222222222222"
  nodes := ⟨[(board.nodeId, board)], by simp⟩
  terminalExecutable := "wt.exe"
  sshExecutable := "ssh.exe"

/-- A request of the board, under an id. -/
def opening (sessionId : String) : LaunchRequest where
  messageType := "open"
  protocol := bridgeProtocol
  version := bridgeVersion
  requestId := "33333333-3333-3333-3333-333333333333"
  clientId := paired.clientId
  token := board.token
  sourceNodeId := board.nodeId
  targetNodeId := board.nodeId
  provider := .opencode
  sessionId

/-- The window does not open. -/
def failing : Call :=
  ⟨0, .handle (fun _ => .error (newError .io "no terminal")) (opening "ses_first").toValue⟩

def succeeding : Call := ⟨1, .handle (fun _ => .ok ()) (opening "ses_second").toValue⟩

def failed : Made := ⟨paired, failing, (perform failing paired).1⟩

def succeeded : Made :=
  ⟨(perform failing paired).2, succeeding, (perform succeeding (perform failing paired).2).1⟩

theorem opening_valid {sessionId : String}
    (h : conversationIdentity .opencode sessionId = .ok sessionId) : (opening sessionId).Valid := by
  have hrequest : Uuid.canonical "33333333-3333-3333-3333-333333333333" =
      some "33333333-3333-3333-3333-333333333333" := by decide +kernel
  have hclient : Uuid.canonical paired.clientId = some paired.clientId := by decide +kernel
  have hnode : Uuid.canonical board.nodeId = some board.nodeId := by decide +kernel
  have htoken : (bridgeTokenStr board.token).toOption = some board.token := by decide +kernel
  refine ⟨rfl, rfl, rfl, ?_, ?_, ?_, ?_, ?_, h⟩
  · intro label
    exact context_eq_ok.mpr hrequest
  · intro label
    exact context_eq_ok.mpr hclient
  · cases hread : bridgeTokenStr board.token with
    | error error =>
        rw [hread] at htoken
        cases htoken
    | ok token =>
        rw [hread] at htoken
        exact hread.trans (congrArg Except.ok (Option.some.inj htoken))
  · intro label
    exact context_eq_ok.mpr hnode
  · intro label
    exact context_eq_ok.mpr hnode

theorem opening_admitted {sessionId : String}
    (h : conversationIdentity .opencode sessionId = .ok sessionId) :
    Admitted paired (opening sessionId).toValue (opening sessionId) := by
  refine ⟨(opening_valid h).validated, rfl, board, ?_, rfl, .inl ?_⟩
  · simp [Table.get?, paired, opening]
  · simp [Table.get?, paired, opening]

/-- The board's own window is opened, or not. -/
theorem handle_opening {sessionId : String} {argv : List String}
    (h : conversationIdentity .opencode sessionId = .ok sessionId)
    (hargv : paired.command (opening sessionId) board (some board) = .ok argv)
    (launch : List String → Except ClientBridgeError Unit) (now : Nat) :
    (∀ error, launch argv = .error error →
      paired.handleAt launch (opening sessionId).toValue now = (⟨.error error, none⟩, paired)) ∧
    (launch argv = .ok () →
      (paired.handleAt launch (opening sessionId).toValue now).1.window =
        some ⟨opening sessionId, argv⟩) := by
  have hadmitted := opening_admitted h
  have hping : ¬ (opening sessionId).toValue.eq ping = true := fun hping =>
    not_admitted_ping hping hadmitted
  have hnodes : paired.nodes.get? board.nodeId = some board := by
    simp [Table.get?, paired]
  have hcheck : paired.check (opening sessionId).toValue =
      .ok (opening sessionId, board, some board) := by
    obtain ⟨source, target, hcheck⟩ := hadmitted.checked
    obtain ⟨read, hread, hsource⟩ := bind_eq_ok.mp hcheck
    obtain ⟨_, _, hsource⟩ := bind_eq_ok.mp hsource
    obtain ⟨node, hnode, hsource⟩ := bind_eq_ok.mp hsource
    obtain ⟨_, _, hsource⟩ := bind_eq_ok.mp hsource
    obtain ⟨_, _, hsource⟩ := bind_eq_ok.mp hsource
    cases hsource
    rw [context_eq_ok] at hnode
    cases hnode.symm.trans hnodes
    rw [hcheck]
    exact congrArg (fun target => Except.ok (opening sessionId, board, target)) hnodes
  have hretain : paired.retain now = paired := rfl
  have hnone : paired.receipts.get? (opening sessionId).requestId = none := rfl
  constructor
  · intro error hlaunch
    rw [ClientLaunchBridge.handleAt, if_neg hping, hcheck]
    dsimp only
    rw [hretain, hnone]
    dsimp only
    rw [hargv]
    dsimp only
    rw [hlaunch]
  · intro hlaunch
    rw [ClientLaunchBridge.handleAt, if_neg hping, hcheck]
    dsimp only
    rw [hretain, hnone]
    dsimp only
    rw [hargv]
    dsimp only
    rw [hlaunch]

theorem exists_command (sessionId : String)
    (h : (paired.command (opening sessionId) board (some board)).toOption.isSome = true) :
    ∃ argv, paired.command (opening sessionId) board (some board) = .ok argv := by
  cases hargv : paired.command (opening sessionId) board (some board) with
  | ok argv => exact ⟨argv, rfl⟩
  | error error =>
      rw [hargv] at h
      cases h

theorem first_identity : conversationIdentity .opencode "ses_first" = .ok "ses_first" := by
  have hcheck : ("ses_first".toList.take 4 == "ses_".toList &&
      decide (8 ≤ "ses_first".utf8ByteSize) && decide ("ses_first".utf8ByteSize ≤ 128) &&
      ("ses_first".toList.drop 4).all Char.isAlphanum) = true := by decide +kernel
  rw [conversationIdentity, if_pos rfl, hcheck]
  rfl

theorem second_identity : conversationIdentity .opencode "ses_second" = .ok "ses_second" := by
  have hcheck : ("ses_second".toList.take 4 == "ses_".toList &&
      decide (8 ≤ "ses_second".utf8ByteSize) && decide ("ses_second".utf8ByteSize ≤ 128) &&
      ("ses_second".toList.drop 4).all Char.isAlphanum) = true := by decide +kernel
  rw [conversationIdentity, if_pos rfl, hcheck]
  rfl

theorem failing_admitted :
    Admitted paired (opening "ses_first").toValue (opening "ses_first") :=
  opening_admitted first_identity

theorem failing_keeps : (perform failing paired).2 = paired := by
  obtain ⟨argv, hargv⟩ := exists_command "ses_first" (by decide +kernel)
  have hperform : perform failing paired =
      paired.handleAt (fun _ => .error (newError .io "no terminal")) (opening "ses_first").toValue
        0 := rfl
  have hfailed := (handle_opening first_identity hargv
    (fun _ => .error (newError .io "no terminal")) 0).1 _ rfl
  exact congrArg Prod.snd (hperform.trans hfailed)

theorem result_mk (before : ClientLaunchBridge) (call : Call) (result : Handled) :
    Entry.result ⟨before, call, result⟩ = result := rfl

-- `rfl` would run the first call to compare the bridges it leaves
theorem succeeded_result : succeeded.result = (perform succeeding paired).1 := by
  have hmade : succeeded = ⟨(perform failing paired).2, succeeding,
      (perform succeeding (perform failing paired).2).1⟩ := rfl
  rw [hmade, result_mk, failing_keeps]

theorem perform_succeeding : perform succeeding paired =
    paired.handleAt (fun _ => .ok ()) (opening "ses_second").toValue 1 := rfl

theorem succeeding_launched :
    succeeded.result.window.map Window.request = some (opening "ses_second") := by
  obtain ⟨argv, hargv⟩ := exists_command "ses_second" (by decide +kernel)
  have hopened := (handle_opening second_identity hargv (fun _ => .ok ()) 1).2 rfl
  rw [succeeded_result, perform_succeeding, hopened, Option.map_some]

theorem run_history :
    History perform NoDrift paired ([failed] ++ succeeded :: [])
      (perform succeeding (perform failing paired).2).2 :=
  (History.nil.call failing).call succeeding

theorem run_times :
    ([failed] ++ succeeded :: []).Pairwise fun a b => a.call.now ≤ b.call.now := by
  simp [failed, succeeded, failing, succeeding]

theorem opens_one_window_run : Deduplicated [failed] succeeded :=
  (opens_one_window (fun _ _ _ => .unavailable "refused") (fun _ => "") [] true board.nodeId
    board.nodeId .opencode "ses_first" run_history run_times).2

/-- The first window under an id does not open; the second request under it is for another
conversation, and launches. -/
theorem launched_for_another :
    ¬ ∀ (start bridge : ClientLaunchBridge) (pre mid post : List Made) (first e : Made)
      (launch : List String → Except ClientBridgeError Unit) (value : Value)
      (request : LaunchRequest) (w : Window),
      History perform NoDrift start (pre ++ first :: mid ++ e :: post) bridge →
        ((pre ++ first :: mid ++ e :: post).Pairwise fun a b => a.call.now ≤ b.call.now) →
        first.call.op = .handle launch value → Admitted first.before value request →
        e.result.window = some w → w.request.requestId = request.requestId →
        e.call.now < first.call.now + receiptCacheTtl →
        (∀ made ∈ pre, ∀ launch value, made.call.op ≠ .handle launch value) →
          w.request.identity = request.identity := by
  intro hall
  obtain ⟨w, hw, hrequest⟩ := Option.map_eq_some_iff.mp succeeding_launched
  have hsame := hall paired _ [] [] [] failed succeeded _ _ _ w run_history run_times rfl
    failing_admitted hw (by rw [hrequest]; rfl) (by decide) (by simp)
  rw [hrequest] at hsame
  have hsession := congrArg LaunchIdentity.sessionId hsame
  simp [LaunchRequest.identity, opening] at hsession

end Pikamux.Client
