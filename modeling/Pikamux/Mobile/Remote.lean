import Pikamux.Json.Text
import Pikamux.Support.Result
import Pikamux.Support.Uuid

/-!
# Mobile — Remote

A conversation of another machine is used through one connection.  `request` writes a request, and
reads what comes back until the reply; what happens on the connection meanwhile is a `Wire`.  After
a failure the connection is not used again.

* `request_error` — an error that is not `outcomeUnknown` is of a mutation that was not handed to
  the writer, or was rejected before dispatch.
* `run_of_failed` — a connection that failed writes nothing more.
* `relay_honest` — the relay reports no mutation as failed that may have been delivered.
-/

namespace Pikamux.Mobile

open Support Json

/-- What the relay reads of a machine of the fleet. -/
structure FleetNode where
  nodeId : String
  sshTarget : String
  status : String
  deriving DecidableEq, Repr

inductive RemoteError where
  /-- `OutcomeUnknown` -/
  | outcomeUnknown
  /-- `RejectedBeforeDispatch` -/
  | rejectedBeforeDispatch (message : String)
  | failed (message : String)
  deriving DecidableEq, Repr

/-- `RejectedBeforeDispatch` is what the error was made of. -/
def RemoteError.isRejected : RemoteError → Bool
  | .rejectedBeforeDispatch _ => true
  | _ => false

/-- What the writer says of a request. -/
inductive Written where
  | done
  | broken (message : String)
  /-- Nothing, for as long as it is waited for. -/
  | silent
  deriving DecidableEq, Repr

/-- What the reader passes on. -/
inductive Received where
  | frame (value : Value)
  | broken (message : String)

/-- What happens on a connection during a request.  After what is received comes silence. -/
structure Wire where
  /-- `get_fleet_node` -/
  stored : Except String (Option FleetNode)
  /-- The queue of the writer takes the request. -/
  accepts : Bool
  written : Written
  received : List Received

structure Remote where
  node : FleetNode
  /-- `input.is_some()` -/
  connected : Bool
  events : List Value
  selected : Option Value
  failed : Bool
  mutationDispatched : Bool
  /-- The requests that were handed to the writer. -/
  handed : List Value

/-- `REQUEST_LIMIT` -/
def requestLimit : Nat := 128 * 1024

/-- The methods that change something on the other machine. -/
def mutates (method : String) : Bool :=
  method ∈ ["conversation/send", "conversation/acknowledge", "conversation/model",
    "conversation/answer", "conversation/approve", "conversation/create", "conversation/adopt"]

/-- The methods that a connection takes. -/
def isFleetOperation (method : String) : Bool :=
  method ∈ ["hello", "conversation/open", "conversation/acknowledge", "conversation/history",
    "conversation/controls", "conversation/model", "conversation/send", "conversation/answer",
    "conversation/approve", "conversation/receipt", "conversation/requestStatus",
    "conversation/candidates", "conversation/adopt", "conversation/create", "projects/list"]

/-- A value is this string. -/
def isText (value : Value) (text : String) : Bool := value.asStr = some text

namespace Remote

/-- `require_route` -/
def requireRoute (wire : Wire) (remote : Remote) : Except RemoteError Unit := do
  ensure (!remote.failed) (.failed "Reconnect to this machine before continuing")
  let stored ← wire.stored.mapError .failed
  let current ← context (.failed "This machine was removed from the board") stored
  ensure (current.nodeId = remote.node.nodeId && current.sshTarget = remote.node.sshTarget &&
      current.status ≠ "quarantined")
    (.failed "This machine's connection changed; reopen it from the board")

/-- `validate_request` -/
def validateRequest (remote : Remote) (request : Value) : Except RemoteError (String × String) := do
  let id ← context (.failed "Missing request identity") request["id"].asStr
  let _ ← context (.failed "invalid UUID") (Uuid.canonical id)
  let method ← context (.failed "Missing mobile method") request["method"].asStr
  ensure (isFleetOperation method) (.failed "This operation is not a fleet conversation operation")
  ensure ((request["params"].get? "nodeId").all fun node => isText node remote.node.nodeId)
    (.failed "Operation belongs to a different machine")
  ensure ((request["params"].get? "identity").all fun identity =>
      isText identity["nodeId"] remote.node.nodeId)
    (.failed "Conversation belongs to a different machine")
  return (id, method)

/-- `write_request` -/
def writeRequest (wire : Wire) (request : Value) (method : String) (remote : Remote) :
    Except RemoteError Unit × Remote :=
  if requestLimit < request.toText.utf8ByteSize + 1 then
    (.error (.failed "Message is too large to send"), remote)
  else if !remote.connected then (.error (.failed "Remote connection closed"), remote)
  else if !wire.accepts then
    (.error (.failed "Remote connection cannot accept this request"), remote)
  else
    let remote := { remote with
      handed := remote.handed ++ [request], mutationDispatched := mutates method }
    match wire.written with
    | .done => (.ok (), remote)
    | .broken message => (.error (.failed message), remote)
    | .silent =>
        (.error (.failed "Remote connection interrupted while sending; delivery is unconfirmed"),
          remote)

/-- `validate_frame` -/
def isCompatible (frame : Value) : Bool :=
  match frame["v"] with
  | .number (.posInt 1) => true
  | _ => false

/-- The error that a reply carries. -/
def replyError (error : Value) : RemoteError :=
  if isText error["code"] "rejected_before_dispatch" then
    .rejectedBeforeDispatch
      (error["message"].asStr.getD "Remote request was rejected before dispatch")
  else .failed (error["message"].asStr.getD "Remote operation could not complete")

/-- The conversation that a reply made is selected. -/
def selectCreated (method : String) (result : Value) (remote : Remote) :
    Except RemoteError Remote :=
  if method = "conversation/create" then
    match (result.get? "identity").filter fun identity => !identity.isNull with
    | none => .ok remote
    | some identity =>
        if isText identity["nodeId"] remote.node.nodeId then
          .ok { remote with selected := some identity }
        else .error (.failed "New conversation belongs to another machine")
  else .ok remote

/-- `read_response` -/
def readResponse (frame : Value) (id method : String) (expected : Option Value) (remote : Remote) :
    Except RemoteError Value × Remote :=
  if !isText frame["id"] id || (frame.get? "result").isSome == (frame.get? "error").isSome then
    (.error (.failed "Remote response does not match this request"), remote)
  else if (frame.get? "error").isSome then (.error (replyError frame["error"]), remote)
  else
    let result := frame["result"]
    if expected.any fun identity => (result.get? "identity").any fun actual =>
        !actual.eq identity then
      (.error (.failed "Remote response belongs to another conversation"), remote)
    else
      match selectCreated method result remote with
      | .error e => (.error e, remote)
      | .ok remote => (.ok result, remote)

/-- `self.selected.as_ref() == frame["params"].get("identity")` -/
def isSelected (remote : Remote) (identity : Option Value) : Bool :=
  match remote.selected, identity with
  | some selected, some identity => selected.eq identity
  | none, none => true
  | _, _ => false

/-- `keep_event` -/
def keepEvent (frame : Value) (remote : Remote) : Except RemoteError Remote := do
  ensure (isText frame["event"] "conversation/event" ||
      isText frame["event"] "conversation/disconnected")
    (.failed "Unexpected event on the conversation connection")
  ensure (remote.isSelected (frame["params"].get? "identity"))
    (.failed "Remote event belongs to another conversation")
  ensure (remote.events.length < 128)
    (.failed "Remote conversation advanced too quickly; reopen to refresh")
  return { remote with events := remote.events ++ [frame] }

/-- Read frames until the reply. -/
def awaitReply (id method : String) (expected : Option Value) :
    List Received → Remote → Except RemoteError Value × Remote
  | [], remote =>
      (.error (.failed "Remote reply unavailable; delivery is unconfirmed"), remote)
  | .broken message :: _, remote => (.error (.failed message), remote)
  | .frame frame :: rest, remote =>
      if !isCompatible frame then
        (.error (.failed "Remote Pika protocol is incompatible"), remote)
      else if (frame.get? "id").isSome then readResponse frame id method expected remote
      else
        match keepEvent frame remote with
        | .error e => (.error e, remote)
        | .ok remote => awaitReply id method expected rest remote

/-- A conversation that is opened is selected, before the request is written. -/
def selectOpened (request : Value) (method : String) (remote : Remote) : Remote :=
  if method = "conversation/open" then
    { remote with selected := request["params"].get? "identity", events := [] }
  else remote

/-- `exchange` -/
def exchange (wire : Wire) (request : Value) (remote : Remote) :
    Except RemoteError Value × Remote :=
  match remote.validateRequest request with
  | .error e => (.error e, remote)
  | .ok (id, method) =>
      match writeRequest wire request method (selectOpened request method remote) with
      | (.error e, remote) => (.error e, remote)
      | (.ok (), remote) =>
          awaitReply id method (request["params"].get? "identity") wire.received remote

/-- `request` -/
def request (wire : Wire) (request : Value) (remote : Remote) :
    Except RemoteError Value × Remote :=
  match remote.requireRoute wire with
  | .error e => (.error e, remote)
  | .ok () =>
      match exchange wire request { remote with mutationDispatched := false } with
      | (.ok result, remote) => (.ok result, remote)
      | (.error e, remote) =>
          -- no retry, including when the provider might have accepted a send
          let remote := { remote with failed := true }
          if remote.mutationDispatched && !e.isRejected then (.error .outcomeUnknown, remote)
          else (.error e, remote)

/-- The events that have come, up to the silence or to the end of the connection. -/
def pollEvents (disconnected : Bool) : List Received → Remote →
    Except RemoteError (List Value) × Remote
  | [], remote =>
      if disconnected then
        (.error (.failed "Connection to this machine was interrupted"), remote)
      else (.ok remote.events, { remote with events := [] })
  | .broken message :: _, remote => (.error (.failed message), remote)
  | .frame frame :: rest, remote =>
      if !isCompatible frame then
        (.error (.failed "Remote Pika protocol is incompatible"), remote)
      else
        match keepEvent frame remote with
        | .error e => (.error e, remote)
        | .ok remote => pollEvents disconnected rest remote

/-- `poll` -/
def poll (wire : Wire) (disconnected : Bool) (remote : Remote) :
    Except RemoteError (List Value) × Remote :=
  match remote.requireRoute wire with
  | .error e => (.error e, remote)
  | .ok () => pollEvents disconnected wire.received remote

/-! ### One request -/

variable {wire : Wire} {request : Value} {remote after : Remote} {id method : String}
  {expected : Option Value} {received : List Received} {e : RemoteError}

/-- Before the end of what is received, and after events only, comes a reply to this request that
says it was rejected before dispatch. -/
def Rejected (id : String) (received : List Received) : Prop :=
  ∃ (events : List Value) (reply : Value) (later : List Received),
    received = events.map Received.frame ++ .frame reply :: later ∧
    (∀ event ∈ events, event.get? "id" = none) ∧ reply["id"] = .string id ∧
    reply.get? "result" = none ∧ reply["error"]["code"] = .string "rejected_before_dispatch"

theorem isText_iff {value : Value} {text : String} : isText value text = true ↔
    value = .string text := by
  rw [isText, decide_eq_true_eq, Value.asStr_eq_some]

theorem selectCreated_spec {result : Value}
    (h : selectCreated method result remote = .ok after) :
    after.handed = remote.handed ∧ after.mutationDispatched = remote.mutationDispatched := by
  rw [selectCreated] at h
  split at h
  · split at h
    · cases h
      exact ⟨rfl, rfl⟩
    · split at h
      · cases h
        exact ⟨rfl, rfl⟩
      · cases h
  · cases h
    exact ⟨rfl, rfl⟩

theorem selectCreated_error {result : Value}
    (h : selectCreated method result remote = .error e) : e.isRejected = false := by
  rw [selectCreated] at h
  split at h
  · split at h
    · cases h
    · split at h
      · cases h
      · cases h
        rfl
  · cases h

/-- A reply hands nothing to the writer, and only an error of it is a rejection. -/
theorem readResponse_spec {frame : Value} {result : Except RemoteError Value}
    (h : readResponse frame id method expected remote = (result, after)) :
    after.handed = remote.handed ∧ after.mutationDispatched = remote.mutationDispatched ∧
    ∀ e, result = .error e → e.isRejected = true → frame["id"] = .string id ∧
      frame.get? "result" = none ∧ frame["error"]["code"] = .string "rejected_before_dispatch" := by
  rw [readResponse] at h
  split at h
  · cases h
    exact ⟨rfl, rfl, fun e he hrejected => by cases he; cases hrejected⟩
  · next hmatch =>
      split at h
      · next herror =>
          cases h
          refine ⟨rfl, rfl, fun e he hrejected => ?_⟩
          simp only [herror, Bool.or_eq_true, Bool.not_eq_true', beq_iff_eq, not_or,
            Bool.not_eq_false, isText_iff] at hmatch
          cases he
          rw [replyError] at hrejected
          split at hrejected
          · next hcode =>
              exact ⟨hmatch.1, by simpa using hmatch.2, isText_iff.mp hcode⟩
          · cases hrejected
      · simp only at h
        split at h
        · cases h
          exact ⟨rfl, rfl, fun e he hrejected => by cases he; cases hrejected⟩
        · split at h
          · next hcreated =>
              cases h
              refine ⟨rfl, rfl, fun e he hrejected => ?_⟩
              cases he
              rw [selectCreated_error hcreated] at hrejected
              cases hrejected
          · next hcreated =>
              cases h
              obtain ⟨hhanded, hdispatched⟩ := selectCreated_spec hcreated
              exact ⟨hhanded, hdispatched, fun e he => by cases he⟩

theorem keepEvent_spec {frame : Value} (h : keepEvent frame remote = .ok after) :
    after.handed = remote.handed ∧ after.mutationDispatched = remote.mutationDispatched ∧
      after.failed = remote.failed := by
  obtain ⟨-, -, h⟩ := bind_eq_ok.mp h
  obtain ⟨-, -, h⟩ := bind_eq_ok.mp h
  obtain ⟨-, -, h⟩ := bind_eq_ok.mp h
  cases h
  exact ⟨rfl, rfl, rfl⟩

theorem keepEvent_error {frame : Value} (h : keepEvent frame remote = .error e) :
    e.isRejected = false := by
  simp only [keepEvent, ensure] at h
  split at h
  · simp only [ok_bind] at h
    split at h
    · simp only [ok_bind] at h
      split at h
      · cases h
      · cases h
        rfl
    · cases h
      rfl
  · cases h
    rfl

/-- While it waits for the reply, the connection hands nothing to the writer. -/
theorem awaitReply_spec {result : Except RemoteError Value}
    (h : awaitReply id method expected received remote = (result, after)) :
    after.handed = remote.handed ∧ after.mutationDispatched = remote.mutationDispatched ∧
    ∀ e, result = .error e → e.isRejected = true → Rejected id received := by
  induction received generalizing remote with
  | nil =>
      cases h
      exact ⟨rfl, rfl, fun e he hrejected => by cases he; cases hrejected⟩
  | cons next rest ih =>
      cases next with
      | broken message =>
          cases h
          exact ⟨rfl, rfl, fun e he hrejected => by cases he; cases hrejected⟩
      | frame frame =>
          rw [awaitReply] at h
          split at h
          · cases h
            exact ⟨rfl, rfl, fun e he hrejected => by cases he; cases hrejected⟩
          · split at h
            · obtain ⟨hhanded, hdispatched, hreply⟩ := readResponse_spec h
              refine ⟨hhanded, hdispatched, fun e he hrejected => ?_⟩
              obtain ⟨hid, hresult, hcode⟩ := hreply e he hrejected
              exact ⟨[], frame, rest, rfl, by simp, hid, hresult, hcode⟩
            · next hid =>
                split at h
                · next hkeep =>
                    cases h
                    refine ⟨rfl, rfl, fun e he hrejected => ?_⟩
                    cases he
                    rw [keepEvent_error hkeep] at hrejected
                    cases hrejected
                · next hkeep =>
                    obtain ⟨hhanded, hdispatched, hreply⟩ := ih h
                    obtain ⟨hhanded', hdispatched', -⟩ := keepEvent_spec hkeep
                    refine ⟨hhanded.trans hhanded', hdispatched.trans hdispatched',
                      fun e he hrejected => ?_⟩
                    obtain ⟨events, reply, later, hreceived, hevents, hfields⟩ :=
                      hreply e he hrejected
                    refine ⟨frame :: events, reply, later, by rw [hreceived]; rfl, ?_, hfields⟩
                    intro event hevent
                    rcases List.mem_cons.mp hevent with rfl | hevent
                    · simpa using hid
                    · exact hevents event hevent

/-- A request is not handed to the writer, or it is, and then a mutation is dispatched. -/
theorem writeRequest_spec {result : Except RemoteError Unit}
    (h : writeRequest wire request method remote = (result, after)) :
    (after = remote ∧ ∃ message, result = .error (.failed message)) ∨
    (after.handed = remote.handed ++ [request] ∧ after.mutationDispatched = mutates method ∧
      ∀ e, result = .error e → e.isRejected = false) := by
  rw [writeRequest] at h
  split at h
  · cases h
    exact .inl ⟨rfl, _, rfl⟩
  · split at h
    · cases h
      exact .inl ⟨rfl, _, rfl⟩
    · split at h
      · cases h
        exact .inl ⟨rfl, _, rfl⟩
      · refine .inr ?_
        simp only at h
        split at h
        · cases h
          exact ⟨rfl, rfl, fun e he => by cases he⟩
        · cases h
          exact ⟨rfl, rfl, fun e he => by cases he; rfl⟩
        · cases h
          exact ⟨rfl, rfl, fun e he => by cases he; rfl⟩

theorem selectOpened_handed : (selectOpened request method remote).handed = remote.handed := by
  rw [selectOpened]
  split <;> rfl

theorem validateRequest_ok (h : remote.validateRequest request = .ok (id, method)) :
    request["id"] = .string id ∧ request["method"] = .string method := by
  obtain ⟨id', hid, h⟩ := bind_eq_ok.mp h
  obtain ⟨-, -, h⟩ := bind_eq_ok.mp h
  obtain ⟨method', hmethod, h⟩ := bind_eq_ok.mp h
  obtain ⟨-, -, h⟩ := bind_eq_ok.mp h
  obtain ⟨-, -, h⟩ := bind_eq_ok.mp h
  obtain ⟨-, -, h⟩ := bind_eq_ok.mp h
  cases h
  exact ⟨Value.asStr_eq_some.mp (context_eq_ok.mp hid),
    Value.asStr_eq_some.mp (context_eq_ok.mp hmethod)⟩

/-- What an exchange does: the request is not handed to the writer, or it is, and then an error of
it is a rejection only if the reply to it says so. -/
theorem exchange_spec {result : Except RemoteError Value}
    (hmethod : request["method"] = .string method)
    (h : exchange wire request remote = (result, after)) :
    after.handed = remote.handed ∨
    (after.handed = remote.handed ++ [request] ∧ after.mutationDispatched = mutates method ∧
      ∀ e, result = .error e → e.isRejected = true →
        ∃ id, request["id"] = .string id ∧ Rejected id wire.received) := by
  rw [exchange] at h
  split at h
  · cases h
    exact .inl rfl
  · next id method' hvalid =>
      obtain ⟨hid, hmethod'⟩ := validateRequest_ok hvalid
      rw [hmethod] at hmethod'
      cases hmethod'
      split at h
      · next hwrite =>
          cases h
          rcases writeRequest_spec hwrite with ⟨rfl, -⟩ | ⟨hhanded, hdispatched, hrejected⟩
          · exact .inl selectOpened_handed
          · refine .inr ⟨by rw [hhanded, selectOpened_handed], hdispatched, ?_⟩
            intro e he hrejected'
            cases he
            rw [hrejected _ rfl] at hrejected'
            cases hrejected'
      · next hwrite =>
          rcases writeRequest_spec hwrite with ⟨-, message, herror⟩ | ⟨hhanded, hdispatched, -⟩
          · cases herror
          · obtain ⟨hhanded', hdispatched', hreply⟩ := awaitReply_spec h
            refine .inr ⟨by rw [hhanded', hhanded, selectOpened_handed],
              hdispatched'.trans hdispatched, ?_⟩
            intro e he hrejected
            exact ⟨id, hid, hreply e he hrejected⟩

/-- An error of a mutation that is not `outcomeUnknown` says that the request was not handed to the
writer, or that the reply rejected it before dispatch. -/
theorem request_error (hmethod : request["method"] = .string method)
    (hmutates : mutates method = true) (h : remote.request wire request = (.error e, after))
    (hknown : e ≠ .outcomeUnknown) :
    after.handed = remote.handed ∨
      ∃ id, request["id"] = .string id ∧ Rejected id wire.received := by
  rw [Remote.request] at h
  split at h
  · cases h
    exact .inl rfl
  · split at h
    · cases h
    · next e' remote' hexchange =>
        rcases exchange_spec hmethod hexchange with hhanded | ⟨-, hdispatched, hrejected⟩
        · left
          simp only at h
          split at h
          · cases h
            exact hhanded
          · cases h
            exact hhanded
        · right
          simp only [hdispatched, hmutates, Bool.true_and] at h
          split at h
          · cases h
            exact absurd rfl hknown
          · next hrej =>
              exact hrejected e' rfl (by simpa using hrej)

/-! ### Runs -/

/-- What is done with a connection. -/
inductive Op where
  | request (wire : Wire) (request : Value)
  | poll (wire : Wire) (disconnected : Bool)

def Op.apply (remote : Remote) : Op → Remote
  | .request wire request => (remote.request wire request).2
  | .poll wire disconnected => (remote.poll wire disconnected).2

theorem requireRoute_of_failed (h : remote.failed = true) :
    remote.requireRoute wire =
      .error (.failed "Reconnect to this machine before continuing") := by
  rw [requireRoute, h]
  rfl

/-- A connection that failed stays as it is. -/
theorem apply_of_failed (h : remote.failed = true) (op : Op) : op.apply remote = remote := by
  cases op with
  | request wire request => rw [Op.apply, Remote.request, requireRoute_of_failed h]
  | poll wire disconnected => rw [Op.apply, Remote.poll, requireRoute_of_failed h]

theorem run_of_failed (h : remote.failed = true) (ops : List Op) :
    ops.foldl Op.apply remote = remote := by
  induction ops with
  | nil => rfl
  | cons op ops ih => rw [List.foldl_cons, apply_of_failed h, ih]

/-- An exchange that fails is the last. -/
theorem request_failed (hroute : remote.requireRoute wire = .ok ())
    (h : (remote.request wire request).1 = .error e) :
    (remote.request wire request).2.failed = true := by
  rw [Remote.request, hroute] at h ⊢
  simp only at h ⊢
  split
  · next hexchange =>
      rw [hexchange] at h
      cases h
  · split <;> rfl

end Remote

/-! ### The relay -/

/-- What happens while a connection is made. -/
structure Connecting where
  /-- `get_fleet_node` -/
  stored : Except String (Option FleetNode)
  /-- The process of the connection is started. -/
  spawned : Except String Unit
  helloId : String
  hello : Wire

/-- `configured_node` -/
def configuredNode (stored : Except String (Option FleetNode)) (nodeId : String) :
    Except RemoteError FleetNode := do
  let _ ← context (.failed "invalid UUID") (Uuid.canonical nodeId)
  let stored ← stored.mapError .failed
  let node ← context (.failed "Machine is no longer connected to this board") stored
  ensure (node.nodeId = nodeId && node.status ≠ "quarantined")
    (.failed "Verify this machine's identity on the computer before connecting")
  return node

/-- The request that begins a connection. -/
def helloRequest (id : String) : Value :=
  .object [("id", .string id), ("method", .string "hello"), ("params", .object []),
    ("v", .number (.posInt 1))]

/-- `connect` -/
def connect (connecting : Connecting) (nodeId : String) : Except RemoteError Remote := do
  let node ← configuredNode connecting.stored nodeId
  connecting.spawned.mapError .failed
  let remote : Remote := ⟨node, true, [], none, false, false, []⟩
  let (hello, remote) := remote.request connecting.hello (helloRequest connecting.helloId)
  let hello ← hello
  ensure (isText hello["nodeId"] nodeId && (hello["capabilities"]["board"].asBool.getD false))
    (.failed "The remote machine's Pika identity changed; nothing was opened")
  return remote

/-- A request of a telephone. -/
structure MobileRequest where
  v : Nat
  id : String
  method : String
  params : Value

/-- The request that is forwarded. -/
def MobileRequest.value (request : MobileRequest) : Value :=
  .object [("id", .string request.id), ("method", .string request.method),
    ("params", request.params), ("v", .number (.posInt request.v))]

/-- What the relay reads and writes of a handler; the selections are of any types. -/
structure Handler (α β γ : Type) where
  node : String
  remote : Option Remote
  selected : Option α
  nativeSelected : Option β
  historySelection : Option γ

section Relay

variable {α β γ : Type}

/-- The methods that are relayed. -/
def isRelayed (method : String) : Bool :=
  method ∈ ["conversation/open", "conversation/acknowledge", "conversation/history",
    "conversation/send", "conversation/answer", "conversation/approve", "conversation/receipt",
    "conversation/requestStatus", "conversation/candidates", "conversation/adopt",
    "conversation/create", "conversation/controls", "conversation/model", "projects/list"]

/-- The other machine that a request is for. -/
def relayTarget (handler : Handler α β γ) (request : MobileRequest) : Option String :=
  if isRelayed request.method then
    (request.params["identity"]["nodeId"].asStr.or request.params["nodeId"].asStr).filter
      (· ≠ handler.node)
  else none

/-- The connection to a machine: the one there is, or a new one. -/
def connectedTo (handler : Handler α β γ) (connecting : Connecting) (node : String) :
    Except RemoteError Remote :=
  match handler.remote.filter fun remote => remote.node.nodeId = node with
  | some remote => .ok remote
  | none => connect connecting node

/-- What is answered when it is not known whether a mutation was delivered. -/
def unknownReply (request : MobileRequest) : Value :=
  .object [
    ("clientMessageId", request.params["clientMessageId"]),
    ("clientOperationId",
      (request.params.get? "clientOperationId").getD (.string request.id)),
    ("identity", request.params["identity"]),
    ("message", .string
      "Remote receipt was lost after dispatch; reconcile the original operation ID before retrying"),
    ("state", .string "unknown")]

/-- `relay` -/
def relay (connecting : Connecting) (wire : Wire) (request : MobileRequest)
    (handler : Handler α β γ) : Except RemoteError (Option Value) × Handler α β γ :=
  match relayTarget handler request with
  | none => (.ok none, handler)
  | some node =>
      if (Uuid.canonical node).isNone then (.error (.failed "invalid UUID"), handler)
      else
        match connectedTo handler connecting node with
        | .error e => (.error e, handler)
        | .ok remote =>
            match remote.request wire request.value with
            | (.error .outcomeUnknown, remote) =>
                (.ok (some (unknownReply request)), { handler with remote := some remote })
            | (.error e, remote) => (.error e, { handler with remote := some remote })
            | (.ok result, remote) =>
                let handler := { handler with remote := some remote }
                (.ok (some result),
                  if request.method = "conversation/open" ∨
                      request.method = "conversation/create" then
                    { handler with
                      selected := none, nativeSelected := none, historySelection := none }
                  else handler)

/-- A mutation that the relay reports as failed was not handed to the writer of its connection, or
was rejected before dispatch by the reply to it; and an exchange that failed is the last thing that
is written to its connection. -/
theorem relay_honest :
    (∀ (wire : Wire) (request : Value) (remote after : Remote) (method : String) (e : RemoteError),
      request["method"] = .string method → mutates method = true →
      remote.request wire request = (.error e, after) → e ≠ .outcomeUnknown →
      after.handed = remote.handed ∨
        ∃ id, request["id"] = .string id ∧ Remote.Rejected id wire.received) ∧
    (∀ (connecting : Connecting) (wire : Wire) (request : MobileRequest)
        (handler after : Handler α β γ) (e : RemoteError),
      mutates request.method = true →
      relay connecting wire request handler = (.error e, after) →
      after = handler ∨ ∃ before remote node,
        connectedTo handler connecting node = .ok before ∧ after.remote = some remote ∧
        (remote.handed = before.handed ∨ Remote.Rejected request.id wire.received)) ∧
    ∀ (wire : Wire) (request : Value) (remote : Remote) (e : RemoteError) (ops : List Remote.Op),
      remote.requireRoute wire = .ok () → (remote.request wire request).1 = .error e →
      (ops.foldl Remote.Op.apply (remote.request wire request).2).handed =
        (remote.request wire request).2.handed := by
  refine ⟨?_, ?_, ?_⟩
  · intro wire request remote after method e hmethod hmutates h hknown
    exact Remote.request_error hmethod hmutates h hknown
  · intro connecting wire request handler after e hmutates h
    rw [relay] at h
    split at h
    · cases h
    · next node htarget =>
        split at h
        · cases h
          exact .inl rfl
        · split at h
          · cases h
            exact .inl rfl
          · next before hbefore =>
              split at h
              · cases h
              · next e' remote hknown hrequest =>
                  cases h
                  refine .inr ⟨before, remote, node, hbefore, rfl, ?_⟩
                  have hmethod : request.value["method"] = .string request.method := rfl
                  rcases Remote.request_error hmethod hmutates hrequest
                    (fun he => hknown he) with hhanded | ⟨id, hid, hrejected⟩
                  · exact .inl hhanded
                  · cases hid
                    exact .inr hrejected
              · cases h
  · intro wire request remote e ops hroute h
    rw [Remote.run_of_failed (Remote.request_failed hroute h)]

/-- A connection to a machine. -/
def sampleRemote : Remote :=
  ⟨⟨"1b4e28ba-2fa1-11d2-883f-0016d3cca427", "host", "ready"⟩, true, [], none, false, false, []⟩

/-- A reply that rejects a request. -/
def sampleWire (id : String) : Wire where
  stored := .ok (some sampleRemote.node)
  accepts := true
  written := .done
  received := [.frame (.object [
    ("error", .object [("code", .string "rejected_before_dispatch")]),
    ("id", .string id), ("v", .number (.posInt 1))])]

def sampleRequest (id : String) : Value :=
  .object [("id", .string id), ("method", .string "conversation/send"), ("params", .object []),
    ("v", .number (.posInt 1))]

theorem relay_honest_rejected :
    (sampleRemote.request (sampleWire sampleRemote.node.nodeId)
      (sampleRequest sampleRemote.node.nodeId)).2.handed = [] ∨
    ∃ id, (sampleRequest sampleRemote.node.nodeId)["id"] = .string id ∧
      Remote.Rejected id (sampleWire sampleRemote.node.nodeId).received := by
  have hrequest : (sampleRemote.request (sampleWire sampleRemote.node.nodeId)
      (sampleRequest sampleRemote.node.nodeId)).1 =
        .error (.rejectedBeforeDispatch "Remote request was rejected before dispatch") := by
    rfl
  exact (relay_honest (α := Unit) (β := Unit) (γ := Unit)).1 _ _ _ _ "conversation/send" _ rfl
    (by decide) (Prod.ext hrequest rfl) (by simp)

end Relay

end Pikamux.Mobile
