import Mathlib.Data.Nat.Bitwise
import Pikamux.Client.Messages
import Pikamux.Support.History

/-!
# Client — Bridge

The bridge of a client, which launches a window for a request that a paired board sends, and keeps
the receipt for a minute under the id of the request.

* `handle_step` — what a request does: it is refused, answered by the receipt that is kept, fails to
  launch, or launches a window whose receipt is kept.
* `kept` — in a run, a receipt is there until its time is over.
* `deduplicated` — so an id launches one window in that time, for one identity.
-/

namespace Pikamux.Client

open Support Json

/-- In nanoseconds. -/
def receiptCacheTtl : Nat := 60 * 10 ^ 9

def clientConfigVersion : Nat := 1

structure ClientNode where
  nodeId : String
  nodeAlias : String
  sshTarget : String
  token : String
  remotePort : Option Nat
  /-- A board chosen on this client may route to its fleet. -/
  allowFleetRelay : Bool

structure ClientConfig where
  version : Nat
  clientId : String
  nodes : Table String ClientNode

def validateNode (rawKey : String) (node : ClientNode) : Except ClientBridgeError Unit := do
  let key ← canonicalUuidStr rawKey "Invalid node identity"
  let nodeId ← canonicalUuidStr node.nodeId "Invalid node identity"
  ensure (key == rawKey && nodeId == node.nodeId && key == nodeId)
    (invalid "Pika client node identity is inconsistent")
  let _ ← clientAlias node.nodeAlias
  let _ ← sshTargetValue node.sshTarget
  let _ ← bridgeTokenStr node.token
  match node.remotePort with
  | none => return ()
  | some port =>
      let _ ← validatePort port "Invalid reverse bridge port"
      return ()

def validateClientConfig (config : ClientConfig) : Except ClientBridgeError Unit := do
  ensure (config.version == clientConfigVersion) (invalid "Unsupported Pika client configuration")
  let clientId ← canonicalUuidStr config.clientId "Invalid client identity"
  ensure (clientId == config.clientId) (invalid "Client identity must use canonical UUID form")
  config.nodes.rows.forM fun row => validateNode row.1 row.2

/-! ### Commands -/

def shellQuote (value : String) : String :=
  "\x27" ++ String.ofList (value.toList.flatMap fun c =>
    if c = '\x27' then "\x27\"\x27\"\x27".toList else [c]) ++ "\x27"

def remotePikaCommand (arguments : List String) : Except ClientBridgeError String := do
  ensure (arguments.all fun argument => decide (argument.utf8ByteSize ≤ 1024) &&
      argument.toList.all fun c => ! ['\r', '\n', '\x00'].contains c)
    (invalid "Unsafe remote command argument")
  let quoted := String.intercalate " " (arguments.map shellQuote)
  return "if command -v pika >/dev/null 2>&1; then exec pika " ++ quoted ++
    "; else exec \"$HOME/.local/bin/pika\" " ++ quoted ++ "; fi"

def windowsTerminalCommand (node : ClientNode) (provider : Provider)
    (sessionId terminalExecutable sshExecutable : String) :
    Except ClientBridgeError (List String) := do
  let exactSessionId ← conversationIdentity provider sessionId
  let exactNodeId ← canonicalUuidStr node.nodeId "Invalid node identity"
  let _ ← clientAlias node.nodeAlias
  let _ ← sshTargetValue node.sshTarget
  ensure (terminalExecutable != "" && sshExecutable != "")
    (invalid "Client bridge executable is missing")
  let remote ← remotePikaCommand
    ["_fleet-open", "--expected-node-id", exactNodeId, "--provider", provider.text, "--session-id",
      exactSessionId]
  return [terminalExecutable, "-w", "new", "new-tab", "--title",
    "Pika · " ++ node.nodeAlias ++ " · " ++ provider.text ++ "-" ++ shortened exactSessionId 8,
    sshExecutable, "-tt", "-o", "ClearAllForwardings=yes", "-o", "RemoteCommand=none",
    node.sshTarget, remote]

def windowsFleetTerminalCommand (source : ClientNode) (targetNodeId : String) (provider : Provider)
    (sessionId terminalExecutable sshExecutable : String) :
    Except ClientBridgeError (List String) := do
  ensure source.allowFleetRelay (rejected "Fleet routing is not enabled for this board")
  let target ← canonicalUuidStr targetNodeId "Invalid target node identity"
  let command ← windowsTerminalCommand source provider sessionId terminalExecutable sshExecutable
  let exactSessionId ← conversationIdentity provider sessionId
  let remote ← remotePikaCommand
    ["_client-fleet-open", "--expected-node-id", source.nodeId, "--provider", provider.text,
      "--session-id", exactSessionId, "--target-node-id", target]
  return command.dropLast ++ [remote]

/-! ### The bridge -/

structure LaunchIdentity where
  clientId : String
  sourceNodeId : String
  targetNodeId : String
  provider : Provider
  sessionId : String
  deriving DecidableEq, Repr

def LaunchRequest.identity (request : LaunchRequest) : LaunchIdentity :=
  ⟨request.clientId, request.sourceNodeId, request.targetNodeId, request.provider,
    request.sessionId⟩

structure CachedReceipt where
  createdAt : Nat
  identity : LaunchIdentity
  receipt : ClientLaunchReceipt

structure ClientLaunchBridge where
  clientId : String
  nodes : Table String ClientNode
  terminalExecutable : String
  sshExecutable : String
  receipts : Table String CachedReceipt := ∅

/-- `constant_time_eq` -/
def constantTimeEq (left right : List UInt8) : Bool :=
  (List.range (max left.length right.length)).foldl
    (fun difference index =>
      difference ||| (left.getD index 0 ^^^ right.getD index 0).toNat)
    (left.length ^^^ right.length) == 0

/-- A window that was launched. -/
structure Window where
  request : LaunchRequest
  argv : List String

/-- The reply to a request, and the window that was launched for it. -/
structure Handled where
  reply : Except ClientBridgeError Value
  window : Option Window := none

def ping : Value :=
  .object [("protocol", .string bridgeProtocol), ("type", .string "ping"),
    ("version", .number (.posInt bridgeVersion))]

def pong : Value :=
  .object [("protocol", .string bridgeProtocol), ("type", .string "pong"),
    ("version", .number (.posInt bridgeVersion))]

namespace ClientLaunchBridge

def new? (config : ClientConfig) (terminalExecutable sshExecutable : String) :
    Except ClientBridgeError ClientLaunchBridge := do
  validateClientConfig config
  return { clientId := config.clientId, nodes := config.nodes, terminalExecutable, sshExecutable }

variable (bridge : ClientLaunchBridge)

def reload (config : ClientConfig) : Except ClientBridgeError ClientLaunchBridge := do
  validateClientConfig config
  ensure (config.clientId == bridge.clientId)
    (rejected "Client identity changed while bridge was running")
  return { bridge with nodes := config.nodes }

/-- A request with its board, and with its target where that is paired too. -/
def check (value : Value) :
    Except ClientBridgeError (LaunchRequest × ClientNode × Option ClientNode) := do
  let request ← validateLaunchRequest value
  ensure (request.clientId == bridge.clientId)
    (rejected "Client identity does not match this bridge")
  let source ← context (rejected "Source Pika node is not paired with this bridge")
    (bridge.nodes.get? request.sourceNodeId)
  ensure (constantTimeEq source.token.toUTF8.data.toList request.token.toUTF8.data.toList)
    (rejected "Source Pika node is not paired with this bridge")
  let target := bridge.nodes.get? request.targetNodeId
  ensure (target.isSome || source.allowFleetRelay)
    (rejected "Target Pika node is not paired on this client")
  return (request, source, target)

/-- The receipts whose time is not over. -/
def retain (now : Nat) : ClientLaunchBridge :=
  { bridge with
    receipts := bridge.receipts.delete fun _ receipt =>
      ! decide (now - receipt.createdAt < receiptCacheTtl) }

def command (request : LaunchRequest) (source : ClientNode) (target : Option ClientNode) :
    Except ClientBridgeError (List String) :=
  match target with
  | some target =>
      windowsTerminalCommand target request.provider request.sessionId bridge.terminalExecutable
        bridge.sshExecutable
  | none =>
      windowsFleetTerminalCommand source request.targetNodeId request.provider request.sessionId
        bridge.terminalExecutable bridge.sshExecutable

def receiptOf (request : LaunchRequest) (source : ClientNode) (target : Option ClientNode) :
    ClientLaunchReceipt where
  messageType := "launched"
  protocol := bridgeProtocol
  version := bridgeVersion
  requestId := request.requestId
  targetNodeId := request.targetNodeId
  provider := request.provider
  sessionId := request.sessionId
  detail := "WINDOW LAUNCHED · " ++
    (match target with
      | some node => node.nodeAlias
      | none => shortened request.targetNodeId 8 ++ " via " ++ source.nodeAlias) ++
    " · id " ++ shortened request.sessionId 8

def remember (now : Nat) (request : LaunchRequest) (receipt : ClientLaunchReceipt) :
    ClientLaunchBridge :=
  { bridge with
    receipts := bridge.receipts.upsert request.requestId ⟨now, request.identity, receipt⟩ }

/-- `handle_at`, with the launcher. -/
def handleAt (launch : List String → Except ClientBridgeError Unit) (value : Value) (now : Nat) :
    Handled × ClientLaunchBridge :=
  if value.eq ping then (⟨.ok pong, none⟩, bridge)
  else
    match bridge.check value with
    | .error error => (⟨.error error, none⟩, bridge)
    | .ok (request, source, target) =>
        let bridge := bridge.retain now
        match bridge.receipts.get? request.requestId with
        | some prior =>
            if prior.identity ≠ request.identity then
              (⟨.error (rejected "Request identity changed while reusing a launch request_id"),
                none⟩, bridge)
            else (⟨.ok prior.receipt.toValue, none⟩, bridge)
        | none =>
            match bridge.command request source target with
            | .error error => (⟨.error error, none⟩, bridge)
            | .ok argv =>
                match launch argv with
                | .error error => (⟨.error error, none⟩, bridge)
                | .ok () =>
                    let receipt := receiptOf request source target
                    (⟨.ok receipt.toValue, some ⟨request, argv⟩⟩,
                      bridge.remember now request receipt)

end ClientLaunchBridge

inductive Op where
  | handle (launch : List String → Except ClientBridgeError Unit) (value : Value)
  | reload (config : ClientConfig)

/-- What is done at a time. -/
structure Call where
  now : Nat
  op : Op

def perform (c : Call) (bridge : ClientLaunchBridge) : Handled × ClientLaunchBridge :=
  match c.op with
  | .handle launch value => bridge.handleAt launch value c.now
  | .reload config =>
      match bridge.reload config with
      | .error error => (⟨.error error, none⟩, bridge)
      | .ok bridge => (⟨.ok .null, none⟩, bridge)

/-! ### Tokens -/

theorem foldl_or_eq_zero {α : Type} (f : α → Nat) (l : List α) (start : Nat) :
    l.foldl (fun difference a => difference ||| f a) start = 0 ↔ start = 0 ∧ ∀ a ∈ l, f a = 0 := by
  induction l generalizing start with
  | nil => simp
  | cons a l ih =>
      rw [List.foldl_cons, ih, Nat.or_eq_zero_iff, List.forall_mem_cons, and_assoc]

theorem constantTimeEq_iff (left right : List UInt8) :
    constantTimeEq left right = true ↔ left = right := by
  rw [constantTimeEq, beq_iff_eq, foldl_or_eq_zero]
  constructor
  · intro ⟨hlength, hbytes⟩
    refine List.ext_getElem (Nat.xor_eq_zero_iff.mp hlength) fun i hleft hright => ?_
    have hbyte := hbytes i (List.mem_range.mpr (Nat.lt_of_lt_of_le hleft (Nat.le_max_left _ _)))
    rw [List.getD_eq_getElem _ _ hleft, List.getD_eq_getElem _ _ hright] at hbyte
    exact UInt8.xor_eq_zero_iff.mp (UInt8.toNat_inj.mp hbyte)
  · intro h
    subst h
    simp

/-- The token that is stored is the one that is presented. -/
theorem token_eq {stored presented : String}
    (h : constantTimeEq stored.toUTF8.data.toList presented.toUTF8.data.toList = true) :
    stored = presented := by
  have hbytes := (constantTimeEq_iff _ _).mp h
  exact String.toByteArray_inj.mp (ByteArray.ext (Array.toList_inj.mp hbytes))

/-! ### Requests -/

section Handle

variable {bridge : ClientLaunchBridge} {value : Value} {request : LaunchRequest} {now : Nat}
  {launch : List String → Except ClientBridgeError Unit}

/-- A board that is paired presents its token. -/
structure Admitted (bridge : ClientLaunchBridge) (value : Value) (request : LaunchRequest) :
    Prop where
  read : validateLaunchRequest value = .ok request
  client : request.clientId = bridge.clientId
  source : ∃ node, bridge.nodes.get? request.sourceNodeId = some node ∧
    node.token = request.token ∧
      ((bridge.nodes.get? request.targetNodeId).isSome ∨ node.allowFleetRelay = true)

theorem check_ok {source : ClientNode} {target : Option ClientNode}
    (h : bridge.check value = .ok (request, source, target)) : Admitted bridge value request := by
  obtain ⟨read, hread, h⟩ := bind_eq_ok.mp h
  obtain ⟨_, hclient, h⟩ := bind_eq_ok.mp h
  obtain ⟨node, hnode, h⟩ := bind_eq_ok.mp h
  obtain ⟨_, htoken, h⟩ := bind_eq_ok.mp h
  obtain ⟨_, htarget, h⟩ := bind_eq_ok.mp h
  rw [pure_eq_ok] at h
  cases h
  rw [ensure_eq_ok] at hclient htoken htarget
  rw [context_eq_ok] at hnode
  exact ⟨hread, by simpa using hclient, source, hnode, token_eq htoken, by simpa using htarget⟩

theorem Admitted.checked (h : Admitted bridge value request) :
    ∃ source target, bridge.check value = .ok (request, source, target) := by
  obtain ⟨node, hnode, htoken, htarget⟩ := h.source
  refine ⟨node, bridge.nodes.get? request.targetNodeId, ?_⟩
  have hsame := (constantTimeEq_iff _ request.token.toUTF8.data.toList).mpr rfl
  rw [← Bool.or_eq_true] at htarget
  simp only [ClientLaunchBridge.check, h.read, ok_bind, h.client, beq_self_eq_true, ensure_true,
    hnode, context_some, htoken, hsame, htarget]
  rfl

theorem keys_of_eqFields {fields other : List (String × Value)}
    (h : Value.eqFields fields other = true) : fields.map Prod.fst = other.map Prod.fst := by
  induction fields generalizing other with
  | nil =>
      cases other with
      | nil => rfl
      | cons f other => cases h
  | cons f fields ih =>
      cases other with
      | nil => cases h
      | cons g other =>
          simp only [Value.eqFields, Bool.and_eq_true, beq_iff_eq] at h
          rw [List.map_cons, List.map_cons, h.1.1, ih h.2]

/-- A ping is no request. -/
theorem not_admitted_ping (h : value.eq ping = true) : ¬ Admitted bridge value request := by
  intro hadmitted
  cases value with
  | object fields =>
      have hkeys : fields.map Prod.fst = ["protocol", "type", "version"] := keys_of_eqFields h
      have hnone : fields.lookup "request_id" = none := by
        rw [List.lookup_eq_none_iff]
        intro f hf
        have hmem : f.1 ∈ fields.map Prod.fst := List.mem_map_of_mem hf
        rw [hkeys] at hmem
        simp only [List.mem_cons, List.not_mem_nil, or_false] at hmem
        rcases hmem with hkey | hkey | hkey <;> simp [hkey]
      have hrecord : record LaunchRequest.names (.object fields) = none := by
        rw [record]
        by_cases hnames : (fields.all fun f => LaunchRequest.names.contains f.1) = true
        · rw [if_pos hnames]
          simp [LaunchRequest.names, hnone]
        · rw [if_neg hnames]
      obtain ⟨read, hread, -⟩ := bind_eq_ok.mp hadmitted.read
      rw [context_eq_ok, LaunchRequest.ofValue?, hrecord] at hread
      cases hread
  | _ => cases h

/-- What a request does. -/
inductive HandleStep (bridge : ClientLaunchBridge) (value : Value) (now : Nat) :
    Handled × ClientLaunchBridge → Prop where
  | refused {reply : Except ClientBridgeError Value}
      (refused : ∀ request, ¬ Admitted bridge value request) :
      HandleStep bridge value now (⟨reply, none⟩, bridge)
  | changed {request : LaunchRequest} {prior : CachedReceipt} {message : String}
      (admitted : Admitted bridge value request)
      (kept : (bridge.retain now).receipts.get? request.requestId = some prior)
      (other : prior.identity ≠ request.identity) :
      HandleStep bridge value now (⟨.error (rejected message), none⟩, bridge.retain now)
  | replayed {request : LaunchRequest} {prior : CachedReceipt}
      (admitted : Admitted bridge value request)
      (kept : (bridge.retain now).receipts.get? request.requestId = some prior)
      (same : prior.identity = request.identity) :
      HandleStep bridge value now (⟨.ok prior.receipt.toValue, none⟩, bridge.retain now)
  | failed {request : LaunchRequest} {error : ClientBridgeError}
      (admitted : Admitted bridge value request)
      (new : (bridge.retain now).receipts.get? request.requestId = none) :
      HandleStep bridge value now (⟨.error error, none⟩, bridge.retain now)
  | launched {request : LaunchRequest} {argv : List String} {receipt : ClientLaunchReceipt}
      (admitted : Admitted bridge value request)
      (new : (bridge.retain now).receipts.get? request.requestId = none) :
      HandleStep bridge value now (⟨.ok receipt.toValue, some ⟨request, argv⟩⟩,
        (bridge.retain now).remember now request receipt)

theorem handle_step (bridge : ClientLaunchBridge) (value : Value) (now : Nat)
    (launch : List String → Except ClientBridgeError Unit) :
    HandleStep bridge value now (bridge.handleAt launch value now) := by
  rw [ClientLaunchBridge.handleAt]
  by_cases hping : value.eq ping = true
  · rw [if_pos hping]
    exact .refused fun _ => not_admitted_ping hping
  rw [if_neg hping]
  cases hcheck : bridge.check value with
  | error error =>
      refine .refused fun request hadmitted => ?_
      obtain ⟨source, target, hok⟩ := hadmitted.checked
      rw [hcheck] at hok
      cases hok
  | ok admitted =>
      obtain ⟨request, source, target⟩ := admitted
      have hadmitted := check_ok hcheck
      simp only
      cases hprior : (bridge.retain now).receipts.get? request.requestId with
      | some prior =>
          simp only
          by_cases hidentity : prior.identity = request.identity
          · rw [if_neg (not_not.mpr hidentity)]
            exact .replayed hadmitted hprior hidentity
          · rw [if_pos hidentity]
            exact .changed hadmitted hprior hidentity
      | none =>
          simp only
          cases (bridge.retain now).command request source target with
          | error error => exact .failed hadmitted hprior
          | ok argv =>
              simp only
              cases launch argv with
              | error error => exact .failed hadmitted hprior
              | ok _ => exact .launched hadmitted hprior

end Handle

/-! ### Runs -/

section Runs

abbrev Made := Entry ClientLaunchBridge Call Handled

variable {start bridge : ClientLaunchBridge} {entries pre post : List Made} {e : Made}

/-- The receipt of the window `w`, launched at `now`. -/
structure Receipt (now : Nat) (w : Window) (reply : Except ClientBridgeError Value)
    (cached : CachedReceipt) : Prop where
  createdAt : cached.createdAt = now
  identity : cached.identity = w.request.identity
  reply : reply = .ok cached.receipt.toValue

/-- The receipt of each window is there, unless its time was over at a later call. -/
def Kept (entries : List Made) (bridge : ClientLaunchBridge) : Prop :=
  ∀ pre e post w, entries = pre ++ e :: post → e.result.window = some w →
    (∃ cached, bridge.receipts.get? w.request.requestId = some cached ∧
      Receipt e.call.now w e.result.reply cached) ∨
    ∃ later ∈ post, e.call.now + receiptCacheTtl ≤ later.call.now

theorem retain_kept {id : String} {cached : CachedReceipt} (now : Nat)
    (h : bridge.receipts.get? id = some cached) :
    (bridge.retain now).receipts.get? id = some cached ∨
      cached.createdAt + receiptCacheTtl ≤ now := by
  by_cases hlate : cached.createdAt + receiptCacheTtl ≤ now
  · exact .inr hlate
  · have hpositive : 0 < receiptCacheTtl := by decide
    refine .inl (Table.get?_delete.mpr ⟨h, ?_⟩)
    simp only [Bool.not_eq_false', decide_eq_true_eq]
    omega

/-- A receipt stays until its time is over. -/
theorem perform_kept {id : String} {cached : CachedReceipt} (c : Call)
    (h : bridge.receipts.get? id = some cached) :
    (perform c bridge).2.receipts.get? id = some cached ∨
      cached.createdAt + receiptCacheTtl ≤ c.now := by
  obtain ⟨now, op⟩ := c
  cases op with
  | reload config =>
      refine .inl ?_
      rw [perform]
      simp only
      cases hreload : bridge.reload config with
      | error error => exact h
      | ok changed =>
          obtain ⟨_, -, hreload⟩ := bind_eq_ok.mp hreload
          obtain ⟨_, -, hreload⟩ := bind_eq_ok.mp hreload
          rw [pure_eq_ok] at hreload
          subst hreload
          exact h
  | handle launch value =>
      have hstep := handle_step bridge value now launch
      rw [perform]
      simp only
      generalize bridge.handleAt launch value now = r at hstep
      cases hstep with
      | refused refused => exact .inl h
      | changed admitted kept other => exact retain_kept now h
      | replayed admitted kept same => exact retain_kept now h
      | failed admitted new => exact retain_kept now h
      | @launched request argv receipt admitted new =>
          rcases retain_kept now h with hkept | hlate
          · refine .inl ?_
            have hother : id ≠ request.requestId := by
              intro hid
              rw [hid, new] at hkept
              cases hkept
            rw [ClientLaunchBridge.remember, Table.get?_upsert, if_neg hother]
            exact hkept
          · exact .inr hlate

/-- The receipt of a window is kept. -/
theorem perform_receipt {c : Call} {w : Window} (h : (perform c bridge).1.window = some w) :
    ∃ cached, (perform c bridge).2.receipts.get? w.request.requestId = some cached ∧
      Receipt c.now w (perform c bridge).1.reply cached := by
  obtain ⟨now, op⟩ := c
  cases op with
  | reload config =>
      rw [perform] at h
      simp only at h
      cases hreload : bridge.reload config with
      | error error => simp [hreload] at h
      | ok changed => simp [hreload] at h
  | handle launch value =>
      have hstep := handle_step bridge value now launch
      rw [perform] at h ⊢
      simp only at h ⊢
      generalize bridge.handleAt launch value now = r at hstep h
      cases hstep with
      | refused refused => cases h
      | changed admitted kept other => cases h
      | replayed admitted kept same => cases h
      | failed admitted new => cases h
      | @launched request argv receipt admitted new =>
          cases h
          refine ⟨⟨now, request.identity, receipt⟩, ?_, rfl, rfl, rfl⟩
          rw [ClientLaunchBridge.remember, Table.get?_upsert, if_pos rfl]

theorem Kept.call (h : Kept entries bridge) (c : Call) :
    Kept (entries ++ [⟨bridge, c, (perform c bridge).1⟩]) (perform c bridge).2 := by
  intro pre e post w hentries hwindow
  rcases List.eq_nil_or_concat post with rfl | ⟨post, last, rfl⟩
  · obtain ⟨rfl, he⟩ := List.append_inj' hentries rfl
    cases he
    exact .inl (perform_receipt hwindow)
  · rw [List.concat_eq_append, ← List.cons_append, ← List.append_assoc] at hentries
    obtain ⟨rfl, he⟩ := List.append_inj' hentries rfl
    cases he
    rw [List.concat_eq_append]
    rcases h pre e post w rfl hwindow with ⟨cached, hcached, hreceipt⟩ | ⟨later, hlater, hlate⟩
    · rcases perform_kept c hcached with hkept | hlate
      · exact .inl ⟨cached, hkept, hreceipt⟩
      · rw [hreceipt.createdAt] at hlate
        exact .inr ⟨_, List.mem_append_right _ (List.mem_singleton_self _), hlate⟩
    · exact .inr ⟨later, List.mem_append_left _ hlater, hlate⟩

theorem kept (h : History perform NoDrift start entries bridge) : Kept entries bridge := by
  refine h.invariant_entries Kept (fun pre e post w hentries => ?_) (fun _ _ c _ h => h.call c)
    fun es u u' _ => NoDrift.keeps (Kept es) u u'
  simp at hentries

/-- What an id is used for. -/
structure Deduplicated (pre : List Made) (e : Made) : Prop where
  /-- A window is launched for a board that is paired and presents its token. -/
  admitted : ∀ w, e.result.window = some w → ∃ launch value,
    e.call.op = .handle launch value ∧ Admitted e.before value w.request
  /-- The time of the receipt of an earlier window is over. -/
  once : ∀ w, e.result.window = some w → ∀ e' ∈ pre, ∀ w', e'.result.window = some w' →
    w'.request.requestId = w.request.requestId → e'.call.now + receiptCacheTtl ≤ e.call.now
  /-- Before that, the id has the identity of the window and gives its receipt. -/
  identity : ∀ launch value request, e.call.op = .handle launch value →
    Admitted e.before value request → ∀ e' ∈ pre, ∀ w', e'.result.window = some w' →
      w'.request.requestId = request.requestId → e.call.now < e'.call.now + receiptCacheTtl →
        if w'.request.identity = request.identity then e.result.reply = e'.result.reply
        else ∃ message, e.result.reply = .error (rejected message)

theorem Admitted.unique {value : Value} {request other : LaunchRequest}
    (h : Admitted bridge value request) (h' : Admitted bridge value other) : request = other := by
  have hread := h.read
  rw [h'.read] at hread
  cases hread
  rfl

/-- The receipt of an earlier window is there, or its time is over. -/
theorem receipt_before (h : Kept pre bridge) {e' : Made} {w' : Window} {now : Nat} (he' : e' ∈ pre)
    (hwindow : e'.result.window = some w') (htimes : ∀ a ∈ pre, a.call.now ≤ now) :
    (∃ cached, (bridge.retain now).receipts.get? w'.request.requestId = some cached ∧
      Receipt e'.call.now w' e'.result.reply cached) ∨
    e'.call.now + receiptCacheTtl ≤ now := by
  obtain ⟨before, after, rfl⟩ := List.append_of_mem he'
  rcases h before e' after w' rfl hwindow with ⟨cached, hcached, hreceipt⟩ | ⟨later, hlater, hlate⟩
  · rcases retain_kept now hcached with hkept | hlate
    · exact .inl ⟨cached, hkept, hreceipt⟩
    · rw [hreceipt.createdAt] at hlate
      exact .inr hlate
  · have hle := htimes later (List.mem_append_right _ (List.mem_cons_of_mem _ hlater))
    exact .inr (hlate.trans hle)

theorem deduplicated (h : History perform NoDrift start (pre ++ e :: post) bridge)
    (htimes : (pre ++ e :: post).Pairwise fun a b => a.call.now ≤ b.call.now) :
    Deduplicated pre e := by
  obtain ⟨hpre, hresult, -⟩ := h.split
  have hkept := kept hpre
  have hbefore : ∀ a ∈ pre, a.call.now ≤ e.call.now := fun a ha =>
    (List.pairwise_append.mp htimes).2.2 a ha e List.mem_cons_self
  obtain ⟨before, ⟨now, op⟩, result⟩ := e
  obtain rfl : result = (perform ⟨now, op⟩ before).1 := hresult
  cases op with
  | reload config =>
      have hnone : (perform ⟨now, .reload config⟩ before).1.window = none := by
        rw [perform]
        simp only
        cases before.reload config with
        | error error => rfl
        | ok changed => rfl
      refine ⟨fun w hwindow => ?_, fun w hwindow => ?_, nofun⟩
      · rw [hnone] at hwindow
        cases hwindow
      · rw [hnone] at hwindow
        cases hwindow
  | handle launch value =>
      have hstep := handle_step before value now launch
      have hperform : perform ⟨now, .handle launch value⟩ before =
          before.handleAt launch value now := rfl
      rw [hperform]
      generalize before.handleAt launch value now = r at hstep
      refine ⟨fun w hwindow => ?_, fun w hwindow e' he' w' hwindow' hid => ?_,
        fun launch' value' request hop hadmitted e' he' w' hwindow' hid hnow => ?_⟩
      · cases hstep with
        | launched admitted new =>
            cases hwindow
            exact ⟨launch, value, rfl, admitted⟩
        | _ => cases hwindow
      · cases hstep with
        | launched admitted new =>
            cases hwindow
            rcases receipt_before hkept he' hwindow' hbefore with ⟨cached, hcached, -⟩ | hlate
            · rw [hid, new] at hcached
              cases hcached
            · exact hlate
        | _ => cases hwindow
      · cases hop
        rcases receipt_before hkept he' hwindow' hbefore with ⟨cached, hcached, hreceipt⟩ | hlate
        · rw [hid] at hcached
          cases hstep with
          | refused refused => exact absurd hadmitted (refused request)
          | changed admitted kept other =>
              rw [admitted.unique hadmitted, hcached] at kept
              cases kept
              rw [admitted.unique hadmitted, hreceipt.identity] at other
              rw [if_neg other]
              exact ⟨_, rfl⟩
          | replayed admitted kept same =>
              rw [admitted.unique hadmitted, hcached] at kept
              cases kept
              rw [admitted.unique hadmitted, hreceipt.identity] at same
              rw [if_pos same]
              exact hreceipt.reply.symm
          | failed admitted new =>
              rw [admitted.unique hadmitted, hcached] at new
              cases new
          | launched admitted new =>
              rw [admitted.unique hadmitted, hcached] at new
              cases new
        · exact absurd hnow (Nat.not_lt.mpr hlate)

end Runs

end Pikamux.Client
