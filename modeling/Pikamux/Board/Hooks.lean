import Mathlib.Data.List.Infix
import Pikamux.Board.Ledger
import Pikamux.Support.Result

/-!
# Board — Hooks

`hooks.rs`: what a lifecycle hook of a provider does to the ledger.  The hooks here are those outside
of a launch: their environment has no `PIKA_LAUNCH_TOKEN`, so no launch is bound or certified, and
nothing is returned to the provider.  The payload is what `enrich_hook_payload` makes of it.

Everything from the first check of the tombstone to the last write is one immediate transaction.
-/

namespace Pikamux.Board

open Support

structure HookPayload where
  sessionId : String
  hookEventName : String
  cwd : Option String := none
  transcriptPath : Option String := none
  toolName : Option String := none
  notificationType : Option String := none
  error : Option String := none
  source : Option String := none
  originator : Option String := none
  entrypoint : Option String := none
  threadSource : Option String := none
  parentSessionId : Option String := none
  sessionTitle : Option String := none
  desiredName : Option String := none
  nativeNameError : Option String := none
  model : Option String := none
  deleted : Bool := false
  backgroundTasks : Nat := 0
  deriving DecidableEq, Repr

structure HookContext where
  now : Int
  ephemeral : Bool := false
  expectedProvider : Option Provider := none
  expectedSessionId : Option String := none
  desiredName : Option String := none
  ownerToken : String := ""
  ownerPid : Option Int := none
  ownerStartTime : Option Int := none
  /-- A shared Codex server reports activity, not an exclusive terminal owner. -/
  codexSharedOwner : Bool := false
  paneId : Option String := none
  paneSession : Option String := none
  paneAttached : Bool := false
  exactHomeVerified : Bool := false
  hookFingerprint : String := "native-v1"
  codexWorkerOriginators : List String := []
  opencodeWorkerTitlePrefixes : List String := []
  deriving DecidableEq, Repr

inductive HookDisposition where
  | ignored
  | ownerOnly
  | updated
  | deleted
  deriving DecidableEq, Repr

structure HookTagRequest where
  paneId : String
  provider : Provider
  sessionId : String
  name : String
  deriving DecidableEq, Repr

structure HookAlert where
  provider : Provider
  sessionId : String
  name : String
  status : Status
  attentionReason : Option String
  deriving DecidableEq, Repr

structure HookResult where
  disposition : HookDisposition
  provider : Provider
  sessionId : Option String
  status : Option Status := none
  unread : Bool := false
  reason : Option String := none
  tagRequest : Option HookTagRequest := none
  alert : Option HookAlert := none
  deriving DecidableEq, Repr

def HookResult.ignored (provider : Provider) (sessionId reason : String) : HookResult where
  disposition := .ignored
  provider
  sessionId := some sessionId
  reason := some reason

inductive HookError where
  | unsupportedEvent (provider : Provider) (event : String)
  /-- The field is empty, too long, or contains NUL. -/
  | field (key : String)
  | observationTime
  | ownerGeneration
  | exactHome
  deriving DecidableEq, Repr

/-- The machine that the hook runs on. -/
structure Host where
  canonicalize : String → Option String
  /-- `str::to_lowercase`. -/
  lowercase : String → String

def maxIdBytes : Nat := 512
def maxTextBytes : Nat := 8192

/-! ### Validation -/

def validateText (key value : String) (limit : Nat) : Except HookError Unit :=
  ensure (value ≠ "" && value.utf8ByteSize ≤ limit && !value.toList.any (·.toNat = 0)) (.field key)

def validateOptional (field : String × Option String × Nat) : Except HookError Unit :=
  match field.2.1 with
  | none => .ok ()
  | some value => validateText field.1 value field.2.2

def validEvent (provider : Provider) (event : String) : Bool :=
  event ∈ ["SessionStart", "UserPromptSubmit", "PermissionRequest", "PreToolUse", "PostToolUse",
    "Stop", "SessionEnd"] ||
  match provider with
  | .codex => false
  | .claude => event ∈ ["Notification", "StopFailure"]
  | .opencode => event ∈ ["SessionHeartbeat", "PermissionReply", "QuestionRequest",
      "QuestionReply", "StopFailure"]
  | .muse => event ∈ ["PostToolUseFailure", "Notification"]

def validatePayload (provider : Provider) (payload : HookPayload) : Except HookError Unit := do
  validateText "session_id" payload.sessionId maxIdBytes
  validateText "hook_event_name" payload.hookEventName 64
  ensure (validEvent provider payload.hookEventName)
    (.unsupportedEvent provider payload.hookEventName)
  [("cwd", payload.cwd, maxTextBytes), ("transcript_path", payload.transcriptPath, maxTextBytes),
    ("session_title", payload.sessionTitle, 2048), ("desired_name", payload.desiredName, 2048),
    ("error", payload.error, maxTextBytes)].forM validateOptional

/-- Times are finite. -/
def validateContext (context : HookContext) : Except HookError Unit := do
  ensure (0 ≤ context.now) .observationTime
  let ownerToken := if context.ownerToken = "" then none else some context.ownerToken
  [("PIKA_SESSION_ID", context.expectedSessionId, maxIdBytes),
    ("PIKA_NAME", context.desiredName, 2048), ("PIKA_OWNER_TOKEN", ownerToken, maxIdBytes),
    ("TMUX_PANE", context.paneId, 512),
    ("hook_fingerprint", some context.hookFingerprint, 512)].forM validateOptional
  ensure (context.ownerPid.all (0 < ·) && context.ownerStartTime.all (0 ≤ ·)) .ownerGeneration
  ensure (!context.exactHomeVerified || context.paneId.isSome && context.ownerPid.isSome &&
    context.ownerStartTime.isSome) .exactHome

/-! ### Events -/

/-- `PreToolUse` of the tool that asks the user. -/
def asksUser (provider : Provider) (payload : HookPayload) : Bool :=
  match provider with
  | .codex | .muse => payload.toolName = some "request_user_input"
  | .claude => payload.toolName = some "AskUserQuestion"
  | .opencode => false

def eventObservation (payload : HookPayload) (status : Status) (unread : Bool)
    (reason error : Option String) : StatusObservation where
  kind := .lifecycle
  status
  unread
  attentionReason := reason
  error
  observedAt := 0
  source := "hook:" ++ payload.hookEventName

def eventState (provider : Provider) (payload : HookPayload) : StatusObservation :=
  let observation := eventObservation payload
  let working := observation .working false none none
  let needsYou reason := observation .needsYou true (some reason) none
  let completed := observation .ready true (some "completed") none
  let failed fallback :=
    observation .error true (some "failed") (some (payload.error.getD fallback))
  match payload.hookEventName with
  | "PreToolUse" => if asksUser provider payload then needsYou "question" else working
  | "UserPromptSubmit" | "PermissionReply" | "QuestionReply" => working
  | "PermissionRequest" => needsYou "permission"
  | "QuestionRequest" => needsYou "question"
  | "Notification" =>
      match payload.notificationType with
      | some "permission_prompt" => needsYou "permission"
      | some "agent_needs_input" | some "elicitation_dialog" => needsYou "question"
      | some "agent_completed" | some "idle_prompt" => completed
      | _ => working
  | "Stop" =>
      if provider = .claude ∧ 0 < payload.backgroundTasks then working else completed
  | "StopFailure" => failed "Claude turn failed"
  | "PostToolUseFailure" => failed "Muse tool failed"
  | "SessionEnd" => observation .parked false none none
  | "SessionStart" => observation .ready false none none
  | _ => working

def eqIgnoreAsciiCase (a b : String) : Bool :=
  a.toList.map Char.toLower = b.toList.map Char.toLower

def workerOriginator (host : Host) (provider : Provider) (payload : HookPayload)
    (context : HookContext) : Option String :=
  match provider with
  | .codex =>
      if payload.source = some "exec" then some "codex-exec"
      else if payload.threadSource = some "subagent" then some "codex-subagent"
      else payload.originator.filter fun origin =>
        eqIgnoreAsciiCase origin "codex_exec" ||
          context.codexWorkerOriginators.any (eqIgnoreAsciiCase · origin)
  | .claude => if payload.entrypoint = some "sdk-cli" then some "claude-sdk-cli" else none
  | .opencode =>
      if payload.parentSessionId.isSome then some "opencode-subagent"
      else payload.sessionTitle.bind fun title =>
        context.opencodeWorkerTitlePrefixes.find? fun start =>
          (host.lowercase start).toList.isPrefixOf (host.lowercase title).toList
  | .muse => payload.parentSessionId

def opencodePlaceholderTitle (value : String) : Bool :=
  "New session - ".toList.isPrefixOf value.toList ||
    " (fork #".toList <:+: value.toList && value.toList.getLast? = some ')'

def sameOptionalPath (host : Host) (left right : Option String) : Bool :=
  match left, right with
  | some left, some right =>
      match host.canonicalize left, host.canonicalize right with
      | some left, some right => left = right
      | _, _ => left = right
  | _, _ => false

/-! ### Which session -/

/-- The first characters that take this many bytes. -/
def takeBytes : Nat → List Char → Option (List Char)
  | 0, _ => some []
  | _, [] => none
  | n, c :: cs =>
      if c.utf8Size ≤ n then (takeBytes (n - c.utf8Size) cs).map (c :: ·) else none

/-- `value.get(..8).unwrap_or(value)` -/
def short (value : String) : String := ((takeBytes 8 value.toList).map String.ofList).getD value

inductive Resolution where
  /-- The parent is working: this is a second continuation of it. -/
  | conflict (parent : Session)
  | session (canonicalId : String) (existing : Option Session)

/-- A new Codex thread may continue its parent in the same pane. -/
def continuedParent (host : Host) (ledger : Ledger) (provider : Provider) (payload : HookPayload)
    (context : HookContext) : Option Session := do
  let parentId ← payload.parentSessionId
  let parent ← if provider = .codex then ledger.getSessionByThread provider parentId else none
  if sameOptionalPath host parent.cwd payload.cwd && parent.tmuxPane = context.paneId &&
      context.paneId.isSome then
    some parent
  else none

def resolve (host : Host) (ledger : Ledger) (provider : Provider) (payload : HookPayload)
    (context : HookContext) : Resolution :=
  match ledger.getSessionByThread provider payload.sessionId with
  | some session => .session session.sessionId (some session)
  | none =>
      match continuedParent host ledger provider payload context with
      | some parent =>
          if parent.status = .working then .conflict parent
          else .session parent.sessionId (some parent)
      | none => .session payload.sessionId none

def recordLaunchConflict (ledger : Ledger) (clock : Int) (winner : Session)
    (competitorProvider : Provider) (competitorId reason : String) (observedAt : Int) : Ledger :=
  let status := if winner.provider = competitorProvider then Status.openTwice else .error
  let error := reason ++ ": " ++ winner.provider.text ++ ":" ++ short winner.sessionId ++ ", " ++
    competitorProvider.text ++ ":" ++ short competitorId
  let ledger := ledger.captureIdentityInterruption winner.key
  let ledger := ledger.recordStatusObservation winner.key
    { kind := .safety
      status
      unread := true
      attentionReason := some "identity"
      error := some error
      observedAt
      source := "launch-conflict" }
  let updated := { winner with
    status
    unread := true
    attentionReason := some "identity"
    error := some error
    lastEventAt := observedAt
    lastActivityAt := observedAt }
  ledger.upsertSession clock updated true

/-! ### Owners -/

def updateOwner (ledger : Ledger) (key : SessionKey) (payload : HookPayload)
    (context : HookContext) : Ledger :=
  match context.ownerPid with
  | none => ledger
  | some pid =>
      if payload.hookEventName = "SessionEnd" then
        ledger.deleteLiveOwnersObservedThrough key (some (pid, context.ownerToken)) context.now
      else
        let ledger :=
          if key.1 = .opencode then ledger.deleteOtherLiveOwnerSessions key.1 pid key.2 else ledger
        ledger.setLiveOwner key pid context.ownerToken
          { startTime := context.ownerStartTime, lastSeen := context.now }

/-- `SessionEnd` of a conversation that OpenCode deleted. -/
def deleteEnded (ledger : Ledger) (key : SessionKey) (now : Int) : HookResult × Ledger :=
  let ledger := ledger.deleteLiveOwnersObservedThrough key none now
  if (ledger.owners key).isEmpty then
    ({ disposition := .deleted, provider := key.1, sessionId := some key.2 },
      (ledger.deleteRecoveryOwner key).deleteSession key)
  else (.ignored key.1 key.2 "stale session deletion", ledger)

/-! ### The session row -/

/-- What is shown of a session while nothing is known of its turn. -/
def Session.displayName (session : Session) : String :=
  session.name.getD (session.provider.text ++ "-" ++ String.ofList (session.sessionId.toList.take 8))

def placeholderOf (ledger : Ledger) (provider : Provider) (context : HookContext) :
    Option Session :=
  context.paneId.bind fun pane => ledger.getSession (provider, "unbound:" ++ pane)

def requestedName (payload : HookPayload) (context : HookContext) : Option String :=
  payload.desiredName.or context.desiredName

def hookName (provider : Provider) (payload : HookPayload) (context : HookContext)
    (existing placeholder : Option Session) : Option String :=
  let requested := requestedName payload context
  let preserveRequestedName := provider = .opencode && payload.hookEventName = "SessionStart" &&
    requested.isSome && (payload.nativeNameError.isSome || payload.sessionTitle ≠ requested)
  if preserveRequestedName then requested
  else
    payload.sessionTitle.or ((existing.bind Session.name).or
      ((placeholder.bind Session.name).or context.desiredName))

/-- Why nothing but the owner of a conversation without a row is kept, if so. -/
def ownerOnlyReason (provider : Provider) (payload : HookPayload) (context : HookContext)
    (existing placeholder : Option Session) (name : Option String) : Option String :=
  if existing.isSome || placeholder.isSome || context.paneId.isSome then none
  else if provider = .opencode && (requestedName payload context).isNone &&
      name.any opencodePlaceholderTitle then
    some "provider-generated placeholder title"
  else if name.isNone then some "unnamed external conversation"
  else none

def preserveUnreadOnSessionEnd (current : Session) : Bool :=
  current.unread && current.status ≠ .openTwice &&
    !(current.status = .error && current.attentionReason = some "identity")

def hookObservation (provider : Provider) (payload : HookPayload) (context : HookContext)
    (existing : Option Session) : StatusObservation :=
  let event := eventState provider payload
  let observation :=
    if context.paneAttached && event.status = .ready then { event with unread := false } else event
  let preserved := if payload.hookEventName = "SessionEnd" then
    existing.filter preserveUnreadOnSessionEnd else none
  match preserved with
  | some current =>
      { observation with
        status := current.status
        unread := true
        attentionReason := current.attentionReason
        error := current.error
        observedAt := current.lastEventAt }
  | none => { observation with observedAt := context.now }

def hookRootPid (provider : Provider) (context : HookContext) (existing : Option Session) :
    Option Int :=
  let known := existing.bind Session.rootPid
  if provider = .codex && context.codexSharedOwner then
    known.filter fun pid => some pid ≠ context.ownerPid
  else context.ownerPid.or known

def hookSession (key : SessionKey) (payload : HookPayload) (context : HookContext)
    (existing placeholder : Option Session) (name : Option String)
    (projection : StatusProjection) : Session :=
  let managed := placeholder.isSome || existing.any Session.managed
  { provider := key.1
    sessionId := key.2
    name
    cwd := payload.cwd.or ((existing.bind Session.cwd).or (placeholder.bind Session.cwd))
    branch := existing.bind Session.branch
    transcriptPath := payload.transcriptPath.or (existing.bind Session.transcriptPath)
    tmuxSession := context.paneSession.or (existing.bind Session.tmuxSession)
    tmuxPane := context.paneId.or (existing.bind Session.tmuxPane)
    rootPid := hookRootPid key.1 context existing
    status := projection.status
    unread := projection.unread
    model := payload.model.or (existing.bind Session.model)
    source := if managed then "managed" else "external"
    managed
    error := projection.error
    attentionReason := projection.attentionReason
    createdAt := (existing.map Session.createdAt).getD context.now
    updatedAt := context.now
    lastEventAt := projection.observedAt
    lastActivityAt := context.now
    activeThreadId := if payload.sessionId ≠ key.2 then some payload.sessionId else none }

/-- Nothing of what is shown changes. -/
def Session.shows (before session : Session) : Bool :=
  before.unread && before.status = session.status &&
    before.attentionReason = session.attentionReason && before.error = session.error

/-- Record what the event says and bring the row up to date with it. -/
def observeHook (ledger : Ledger) (key : SessionKey) (payload : HookPayload)
    (context : HookContext) (existing : Option Session) (sessionLive : Bool) :
    StatusProjection × Ledger :=
  let observation := hookObservation key.1 payload context existing
  let ledger := ledger.recordStatusObservation key observation
  let ledger := if payload.hookEventName ≠ "SessionEnd" then
    ledger.clearStatusObservationObservedThrough key .runtime context.now else ledger
  (projectStatus (ledger.statusObservations key) sessionLive "unknown"
    { status := observation.status
      unread := observation.unread
      attentionReason := observation.attentionReason
      error := observation.error
      observedAt := observation.observedAt }, ledger)

def updatedResult (ledger : Ledger) (context : HookContext) (session : Session)
    (newlyActionable : Bool) : HookResult :=
  let watched := ledger.isWatched session.key
  { disposition := .updated
    provider := session.provider
    sessionId := some session.sessionId
    status := some session.status
    unread := session.unread
    reason := session.attentionReason
    tagRequest := (context.paneId.filter fun _ => watched).map fun paneId =>
      { paneId
        provider := session.provider
        sessionId := session.sessionId
        name := session.displayName }
    alert :=
      if watched && session.unread && newlyActionable && !context.paneAttached &&
          session.status ∈ [.needsYou, .ready, .error] then
        some
          { provider := session.provider
            sessionId := session.sessionId
            name := session.displayName
            status := session.status
            attentionReason := session.attentionReason }
      else none }

/-- The placeholder of the pane has become this session. -/
def replacePlaceholder (ledger : Ledger) (key : SessionKey) (placeholder : Option Session) :
    Ledger :=
  match placeholder with
  | some row => if row.sessionId ≠ key.2 then ledger.deleteSession (key.1, row.sessionId) else ledger
  | none => ledger

def handleActivity (ledger : Ledger) (clock : Int) (key : SessionKey) (payload : HookPayload)
    (context : HookContext) (existing : Option Session) (sessionLive : Bool) :
    HookResult × Ledger :=
  let placeholder := placeholderOf ledger key.1 context
  let name := hookName key.1 payload context existing placeholder
  match ownerOnlyReason key.1 payload context existing placeholder name with
  | some reason =>
      ({ disposition := .ownerOnly, provider := key.1, sessionId := some key.2,
         reason := some reason }, ledger)
  | none =>
      let (projection, ledger) := observeHook ledger key payload context existing sessionLive
      let session := hookSession key payload context existing placeholder name projection
      let newlyActionable := !existing.any (·.shows session)
      let ledger := ledger.upsertSession clock session true
      let ledger :=
        match context.ownerPid with
        | some pid =>
            if key.1 = .codex && context.codexSharedOwner then ledger.clearSharedRootPid key pid
            else ledger
        | none => ledger
      let ledger := replacePlaceholder ledger key placeholder
      (updatedResult ledger context session newlyActionable, ledger)

/-! ### The transaction -/

/-- What a hook of a tracked conversation does. -/
def handleTracked (ledger : Ledger) (clock : Int) (key : SessionKey) (payload : HookPayload)
    (context : HookContext) (existing : Option Session) : HookResult × Ledger :=
  let ledger := ledger.recordHookObservation key.1
    { fingerprint := context.hookFingerprint
      eventName := payload.hookEventName
      sessionId := payload.sessionId
      observedAt := context.now
      source := payload.source
      managed := false }
  if key.1 = .opencode ∧ payload.hookEventName = "SessionEnd" ∧ payload.deleted = true then
    deleteEnded ledger key context.now
  else
    match context.paneId.bind ledger.findPendingForPane with
    | some token =>
        -- a launch is pending in this pane, and the hook is not of it
        (.ignored key.1 key.2 "missing or wrong launch token for pane",
          if payload.hookEventName ≠ "SessionEnd" then
            ledger.setMeta ("launch_binding_error:" ++ token)
              "refused launch hook: missing or wrong PIKA_LAUNCH_TOKEN"
          else ledger)
    | none =>
        let ledger := updateOwner ledger key payload context
        if key.1 = .opencode ∧ payload.hookEventName = "SessionHeartbeat" then
          ({ disposition := .ownerOnly
             provider := key.1
             sessionId := some key.2
             status := existing.map Session.status
             unread := existing.any Session.unread }, ledger)
        else
          let sessionLive := payload.hookEventName ≠ "SessionEnd" || !(ledger.owners key).isEmpty
          handleActivity ledger clock key payload context existing sessionLive

def untrackedReason : String := "conversation is explicitly untracked"

def handleHookTransaction (host : Host) (clock : Int) (provider : Provider)
    (payload : HookPayload) (context : HookContext) (ledger : Ledger) : HookResult × Ledger :=
  if ledger.isUntracked (provider, payload.sessionId) then
    (.ignored provider payload.sessionId untrackedReason,
      ledger.deleteLiveOwners (provider, payload.sessionId))
  else if (workerOriginator host provider payload context).isSome then
    (.ignored provider payload.sessionId "subordinate automation worker",
      ledger.deleteSession (provider, payload.sessionId))
  else
    match resolve host ledger provider payload context with
    | .conflict parent =>
        (.ignored provider parent.sessionId "concurrent continuation",
          recordLaunchConflict ledger clock parent provider payload.sessionId
            "multiple active Codex continuation threads" context.now)
    | .session canonicalId existing =>
        if ledger.isUntracked (provider, canonicalId) then
          (.ignored provider canonicalId untrackedReason,
            ledger.deleteLiveOwners (provider, canonicalId))
        else handleTracked ledger clock (provider, canonicalId) payload context existing

/-- A shared server may have kept the environment of another terminal. -/
def effectiveContext (provider : Provider) (context : HookContext) : HookContext :=
  if provider = .codex ∧ context.codexSharedOwner = true then
    { context with
      expectedProvider := none
      expectedSessionId := none
      desiredName := none
      ownerToken := ""
      paneId := none
      paneSession := none
      paneAttached := false
      exactHomeVerified := false }
  else context

/-- `handle_hook`, at the time `clock`. -/
def handleHook (host : Host) (clock : Int) (provider : Provider) (payload : HookPayload)
    (context : HookContext) (ledger : Ledger) : Except HookError HookResult × Ledger :=
  match (do validatePayload provider payload; validateContext context) with
  | .error e => (.error e, ledger)
  | .ok () =>
      if context.ephemeral then
        (.ok (.ignored provider payload.sessionId "ephemeral consultation"), ledger)
      else
        let context := effectiveContext provider context
        if context.expectedProvider.any (· ≠ provider) then
          (.ok (.ignored provider payload.sessionId
            "inherited provider identity does not match"), ledger)
        else if provider ∈ [.claude, .muse] && context.expectedSessionId.any (· ≠ payload.sessionId)
        then
          (.ok (.ignored provider payload.sessionId
            "inherited conversation identity does not match"), ledger)
        else
          let (result, ledger) := handleHookTransaction host clock provider payload context ledger
          (.ok result, ledger)

end Pikamux.Board
