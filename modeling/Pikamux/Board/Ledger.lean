import Pikamux.Board.Status
import Pikamux.Json.Text

/-!
# Board — Ledger

`store.rs`: the tables that the board is kept in, as far as hooks and reconciliation read and write
them, and the operations of a `ReconcileLedger`.  All of them run inside one transaction.
-/

namespace Pikamux

/-- `Provider::as_str`. -/
def Provider.text : Provider → String
  | codex => "codex"
  | claude => "claude"
  | opencode => "opencode"
  | muse => "muse"

end Pikamux

namespace Pikamux.Board

open Support

/-- A conversation of a provider. -/
abbrev SessionKey := Provider × String

/-- A session as it is read and written. -/
structure Session where
  provider : Provider
  sessionId : String
  activeThreadId : Option String := none
  name : Option String := none
  cwd : Option String := none
  branch : Option String := none
  transcriptPath : Option String := none
  tmuxSession : Option String := none
  tmuxPane : Option String := none
  rootPid : Option Int := none
  status : Status := .parked
  unread : Bool := false
  model : Option String := none
  source : String := "managed"
  managed : Bool := true
  error : Option String := none
  attentionReason : Option String := none
  createdAt : Int
  updatedAt : Int
  lastEventAt : Int
  lastActivityAt : Int
  deriving DecidableEq, Repr

/-- A row of `live_owners`, by its conversation, `pid` and `owner_token`. -/
structure LiveOwner where
  startTime : Option Int
  lastSeen : Int
  deriving DecidableEq, Repr

/-- A row of `identity_interruptions`. -/
structure Interruption where
  status : Status
  unread : Bool
  attentionReason : Option String
  error : Option String
  lastEventAt : Int
  deriving DecidableEq, Repr

/-- A row of `session_events`, by its conversation, time and status. -/
structure SessionEvent where
  attentionReason : Option String
  error : Option String
  deriving DecidableEq, Repr

/-- A row of `hook_observations`. -/
structure HookObservation where
  fingerprint : String
  eventName : String
  sessionId : String
  observedAt : Int
  source : Option String
  managed : Bool
  deriving DecidableEq, Repr

/-- A row of `pending_launches`, as far as hooks outside of a launch read it. -/
structure PendingLaunch where
  tmuxPane : Option String
  createdAt : Int
  deriving DecidableEq, Repr

structure Ledger where
  sessions : Table SessionKey Session := ∅
  observations : Table (SessionKey × ObservationKind) StatusObservation := ∅
  liveOwners : Table (SessionKey × Int × String) LiveOwner := ∅
  untracked : Table SessionKey Int := ∅
  interruptions : Table SessionKey Interruption := ∅
  sessionEvents : Table (SessionKey × Int × Status) SessionEvent := ∅
  hookObservations : Table Provider HookObservation := ∅
  pendingLaunches : Table String PendingLaunch := ∅
  launchBindings : Table String SessionKey := ∅
  recoveryOwners : Table SessionKey String := ∅
  metas : Table String String := ∅

def Session.key (session : Session) : SessionKey := (session.provider, session.sessionId)

/-- The active thread of the session is this one. -/
def ofThread (provider : Provider) (threadId : String) (key : SessionKey) (row : Session) : Bool :=
  key.1 = provider && row.activeThreadId = some threadId

/-- Statuses that ask for attention while unread. -/
def actionable : Status → Bool
  | .needsYou | .ready | .error | .openTwice => true
  | _ => false

namespace Ledger

/-! ### Reading -/

def isUntracked (ledger : Ledger) (key : SessionKey) : Bool := ledger.untracked.contains key

def getSession (ledger : Ledger) (key : SessionKey) : Option Session :=
  (ledger.sessions.get? key).map fun row => { row with provider := key.1, sessionId := key.2 }

/-- The session with this identifier, or else one whose active thread has it. -/
def getSessionByThread (ledger : Ledger) (provider : Provider) (threadId : String) :
    Option Session :=
  (ledger.getSession (provider, threadId)).or do
    let (key, _) ← ledger.sessions.find? (ofThread provider threadId)
    ledger.getSession key

def statusObservations (ledger : Ledger) (key : SessionKey) : List StatusObservation :=
  [.lifecycle, .runtime, .safety].filterMap fun kind =>
    (ledger.observations.get? (key, kind)).map fun item => { item with kind }

/-- The owners of a conversation. -/
def owners (ledger : Ledger) (key : SessionKey) : List ((Int × String) × LiveOwner) :=
  (ledger.liveOwners.rows.filter fun row => row.1.1 = key).map fun row => (row.1.2, row.2)

def findPendingForPane (ledger : Ledger) (pane : String) : Option String :=
  (newest (fun row : String × PendingLaunch => row.2.createdAt) none
    (ledger.pendingLaunches.rows.filter fun row => row.2.tmuxPane = some pane)).map Prod.fst

/-- `json_array`. -/
def attachedText (key : SessionKey) : String :=
  (Json.Value.array [.string key.1.text, .string key.2]).toText

/-- `WATCH_EVIDENCE` -/
def watchEvidence (ledger : Ledger) (key : SessionKey) (row : Session) : Bool :=
  row.managed ||
    ledger.metas.contains ("tracking-choice:" ++ key.1.text ++ ":" ++ key.2) ||
    ledger.launchBindings.any (fun _ bound => bound = key) ||
    ledger.metas.any fun name value =>
      name ∈ ["last_attached", "previous_attached"] && value = attachedText key

def isWatched (ledger : Ledger) (key : SessionKey) : Bool :=
  match ledger.getSession key with
  | none => false
  | some row => ledger.watchEvidence key row && !ledger.isUntracked key

/-! ### Writing -/

def setMeta (ledger : Ledger) (name value : String) : Ledger :=
  { ledger with metas := ledger.metas.upsert name value }

def recordHookObservation (ledger : Ledger) (provider : Provider) (observation : HookObservation) :
    Ledger :=
  { ledger with
    hookObservations :=
      ledger.hookObservations.refresh HookObservation.observedAt provider observation }

def recordStatusObservation (ledger : Ledger) (key : SessionKey) (item : StatusObservation) :
    Ledger :=
  { ledger with
    observations :=
      ledger.observations.refresh StatusObservation.observedAt (key, item.kind) item }

def clearStatusObservationObservedThrough (ledger : Ledger) (key : SessionKey)
    (kind : ObservationKind) (observedAt : Int) : Ledger :=
  { ledger with
    observations := ledger.observations.delete fun k item =>
      k = (key, kind) && item.observedAt ≤ observedAt }

def setLiveOwner (ledger : Ledger) (key : SessionKey) (pid : Int) (ownerToken : String)
    (owner : LiveOwner) : Ledger :=
  if ledger.isUntracked key then ledger
  else
    { ledger with
      liveOwners := ledger.liveOwners.refresh LiveOwner.lastSeen (key, pid, ownerToken) owner }

def deleteLiveOwners (ledger : Ledger) (key : SessionKey) : Ledger :=
  { ledger with liveOwners := ledger.liveOwners.delete fun k _ => k.1 = key }

/-- Of all processes, or of one with its token. -/
def deleteLiveOwnersObservedThrough (ledger : Ledger) (key : SessionKey)
    (process : Option (Int × String)) (observedAt : Int) : Ledger :=
  { ledger with
    liveOwners := ledger.liveOwners.delete fun k owner =>
      k.1 = key && process.all (k.2 = ·) && owner.lastSeen ≤ observedAt }

def deleteOtherLiveOwnerSessions (ledger : Ledger) (provider : Provider) (pid : Int)
    (keepSessionId : String) : Ledger :=
  { ledger with
    liveOwners := ledger.liveOwners.delete fun k _ =>
      k.1.1 = provider && k.2.1 = pid && k.1.2 ≠ keepSessionId }

def deleteRecoveryOwner (ledger : Ledger) (key : SessionKey) : Ledger :=
  { ledger with recoveryOwners := ledger.recoveryOwners.delete fun k _ => k = key }

def clearSharedRootPid (ledger : Ledger) (key : SessionKey) (sharedPid : Int) : Ledger :=
  { ledger with
    sessions := ledger.sessions.modify key fun row =>
      if row.rootPid = some sharedPid then { row with rootPid := none } else row }

/-- The live owners are deleted too. -/
def deleteSession (ledger : Ledger) (key : SessionKey) : Ledger :=
  { ledger with
    sessionEvents := ledger.sessionEvents.delete fun k _ => k.1 = key
    observations := ledger.observations.delete fun k _ => k.1 = key
    interruptions := ledger.interruptions.delete fun k _ => k = key
    recoveryOwners := ledger.recoveryOwners.delete fun k _ => k = key
    liveOwners := ledger.liveOwners.delete fun k _ => k.1 = key
    launchBindings := ledger.launchBindings.delete fun _ bound => bound = key
    sessions := ledger.sessions.delete fun k _ => k = key }

def captureIdentityInterruption (ledger : Ledger) (key : SessionKey) : Ledger :=
  match ledger.getSession key with
  | none => ledger
  | some row =>
      { ledger with
        interruptions := ledger.interruptions.insertOrIgnore key
          { status := row.status
            unread := row.unread
            attentionReason := row.attentionReason
            error := row.error
            lastEventAt := row.lastEventAt }
        observations := ledger.observations.insertOrIgnore (key, .lifecycle)
          { kind := .lifecycle
            status := row.status
            unread := row.unread
            attentionReason := row.attentionReason
            error := row.error
            observedAt := row.lastEventAt
            source := "identity-interruption" } }

end Ledger

/-! ### `upsert_session_tx` -/

def nonzeroOr (value fallback : Int) : Int := if value = 0 then fallback else value

def Session.identity (session : Session) : Bool :=
  session.status ∈ [.error, .openTwice] && session.attentionReason = some "identity"

def initialObservationKind (session : Session) : ObservationKind :=
  if session.identity then .safety
  else if session.status = .error ∧ session.attentionReason = some "exited" then .runtime
  else .lifecycle

def becameActionable (existing : Option Session) (session : Session) : Bool :=
  session.unread && actionable session.status && existing.all fun row =>
    !(row.unread && row.status = session.status &&
      row.attentionReason = session.attentionReason && row.error = session.error)

/-- The times that are written, at the time `clock`. -/
def Session.stamped (session : Session) (clock : Int) : Session :=
  { session with
    createdAt := nonzeroOr session.createdAt clock
    updatedAt := clock
    lastEventAt := nonzeroOr session.lastEventAt clock
    lastActivityAt := nonzeroOr session.lastActivityAt (nonzeroOr session.updatedAt clock) }

/-- `ON CONFLICT(provider,session_id) DO UPDATE SET` -/
def Session.onConflict (row session : Session) : Session :=
  { row with
    activeThreadId := session.activeThreadId.or row.activeThreadId
    name := session.name.or row.name
    cwd := session.cwd.or row.cwd
    branch := session.branch.or row.branch
    transcriptPath := session.transcriptPath.or row.transcriptPath
    tmuxSession := session.tmuxSession.or row.tmuxSession
    tmuxPane := session.tmuxPane.or row.tmuxPane
    rootPid := session.rootPid.or row.rootPid
    status := session.status
    unread := session.unread
    model := session.model.or row.model
    source := session.source
    managed := row.managed || session.managed
    error := session.error
    attentionReason := session.attentionReason
    updatedAt := session.updatedAt
    lastEventAt := max row.lastEventAt session.lastEventAt
    lastActivityAt := max row.lastActivityAt session.lastActivityAt }

def Ledger.upsertSession (ledger : Ledger) (clock : Int) (session : Session)
    (preserveName : Bool) : Ledger :=
  let key := session.key
  if ledger.isUntracked key then ledger
  else
    let existing := ledger.getSession key
    let kept := (existing.bind Session.name).filter (· ≠ "")
    let name := if preserveName then kept.or session.name else session.name
    let row := { session.stamped clock with name }
    { ledger with
      interruptions :=
        if session.identity then ledger.interruptions
        else ledger.interruptions.modify key fun _ =>
          { status := row.status
            unread := row.unread
            attentionReason := row.attentionReason
            error := row.error
            lastEventAt := row.lastEventAt }
      sessions := ledger.sessions.upsert key ((ledger.sessions.get? key).elim row (·.onConflict row))
      observations := ledger.observations.insertOrIgnore (key, initialObservationKind session)
        { kind := initialObservationKind session
          status := row.status
          unread := row.unread
          attentionReason := row.attentionReason
          error := row.error
          observedAt := row.lastEventAt
          source := "initial" }
      sessionEvents :=
        if becameActionable existing session then
          ledger.sessionEvents.insertOrIgnore (key, row.lastEventAt, row.status)
            { attentionReason := row.attentionReason, error := row.error }
        else ledger.sessionEvents }

end Pikamux.Board
