import Pikamux.Model
import Pikamux.Support.History
import Pikamux.Support.Table

/-!
# Launch — Pending

A launch that is under way has a row in `pending_launches` and up to three rows in `meta`, under
its token: its phase, the owner of its wrapper, and the receipt that the wrapper left when it
exited.  A dozen calls write and delete these rows, each in a transaction of its own.

A time is a number that is not a NaN.  A NaN that a caller passes is `none`: it is stored as a
null, so a row is refused whose time must not be null, and it compares with nothing.  In the text
of a receipt a time that is not finite is a null, which does not read back.

* `PendingLaunchExit.decode_encode` — a receipt reads back when its times are finite.
-/

namespace Pikamux.Launch

open Support

/-- The numbers a time can be, and which of them are finite. -/
class Timestamp (τ : Type) extends LinearOrder τ, Zero τ where
  finite : τ → Bool

/-! ### The rows -/

/-- `PendingLaunch`, with times in `ν`. -/
structure PendingLaunch (ν : Type) where
  launchToken : String
  provider : Provider
  name : String
  cwd : String
  tmuxSession : Option String
  tmuxPane : Option String
  expectedSessionId : Option String
  rootPid : Option Int
  rootPidStart : Option Int
  preexistingSessionIds : Option (List String)
  candidateSessionId : Option String
  candidateObservedAt : Option ν
  createdAt : ν
  deriving DecidableEq

structure PendingLaunchExit (ν : Type) where
  provider : Provider
  pendingCreatedAt : ν
  code : Int
  observedAt : ν
  deriving DecidableEq

structure PendingLaunchWrapperOwner (ν : Type) where
  provider : Provider
  pendingCreatedAt : ν
  ownerToken : String
  deriving DecidableEq

/-- A receipt and an owner are stored as texts, in which a time is a number or a null. -/
abbrev ExitText (τ : Type) := PendingLaunchExit (Option τ)

abbrev OwnerText (τ : Type) := PendingLaunchWrapperOwner (Option τ)

structure PendingLaunchRetirementSnapshot (τ : Type) where
  pending : PendingLaunch τ
  phase : Option String
  exitRaw : Option (ExitText τ)
  wrapperOwner : Option (OwnerText τ)
  binding : Option (Provider × String)
  authenticatedExit : Option (PendingLaunchExit τ)
  deriving DecidableEq

inductive LaunchPhase where
  | reserved
  | paneAllocated
  | panePrepared
  | providerStarting
  | providerObserved
  deriving DecidableEq, Repr

def LaunchPhase.asStr : LaunchPhase → String
  | .reserved => "reserved"
  | .paneAllocated => "pane_allocated"
  | .panePrepared => "pane_prepared"
  | .providerStarting => "provider_starting"
  | .providerObserved => "provider_observed"

structure LaunchBinding (τ : Type) where
  provider : Provider
  sessionId : String
  createdAt : τ

structure RecoveryOwner (τ : Type) where
  pid : Int
  startTime : Int
  launchToken : String
  createdAt : τ

structure RetiredLaunch (τ : Type) where
  snapshot : PendingLaunchRetirementSnapshot τ
  retiredAt : τ
  reason : String

/-- The tables that the calls read and write.  Of the sessions and of the choices not to track one
only the identities matter here. -/
structure Store (τ : Type) where
  pendingLaunches : Table String (PendingLaunch τ) := ∅
  launchPhase : Table String String := ∅
  pendingLaunchExit : Table String (ExitText τ) := ∅
  pendingLaunchWrapperOwner : Table String (OwnerText τ) := ∅
  retiredPendingLaunch : Table String (RetiredLaunch τ) := ∅
  launchBindings : Table String (LaunchBinding τ) := ∅
  recoveryOwners : Table (Provider × String) (RecoveryOwner τ) := ∅
  untracked : List (Provider × String) := []
  sessions : List (Provider × String) := []

/-! ### The keys in `meta` -/

inductive MetaKind where
  | launchPhase
  | pendingLaunchExit
  | pendingLaunchWrapperOwner
  | retiredPending
  deriving DecidableEq

def MetaKind.start : MetaKind → String
  | .launchPhase => "launch_phase:"
  | .pendingLaunchExit => "pending_launch_exit:"
  | .pendingLaunchWrapperOwner => "pending_launch_wrapper_owner:"
  | .retiredPending => "retired_pending_launch:"

def key (kind : MetaKind) (launchToken : String) : String := kind.start ++ launchToken

def launchPhaseKey : String → String := key .launchPhase

def pendingLaunchExitKey : String → String := key .pendingLaunchExit

def pendingLaunchWrapperOwnerKey : String → String := key .pendingLaunchWrapperOwner

def retiredPendingKey : String → String := key .retiredPending

variable {τ : Type} [Timestamp τ]

open Timestamp

/-! ### Times in a text -/

/-- A time as JSON has it. -/
def encodeTime (t : τ) : Option τ := if finite t then some t else none

def PendingLaunchExit.encode (receipt : PendingLaunchExit τ) : ExitText τ :=
  { receipt with
    pendingCreatedAt := encodeTime receipt.pendingCreatedAt
    observedAt := encodeTime receipt.observedAt }

/-- Reading a text fails at a null. -/
def PendingLaunchExit.decode (encoded : ExitText τ) : Option (PendingLaunchExit τ) := do
  let pendingCreatedAt ← encoded.pendingCreatedAt
  let observedAt ← encoded.observedAt
  return { encoded with pendingCreatedAt, observedAt }

def PendingLaunchWrapperOwner.encode (owner : PendingLaunchWrapperOwner τ) : OwnerText τ :=
  { owner with pendingCreatedAt := encodeTime owner.pendingCreatedAt }

def PendingLaunchWrapperOwner.decode (encoded : OwnerText τ) :
    Option (PendingLaunchWrapperOwner τ) := do
  let pendingCreatedAt ← encoded.pendingCreatedAt
  return { encoded with pendingCreatedAt }

theorem PendingLaunchExit.decode_encode {receipt read : PendingLaunchExit τ} :
    decode receipt.encode = some read ↔
      finite receipt.pendingCreatedAt = true ∧ finite receipt.observedAt = true ∧
        read = receipt := by
  obtain ⟨provider, createdAt, code, observedAt⟩ := receipt
  simp only [decode, encode, encodeTime]
  by_cases hc : finite createdAt <;> by_cases ho : finite observedAt <;>
    simp [hc, ho, eq_comm (b := read)]

theorem PendingLaunchWrapperOwner.decode_encode {owner read : PendingLaunchWrapperOwner τ} :
    decode owner.encode = some read ↔ finite owner.pendingCreatedAt = true ∧ read = owner := by
  obtain ⟨provider, createdAt, ownerToken⟩ := owner
  simp only [decode, encode, encodeTime]
  by_cases hc : finite createdAt <;> simp [hc, eq_comm (b := read)]

/-! ### Reading -/

def Store.launchBinding (store : Store τ) (launchToken : String) : Option (Provider × String) :=
  (store.launchBindings.get? launchToken).map fun binding => (binding.provider, binding.sessionId)

def Store.getPending (store : Store τ) (launchToken : String) : Option (PendingLaunch τ) :=
  store.pendingLaunches.get? launchToken

def Store.getPendingExit (store : Store τ) (launchToken : String) :
    Option (PendingLaunchExit τ) := do
  let pending ← store.getPending launchToken
  let encoded ← store.pendingLaunchExit.get? launchToken
  let receipt ← PendingLaunchExit.decode encoded
  if receipt.provider = pending.provider ∧ receipt.pendingCreatedAt = pending.createdAt ∧
      finite receipt.observedAt ∧ pending.createdAt ≤ receipt.observedAt then some receipt else none

/-! ### Matching a receipt -/

def pendingExitBindingMatches (pending : PendingLaunch τ) (provider : Provider)
    (reportedSessionId : Option String) (binding : Option (Provider × String)) : Bool :=
  match binding with
  | some (boundProvider, id) =>
      boundProvider = provider && pending.expectedSessionId.all (· = id) &&
        reportedSessionId.all (· = id)
  | none => pending.expectedSessionId.isNone && reportedSessionId.isNone

def pendingExitOwnerMatches (owner : PendingLaunchWrapperOwner τ) (pending : PendingLaunch τ)
    (provider : Provider) (ownerToken : Option String) : Bool :=
  owner.provider = provider && owner.pendingCreatedAt = pending.createdAt &&
    ownerToken = some owner.ownerToken

/-- The phases in which the wrapper runs its provider. -/
def running (phase : Option String) : Bool :=
  phase = some "provider_starting" || phase = some "provider_observed"

def authenticatedPendingExit (pending : PendingLaunch τ) (phase : Option String)
    (exitRaw : Option (ExitText τ)) (ownerRaw : Option (OwnerText τ))
    (binding : Option (Provider × String)) : Option (PendingLaunchExit τ) := do
  if !running phase then none else
    let exit ← exitRaw.bind PendingLaunchExit.decode
    let owner ← ownerRaw.bind PendingLaunchWrapperOwner.decode
    if !pendingExitOwnerMatches owner pending pending.provider (some owner.ownerToken) ||
        !pendingExitBindingMatches pending pending.provider none binding ||
        exit.provider ≠ pending.provider || exit.pendingCreatedAt ≠ pending.createdAt ||
        !finite exit.observedAt || exit.observedAt < pending.createdAt then none
    else some exit

def Store.pendingRetirementState (store : Store τ) (launchToken : String) :
    Option (PendingLaunchRetirementSnapshot τ) := do
  let pending ← store.getPending launchToken
  let phase := store.launchPhase.get? launchToken
  let exitRaw := store.pendingLaunchExit.get? launchToken
  let wrapperOwner := store.pendingLaunchWrapperOwner.get? launchToken
  let binding := store.launchBinding launchToken
  let authenticatedExit := authenticatedPendingExit pending phase exitRaw wrapperOwner binding
  return { pending, phase, exitRaw, wrapperOwner, binding, authenticatedExit }

/-! ### The calls -/

/-- Phase, receipt and owner go together. -/
def Store.deleteLaunchMeta (store : Store τ) (launchToken : String) : Store τ :=
  { store with
    launchPhase := store.launchPhase.erase launchToken
    pendingLaunchExit := store.pendingLaunchExit.erase launchToken
    pendingLaunchWrapperOwner := store.pendingLaunchWrapperOwner.erase launchToken }

def Store.putLaunchPhase (store : Store τ) (launchToken : String) (phase : LaunchPhase) : Store τ :=
  { store with launchPhase := store.launchPhase.upsert launchToken phase.asStr }

/-- `COLLATE NOCASE` -/
def sameName (a b : String) : Bool := a.toList.map Char.toLower = b.toList.map Char.toLower

def nonzeroOr (value : Option τ) (fallback : τ) : Option τ :=
  if value = some 0 then some fallback else value

/-- `ON CONFLICT(launch_token) DO UPDATE` -/
def PendingLaunch.conflict (existing excluded : PendingLaunch τ) : PendingLaunch τ :=
  { existing with
    tmuxSession := excluded.tmuxSession.or existing.tmuxSession
    tmuxPane := excluded.tmuxPane.or existing.tmuxPane
    expectedSessionId := excluded.expectedSessionId.or existing.expectedSessionId
    rootPid := excluded.rootPid.or existing.rootPid
    rootPidStart := excluded.rootPidStart.or existing.rootPidStart
    preexistingSessionIds := excluded.preexistingSessionIds.or existing.preexistingSessionIds }

/-- `None` when the database refuses the row. -/
def addPending (pending : PendingLaunch (Option τ)) (now : τ) (store : Store τ) :
    Option (Bool × Store τ) :=
  let competing := store.pendingLaunches.any fun launchToken row =>
    row.provider = pending.provider && sameName row.name pending.name &&
      launchToken ≠ pending.launchToken
  if competing then some (false, store)
  else do
    let createdAt ← nonzeroOr pending.createdAt now
    let excluded : PendingLaunch τ :=
      { pending with candidateObservedAt := pending.candidateObservedAt.join, createdAt }
    let row := match store.getPending pending.launchToken with
      | some existing => existing.conflict excluded
      | none => excluded
    let store : Store τ :=
      { store with pendingLaunches := store.pendingLaunches.upsert pending.launchToken row }
    let store := (store.deleteLaunchMeta pending.launchToken).putLaunchPhase pending.launchToken
      .reserved
    return (true, store)

def deletePendingIfCreated (launchToken : String) (createdAt : Option τ) (store : Store τ) :
    Bool × Store τ :=
  let deleted := (store.getPending launchToken).any fun row => some row.createdAt = createdAt
  if deleted then
    (true, { store with
      pendingLaunches := store.pendingLaunches.erase launchToken }.deleteLaunchMeta launchToken)
  else (false, store)

def archiveRetiredPending (snapshot : PendingLaunchRetirementSnapshot τ) (reason : String) (now : τ)
    (store : Store τ) : Store τ :=
  { store with
    retiredPendingLaunch := store.retiredPendingLaunch.upsert snapshot.pending.launchToken
      { snapshot, retiredAt := now, reason } }

/-- A snapshot was read from the store, so its times are numbers. -/
def retirePendingIfUnchanged (snapshot : PendingLaunchRetirementSnapshot τ) (reason : String)
    (now : τ) (store : Store τ) : Bool × Store τ :=
  let current := store.pendingRetirementState snapshot.pending.launchToken
  if current ≠ some snapshot then (false, store)
  else deletePendingIfCreated snapshot.pending.launchToken (some snapshot.pending.createdAt)
    (archiveRetiredPending snapshot reason now store)

/-- The phase is written whether or not the update finds a row. -/
def finalizePendingPane (launchToken tmuxSession tmuxPane : String)
    (rootPid rootPidStart : Option Int) (store : Store τ) :
    Option (Provider × String) × Store τ :=
  let binding := store.launchBinding launchToken
  let store : Store τ :=
    { store with pendingLaunches := store.pendingLaunches.modify launchToken fun row =>
        { row with tmuxSession := some tmuxSession, tmuxPane := some tmuxPane, rootPid,
                   rootPidStart } }
  (binding, store.putLaunchPhase launchToken .paneAllocated)

def setLaunchPhase (launchToken : String) (phase : LaunchPhase) (store : Store τ) :
    Bool × Store τ :=
  if (store.getPending launchToken).isSome then (true, store.putLaunchPhase launchToken phase)
  else (false, store)

def Store.putRoot (store : Store τ) (launchToken : String) (pid startTime : Int) : Store τ :=
  { store with pendingLaunches := store.pendingLaunches.modify launchToken fun row =>
      { row with rootPid := some pid, rootPidStart := some startTime } }

def observeLaunchedGeneration (launchToken : String) (pid startTime : Int) (store : Store τ) :
    Bool × Store τ :=
  if (store.getPending launchToken).isSome then
    (true, (store.putRoot launchToken pid startTime).putLaunchPhase launchToken .providerObserved)
  else (false, store)

/-- The phases before the wrapper runs its provider. -/
def preparing (phase : Option String) : Bool :=
  phase = some "reserved" || phase = some "pane_prepared"

def registerPendingWrapperOwner (launchToken ownerToken : String) (store : Store τ) :
    Bool × Store τ :=
  match store.getPending launchToken with
  | none => (false, store)
  | some pending =>
      if ownerToken = "" || 512 < ownerToken.utf8ByteSize || ownerToken.toList.contains '\x00' ||
          !preparing (store.launchPhase.get? launchToken) then (false, store)
      else match store.pendingLaunchWrapperOwner.get? launchToken with
        | some existing =>
            -- a registration is never replaced
            match PendingLaunchWrapperOwner.decode existing with
            | none => (false, store)
            | some existing =>
                (existing.provider = pending.provider &&
                  existing.pendingCreatedAt = pending.createdAt &&
                  existing.ownerToken = ownerToken, store)
        | none =>
            let wrapperOwner : PendingLaunchWrapperOwner τ :=
              { provider := pending.provider, pendingCreatedAt := pending.createdAt, ownerToken }
            (true, { store with
              pendingLaunchWrapperOwner :=
                store.pendingLaunchWrapperOwner.upsert launchToken wrapperOwner.encode })

def pendingExitRequestMatches (launchToken : String) (pending : PendingLaunch τ)
    (provider : Provider) (reportedSessionId : Option String) (observedAt : τ) (store : Store τ) :
    Bool :=
  pending.provider = provider &&
    (reportedSessionId.isNone || pending.expectedSessionId = reportedSessionId) &&
    finite observedAt && pending.createdAt ≤ observedAt &&
    running (store.launchPhase.get? launchToken)

def pendingExitIdentityIsAvailable (provider : Provider) (pending : PendingLaunch τ)
    (binding : Option (Provider × String)) (store : Store τ) : Bool :=
  match (binding.map Prod.snd).or pending.expectedSessionId with
  | none => true
  | some sessionId =>
      !store.untracked.contains (provider, sessionId) &&
        !store.sessions.contains (provider, sessionId)

/-- Whether a receipt that is there is this one; `none` where there is none. -/
def pendingExitReplayMatches (launchToken : String) (provider : Provider) (pendingCreatedAt : τ)
    (code : Int) (observedAt : τ) (store : Store τ) : Option Bool :=
  (store.pendingLaunchExit.get? launchToken).map fun encoded =>
    match PendingLaunchExit.decode encoded with
    | none => false
    | some existing =>
        existing.provider = provider && existing.pendingCreatedAt = pendingCreatedAt &&
          existing.code = code && existing.observedAt ≤ observedAt

def recordPendingLaunchExit (launchToken : String) (provider : Provider)
    (reportedSessionId ownerToken : Option String) (code : Int) (observedAt : Option τ)
    (store : Store τ) : Bool × Store τ :=
  match store.getPending launchToken, observedAt with
  | some pending, some observedAt =>
      if !pendingExitRequestMatches launchToken pending provider reportedSessionId observedAt store
      then (false, store)
      else match (store.pendingLaunchWrapperOwner.get? launchToken).bind
          PendingLaunchWrapperOwner.decode with
        | none => (false, store)
        | some wrapperOwner =>
            let binding := store.launchBinding launchToken
            if !pendingExitOwnerMatches wrapperOwner pending provider ownerToken ||
                !pendingExitBindingMatches pending provider reportedSessionId binding ||
                !pendingExitIdentityIsAvailable provider pending binding store then (false, store)
            else match pendingExitReplayMatches launchToken provider pending.createdAt code
                observedAt store with
              | some replayed => (replayed, store)
              | none =>
                  let receipt : PendingLaunchExit τ :=
                    { provider, pendingCreatedAt := pending.createdAt, code, observedAt }
                  (true, { store with
                    pendingLaunchExit :=
                      store.pendingLaunchExit.upsert launchToken receipt.encode })
  -- no launch, or a time that is not a number
  | _, _ => (false, store)

def deletePending (launchToken : String) (store : Store τ) : Bool × Store τ :=
  let deleted := (store.getPending launchToken).isSome
  (deleted, { store with
    pendingLaunches := store.pendingLaunches.erase launchToken }.deleteLaunchMeta launchToken)

def certifyLaunch (launchToken : String) (provider : Provider) (sessionId : String)
    (pid startTime : Int) (now : τ) (store : Store τ) : Bool × Store τ :=
  if store.launchBinding launchToken ≠ some (provider, sessionId) then (false, store)
  else
    let pending := (store.getPending launchToken).map fun row =>
      (row.provider, row.rootPid, row.rootPidStart)
    if pending.any (· ≠ (provider, some pid, some startTime)) then (false, store)
    else
      let owner : RecoveryOwner τ := { pid, startTime, launchToken, createdAt := now }
      let store := { store with
        recoveryOwners := store.recoveryOwners.upsert (provider, sessionId) owner }
      (true, { store with
        pendingLaunches := store.pendingLaunches.erase launchToken }.deleteLaunchMeta launchToken)

/-- The fields of a session that a recovery reads. -/
structure Session where
  provider : Provider
  sessionId : String
  tmuxSession : Option String
  tmuxPane : Option String

def recoverConfirmedLaunch (token : String) (session : Session) (pid startTime : Int) (now : τ)
    (store : Store τ) : Bool × Store τ :=
  match store.getPending token with
  | none => (false, store)
  | some pending =>
      if pending.provider ≠ session.provider ||
          pending.expectedSessionId ≠ some session.sessionId ||
          pending.tmuxPane ≠ session.tmuxPane || pending.tmuxSession ≠ session.tmuxSession ||
          store.untracked.contains (session.provider, session.sessionId) ||
          store.launchBinding token ≠ some (session.provider, session.sessionId) ||
          !running (store.launchPhase.get? token) then (false, store)
      else certifyLaunch token session.provider session.sessionId pid startTime now
        (store.putRoot token pid startTime)

def prunePending (pendingBefore bindingBefore : Option τ) (store : Store τ) : Nat × Store τ :=
  let stale (row : PendingLaunch τ) : Bool := pendingBefore.any (row.createdAt < ·)
  let staleTokens := (store.pendingLaunches.rows.filter fun row => stale row.2).map Prod.fst
  let store : Store τ :=
    { store with pendingLaunches := store.pendingLaunches.delete fun _ row => stale row }
  let store := staleTokens.foldl Store.deleteLaunchMeta store
  (staleTokens.length, { store with
    launchBindings := store.launchBindings.delete fun _ row =>
      bindingBefore.any (row.createdAt < ·) })

/-! ### One call after another -/

inductive Call (τ : Type) where
  | addPending (pending : PendingLaunch (Option τ)) (now : τ)
  | finalizePendingPane (launchToken tmuxSession tmuxPane : String)
      (rootPid rootPidStart : Option Int)
  | setLaunchPhase (launchToken : String) (phase : LaunchPhase)
  | observeLaunchedGeneration (launchToken : String) (pid startTime : Int)
  | registerPendingWrapperOwner (launchToken ownerToken : String)
  | recordPendingLaunchExit (launchToken : String) (provider : Provider)
      (reportedSessionId ownerToken : Option String) (code : Int) (observedAt : Option τ)
  | deletePending (launchToken : String)
  | deletePendingIfCreated (launchToken : String) (createdAt : Option τ)
  | retirePendingIfUnchanged (snapshot : PendingLaunchRetirementSnapshot τ) (reason : String)
      (now : τ)
  | certifyLaunch (launchToken : String) (provider : Provider) (sessionId : String)
      (pid startTime : Int) (now : τ)
  | recoverConfirmedLaunch (token : String) (session : Session) (pid startTime : Int) (now : τ)
  | prunePending (pendingBefore bindingBefore : Option τ)

inductive Outcome where
  | failed
  | flag (value : Bool)
  | binding (value : Option (Provider × String))
  | count (value : Nat)
  deriving DecidableEq

/-- A call that fails is rolled back. -/
def perform (call : Call τ) (store : Store τ) : Outcome × Store τ :=
  let flagged (answer : Bool × Store τ) : Outcome × Store τ := (.flag answer.1, answer.2)
  match call with
  | .addPending pending now => (addPending pending now store).elim (.failed, store) flagged
  | .finalizePendingPane launchToken tmuxSession tmuxPane rootPid rootPidStart =>
      let answer := finalizePendingPane launchToken tmuxSession tmuxPane rootPid rootPidStart store
      (.binding answer.1, answer.2)
  | .setLaunchPhase launchToken phase => flagged (setLaunchPhase launchToken phase store)
  | .observeLaunchedGeneration launchToken pid startTime =>
      flagged (observeLaunchedGeneration launchToken pid startTime store)
  | .registerPendingWrapperOwner launchToken ownerToken =>
      flagged (registerPendingWrapperOwner launchToken ownerToken store)
  | .recordPendingLaunchExit launchToken provider reportedSessionId ownerToken code observedAt =>
      flagged (recordPendingLaunchExit launchToken provider reportedSessionId ownerToken code
        observedAt store)
  | .deletePending launchToken => flagged (deletePending launchToken store)
  | .deletePendingIfCreated launchToken createdAt =>
      flagged (deletePendingIfCreated launchToken createdAt store)
  | .retirePendingIfUnchanged snapshot reason now =>
      flagged (retirePendingIfUnchanged snapshot reason now store)
  | .certifyLaunch launchToken provider sessionId pid startTime now =>
      flagged (certifyLaunch launchToken provider sessionId pid startTime now store)
  | .recoverConfirmedLaunch token session pid startTime now =>
      flagged (recoverConfirmedLaunch token session pid startTime now store)
  | .prunePending pendingBefore bindingBefore =>
      let answer := prunePending pendingBefore bindingBefore store
      (.count answer.1, answer.2)

end Pikamux.Launch
