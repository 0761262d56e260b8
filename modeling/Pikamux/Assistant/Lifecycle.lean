import Pikamux.Channel.Operation
import Pikamux.Support.Integers
import Pikamux.Support.Table
import Pikamux.Assistant.Scope

/-!
# Assistant — Lifecycle

`assistant_lifecycle.rs`: background calls are approved by a human and spent by material roots.  A
root is reserved once, dispatched once and finished; a restart abandons what was queued and marks
what was under way unknown.  One owner opens the store, so its calls follow one another.
-/

namespace Pikamux.Lifecycle

open Support Memory

structure BackgroundConfig where
  scope : Scope
  executable : String
  maxCalls : Nat
  expiresAt : Int
  jobTimeoutSecs : Nat
  deriving DecidableEq, Repr, Inhabited

structure Saved where
  config : Option BackgroundConfig := none
  enabled : Bool := false
  paused : Bool := false
  revision : Nat := 0
  deriving DecidableEq, Repr, Inhabited

inductive Outcome where
  | completed
  | failed
  | unknown
  deriving DecidableEq, Repr, Inhabited

/-- The texts of the `state` column. -/
inductive RootState where
  | reserved
  | dispatched
  | completed
  | failed
  | unknown
  | abandoned
  | cancelled
  deriving DecidableEq, Repr, Inhabited

def Outcome.state : Outcome → RootState
  | completed => .completed
  | failed => .failed
  | unknown => .unknown

/-- A row of `assistant_background_roots`, without its id. -/
structure Reservation where
  calls : Nat
  deadline : Int
  state : RootState
  configRevision : Nat
  confirmedCalls : Option Nat := none
  deriving DecidableEq, Repr, Inhabited

/-- What a root is charged: its confirmed calls, or those it reserved. -/
def Reservation.charge (r : Reservation) : Nat := r.confirmedCalls.getD r.calls

/-- The owner's database. -/
structure Owner where
  lifetime : Option Saved := none
  roots : Table String Reservation := ∅

def loadSaved (owner : Owner) : Saved := owner.lifetime.getD { paused := true }

/-! ### Checks -/

/-- `char::is_control`. -/
def isControl (c : Char) : Bool := c.toNat ≤ 0x1f || (0x7f ≤ c.toNat && c.toNat ≤ 0x9f)

/-- The components of a path; paths are compared by them. -/
def components (path : String) : Bool × List (List Char) :=
  let parts := path.toList.splitOn '/'
  let kept := parts.filter fun part => part ≠ [] && part ≠ ['.']
  (path.toList.head? = some '/', if parts.head? = some ['.'] then ['.'] :: kept else kept)

def isAbsolute (path : String) : Bool := (components path).1

def human (origin : Origin) : Except String Unit :=
  ensure (origin = .human)
    "Only explicit human input may change background approval or lifecycle"

def validateScope (scope : Scope) : Except String Unit :=
  ensure (scope.values.all fun value => value.all fun value =>
    value ≠ "" && value.utf8ByteSize ≤ 512 && !value.toList.any isControl)
    "Background scope is invalid"

def validateReservation (materialRoot : String) (calls : Nat) : Except String Unit :=
  ensure (materialRoot ≠ "" && materialRoot.utf8ByteSize ≤ 256 &&
    !materialRoot.toList.any isControl && calls ≠ 0 && calls ≤ maxInt)
    "Background reservation requires a bounded exact material root and positive call count"

def validateApproval (config : BackgroundConfig) (foregroundScope : Scope)
    (foregroundExecutable : String) (foregroundLifetimeCalls : Nat) (now : Int) :
    Except String Unit :=
  ensure (config.scope = foregroundScope &&
    components config.executable = components foregroundExecutable && config.maxCalls ≠ 0 &&
    config.maxCalls ≤ foregroundLifetimeCalls && config.maxCalls ≤ maxInt && now < config.expiresAt &&
    0 ≤ now && 1 ≤ config.jobTimeoutSecs && config.jobTimeoutSecs ≤ 3600 &&
    isAbsolute config.executable &&
    config.scope.project.any fun project => !project.toList.all Channel.isWhitespace)
    ("Background approval must match the exact foreground scope/binary, fit its lifetime " ++
      "allowance, and have a future expiry and 1–3600 second job deadline")

def dispatchConfig (saved : Saved) (now : Int) : Except String BackgroundConfig := do
  let config ← context "Background is not approved" saved.config
  ensure (saved.enabled && !saved.paused && 0 ≤ now && now < config.expiresAt)
    "Background is disabled, paused, or expired"
  return config

/-- The charge of all roots, without the bound of `SUM`. -/
def Owner.charged (owner : Owner) : Nat := owner.roots.sum fun _ r => r.charge

def spent (owner : Owner) : Except String Nat :=
  if owner.charged ≤ maxInt then .ok owner.charged else .error "integer overflow"

/-! ### Operations -/

/-- A restart. -/
def «open» (owner : Owner) : Owner :=
  { owner with roots := owner.roots.update fun _ r =>
      if r.state = .reserved then { r with state := .abandoned }
      else if r.state = .dispatched then { r with state := .unknown }
      else r }

def save (saved : Saved) (cancelPending : Bool) (owner : Owner) : Owner :=
  { lifetime := some saved
    roots :=
      if cancelPending then owner.roots.update fun _ r =>
        if r.state = .reserved then { r with state := .cancelled } else r
      else owner.roots }

def approve (origin : Origin) (config : BackgroundConfig) (foregroundScope : Scope)
    (foregroundExecutable : String) (foregroundLifetimeCalls : Nat) (now : Int) (owner : Owner) :
    Except String (Unit × Owner) := do
  human origin
  validateApproval config foregroundScope foregroundExecutable foregroundLifetimeCalls now
  validateScope config.scope
  let revision ← context "Background approval revision exhausted"
    (checkedSucc (loadSaved owner).revision)
  return ((), save ⟨some config, true, false, revision⟩ true owner)

def pause (origin : Origin) (owner : Owner) : Except String (Unit × Owner) := do
  human origin
  return ((), save { loadSaved owner with paused := true } true owner)

def resume (origin : Origin) (now : Int) (owner : Owner) : Except String (Unit × Owner) := do
  human origin
  let saved := loadSaved owner
  ensure (saved.enabled && saved.config.any fun config => 0 ≤ now && now < config.expiresAt)
    "Background approval is absent, disabled, or expired; explicit approval is required"
  return ((), save { saved with paused := false } false owner)

def disable (origin : Origin) (owner : Owner) : Except String (Unit × Owner) := do
  human origin
  return ((), save { loadSaved owner with enabled := false, paused := true } true owner)

def reserve (materialRoot : String) (calls : Nat) (now : Int) (owner : Owner) :
    Except String (Reservation × Owner) := do
  validateReservation materialRoot calls
  let saved := loadSaved owner
  let config ← dispatchConfig saved now
  let latest ← context "Background deadline overflow" (checkedAdd now (asInt config.jobTimeoutSecs))
  let deadline := min latest config.expiresAt
  let total ← spent owner
  ensure (calls ≤ config.maxCalls - total) "Background call allowance exhausted"
  ensure (!owner.roots.contains materialRoot)
    "Material revision was already reserved; no automatic replay"
  ensure (saved.revision ≤ maxInt) "integer out of range"
  let row : Reservation := ⟨calls, deadline, .reserved, saved.revision, none⟩
  let roots ← context "UNIQUE constraint failed: assistant_background_roots.id"
    (owner.roots.insert? materialRoot row)
  return (row, { owner with roots })

def beginDispatch (id : String) (now : Int) (owner : Owner) :
    Except String (Reservation × Owner) := do
  let saved := loadSaved owner
  let _config ← dispatchConfig saved now
  let reservation ← context "Background reservation not found" (owner.roots.get? id)
  ensure (reservation.state = .reserved && reservation.configRevision = saved.revision &&
    now < reservation.deadline)
    "Background reservation is no longer dispatchable; no automatic retry"
  return ({ reservation with state := .dispatched },
    { owner with roots := owner.roots.modify id fun r => { r with state := .dispatched } })

/-- A completion is measured, other outcomes are not. -/
def measurement (outcome : Outcome) (confirmedCalls : Option Nat) : Option Nat :=
  if outcome = .completed then confirmedCalls else none

def finishMeasured (id : String) (outcome : Outcome) (confirmedCalls : Option Nat) (owner : Owner) :
    Except String (Unit × Owner) := do
  let current ← context "Background reservation not found" (owner.roots.get? id)
  let measured := measurement outcome confirmedCalls
  ensure (measured.all fun calls => calls ≤ current.calls)
    "Confirmed background calls exceed the original reservation"
  ensure (current.confirmedCalls.isNone || measured.isNone || current.confirmedCalls = measured)
    "A completed background measurement cannot be rewritten"
  ensure (current.state = .dispatched || current.state = outcome.state)
    "Only the exact dispatched background root can receive an outcome"
  return ((), { owner with roots := owner.roots.modify id fun r =>
    { r with state := outcome.state, confirmedCalls := r.confirmedCalls.or measured } })

/-! ### Calls -/

inductive Call where
  | «open»
  | approve (origin : Origin) (config : BackgroundConfig) (foregroundScope : Scope)
      (foregroundExecutable : String) (foregroundLifetimeCalls : Nat) (now : Int)
  | pause (origin : Origin)
  | resume (origin : Origin) (now : Int)
  | disable (origin : Origin)
  | reserve (materialRoot : String) (calls : Nat) (now : Int)
  | beginDispatch (id : String) (now : Int)
  | finishMeasured (id : String) (outcome : Outcome) (confirmedCalls : Option Nat)

def Call.run : Call → Owner → Except String (Option Reservation × Owner)
  | «open», owner => .ok (none, Lifecycle.open owner)
  | approve origin config scope executable calls now, owner =>
      (Lifecycle.approve origin config scope executable calls now owner).map fun r => (none, r.2)
  | pause origin, owner => (Lifecycle.pause origin owner).map fun r => (none, r.2)
  | resume origin now, owner => (Lifecycle.resume origin now owner).map fun r => (none, r.2)
  | disable origin, owner => (Lifecycle.disable origin owner).map fun r => (none, r.2)
  | reserve materialRoot calls now, owner =>
      (Lifecycle.reserve materialRoot calls now owner).map fun r => (some r.1, r.2)
  | beginDispatch id now, owner =>
      (Lifecycle.beginDispatch id now owner).map fun r => (some r.1, r.2)
  | finishMeasured id outcome confirmedCalls, owner =>
      (Lifecycle.finishMeasured id outcome confirmedCalls owner).map fun r => (none, r.2)

def Call.perform (call : Call) (owner : Owner) : Except String (Option Reservation) × Owner :=
  atomically call.run owner

end Pikamux.Lifecycle
