import Pikamux.Support.Integers
import Pikamux.Support.Result
import Pikamux.Support.Table

/-!
# Assistant — Policy

`assistant_policy.rs`: provider calls are reserved before they are dispatched.  A root reserves
calls out of the configured allowances, a child out of its root; a reservation is dispatched,
finalised with a receipt, or released before dispatch.  Every operation is one transaction; the
configuration, and the parent of a new child, are read before it and may be stale.

Integers of the database are `i64`: `SUM` fails when it overflows, and additions in the checks
saturate.
-/

namespace Pikamux.Policy

open Support

inductive PolicyError where
  | database (message : String)
  | filesystem (message : String)
  | denied (message : String)
  | unknownReservation (id : String)
  deriving DecidableEq, Repr

inductive ReservationState where
  | reserved
  | dispatched
  | completed
  | failed
  | unknown
  | released
  deriving DecidableEq, Repr, Inhabited

inductive DeliveryOutcome where
  | completed
  | failed
  | unknown
  deriving DecidableEq, Repr, Inhabited

def DeliveryOutcome.state : DeliveryOutcome → ReservationState
  | completed => .completed
  | failed => .failed
  | unknown => .unknown

structure PolicyConfig where
  backgroundCalls : Nat := 0
  maxConcurrent : Nat := 2
  maxTotalCalls : Nat := 0
  defaultDeadlineSeconds : Nat := 120
  deriving DecidableEq, Repr, Inhabited

/-- A row of `assistant_reservations`, without its id. -/
structure Reservation where
  rootId : String
  parentId : Option String
  calls : Nat
  deadlineAt : Int
  background : Bool
  state : ReservationState
  createdAt : Int
  dispatchedAt : Option Int := none
  completedAt : Option Int := none
  outcome : Option DeliveryOutcome := none
  deriving DecidableEq, Repr, Inhabited

structure Receipt where
  outcome : DeliveryOutcome
  recordedAt : Int
  deriving DecidableEq, Repr, Inhabited

/-- The policy database. -/
structure Ledger where
  config : PolicyConfig := {}
  reservations : Table String Reservation := ∅
  receipts : Table String Receipt := ∅

def Ledger.reservation (ledger : Ledger) (id : String) : Option Reservation :=
  ledger.reservations.get? id

/-! ### Sums of calls -/

/-- `SELECT SUM(calls)` of the rows `p` holds of, without the bound of its integers. -/
def Ledger.callsOf (ledger : Ledger) (p : Reservation → Bool) : Nat :=
  ledger.reservations.sum fun _ r => if p r then r.calls else 0

/-- `SELECT COALESCE(SUM(calls),0)`. -/
def sumCalls (ledger : Ledger) (p : Reservation → Bool) : Except PolicyError Nat :=
  if ledger.callsOf p ≤ maxInt then .ok (ledger.callsOf p)
  else .error (.database "integer overflow")

/-- A root whose calls are not given back. -/
def Reservation.isRoot (r : Reservation) : Bool := r.parentId.isNone && r.state ≠ .released

/-- Such a root of background work. -/
def Reservation.isBackgroundRoot (r : Reservation) : Bool := r.background && r.isRoot

/-! ### Checks -/

def validateReservationCalls (calls : Nat) : Except PolicyError Unit := do
  ensure (calls ≠ 0) (.denied "reservation must contain at least one call")
  ensure (calls ≤ maxInt) (.denied "reservation exceeds SQLite integer range")

/-- `i64::saturating_add` of a time. -/
def saturatingTime (t : Int) : Int := max (-2 ^ 63) (min t (2 ^ 63 - 1))

def validateDeadline (deadline : Option Int) (now : Int) (defaultSeconds : Nat) :
    Except PolicyError Int := do
  let deadline := deadline.getD (saturatingTime (now + defaultSeconds))
  ensure (now < deadline) (.denied "deadline is expired")
  return deadline

def rejectDuplicateReservation (ledger : Ledger) (id : String) : Except PolicyError Unit :=
  ensure (ledger.reservation id).isNone (.denied "reservation id already exists")

/-- The unreleased children of a root, as the check selects them. -/
def unreleasedChild (rootId : String) (r : Reservation) : Bool :=
  r.rootId = rootId && r.parentId.isSome && r.state ≠ .released

def validateChildBudget (ledger : Ledger) (parentId : Option String) (rootId : String)
    (calls : Nat) (now deadline : Int) : Except PolicyError Unit :=
  match parentId with
  | none => .ok ()
  | some parentId => do
      let parent ← context (.unknownReservation parentId)
        ((ledger.reservation parentId).filter fun r => r.parentId.isNone)
      ensure (parent.rootId = rootId && parent.state = .reserved && now < parent.deadlineAt &&
        deadline ≤ parent.deadlineAt)
        (.denied "parent reservation is expired or no longer active")
      let children ← sumCalls ledger (unreleasedChild rootId)
      ensure (saturatingAdd children calls ≤ parent.calls)
        (.denied "child reservations exceed the root budget")

def validateBackgroundBudget (ledger : Ledger) (background : Bool) (calls allowance : Nat) :
    Except PolicyError Unit :=
  if background then do
    let used ← sumCalls ledger (·.isBackgroundRoot)
    ensure (saturatingAdd used calls ≤ allowance)
      (.denied "background allowance exhausted (background is disabled by default)")
  else .ok ()

def validateRootBudgets (ledger : Ledger) (config : PolicyConfig) (parentId : Option String)
    (background : Bool) (calls : Nat) : Except PolicyError Unit :=
  if parentId.isSome then .ok ()
  else do
    validateBackgroundBudget ledger background calls config.backgroundCalls
    let total ← sumCalls ledger (·.isRoot)
    ensure (config.maxTotalCalls ≠ 0 && saturatingAdd total calls ≤ config.maxTotalCalls)
      (.denied "total call allowance exhausted")

def hasChild (ledger : Ledger) (id : String) : Bool :=
  ledger.reservations.any fun _ r => r.parentId = some id

/-- How many reservations are active: reserved or dispatched, not the parent, and without
children. -/
def activeReservations (ledger : Ledger) (parentId : Option String) : Nat :=
  ledger.reservations.sum fun id r =>
    if r.state ∈ [.reserved, .dispatched] && parentId ≠ some id && !hasChild ledger id then 1 else 0

/-- `native` is what the runtime database says about active native turns. -/
def validateConcurrency (ledger : Ledger) (parentId : Option String) (maximum : Nat)
    (native : Except PolicyError Nat) : Except PolicyError Unit := do
  let native ← native
  ensure (saturatingAdd (activeReservations ledger parentId) native < maximum)
    (.denied "concurrent reservation limit reached")

def validateCompletedPlanningChild (ledger : Ledger) (id : String) : Except PolicyError Unit := do
  let invalid := ledger.reservations.sum fun _ r =>
    if r.parentId = some id && r.state ∉ [.completed, .released] then 1 else 0
  let completed := ledger.reservations.sum fun _ r =>
    if r.parentId = some id && r.state = .completed then 1 else 0
  ensure (invalid = 0 && completed = 1) (.denied
    "only a known completed planning child can extend its bounded active root once")

def validateRootExtension (ledger : Ledger) (id : String) (additional : Nat) (now : Int) :
    Except PolicyError Bool := do
  let root ← context (.unknownReservation id)
    ((ledger.reservation id).filter fun r => r.parentId.isNone)
  ensure (root.state = .reserved && now < root.deadlineAt && root.calls = 1 &&
    saturatingAdd root.calls additional ≤ 4)
    (.denied "only a bounded active planning root can be extended once")
  validateCompletedPlanningChild ledger id
  return root.background

def validateTransitionState (state : ReservationState) (now : Int) (receipt : Bool)
    (old : ReservationState) (deadline : Int) : Except PolicyError Unit := do
  ensure (state ≠ .released || old = .reserved)
    (.denied "only an undispatched reservation can be released")
  ensure (state ≠ .dispatched || old = .reserved)
    (.denied "reservation was already dispatched or finalized")
  ensure (state ≠ .dispatched || now < deadline) (.denied "reservation deadline has expired")
  ensure (!receipt || old ∈ [.reserved, .dispatched]) (.denied "reservation is already finalized")

def validateDelegatedRootTransition (ledger : Ledger) (id : String) (state : ReservationState) :
    Except PolicyError Unit :=
  let unreleased := ledger.reservations.any fun _ r => r.parentId = some id && r.state ≠ .released
  ensure (!(hasChild ledger id && (state = .dispatched || state = .released && unreleased)))
    (.denied "a delegated root cannot dispatch or refund its children's allowance")

/-- The parent of a child is reserved and before its deadline. -/
def parentActive (ledger : Ledger) (r : Reservation) (now : Int) : Bool :=
  r.parentId.all fun parentId =>
    (ledger.reservation parentId).all fun parent =>
      parent.state = .reserved && now < parent.deadlineAt

def validateDispatchedBackgroundBudget (ledger : Ledger) (r : Reservation) :
    Except PolicyError Unit :=
  if r.background then do
    let charged ← sumCalls ledger (·.isBackgroundRoot)
    ensure (0 < ledger.config.backgroundCalls && charged ≤ ledger.config.backgroundCalls)
      (.denied "background allowance revoked or reduced")
  else .ok ()

def validateDispatchBudget (ledger : Ledger) (r : Reservation) (now : Int) :
    Except PolicyError Unit := do
  ensure (parentActive ledger r now) (.denied "root is no longer active")
  let total ← sumCalls ledger (·.isRoot)
  ensure (ledger.config.maxTotalCalls ≠ 0 && total ≤ ledger.config.maxTotalCalls)
    (.denied "call allowance revoked or reduced")
  validateDispatchedBackgroundBudget ledger r

/-! ### Operations -/

def configure (config : PolicyConfig) (ledger : Ledger) : Except PolicyError (Unit × Ledger) := do
  ensure ([config.backgroundCalls, config.maxConcurrent, config.maxTotalCalls,
    config.defaultDeadlineSeconds].all (· ≤ maxInt))
    (.denied "policy limit exceeds SQLite integer range")
  ensure (config.maxConcurrent ≠ 0 && config.defaultDeadlineSeconds ≠ 0)
    (.denied "concurrency and deadline limits must be positive")
  return ((), { ledger with config })

/-- `cfg` is the configuration as it was read before the transaction. -/
def reserve (cfg : PolicyConfig) (id : String) (parentId : Option String) (rootId : String)
    (calls : Nat) (background : Bool) (now : Int) (deadline : Option Int)
    (native : Except PolicyError Nat) (ledger : Ledger) : Except PolicyError (Unit × Ledger) := do
  validateReservationCalls calls
  let deadline ← validateDeadline deadline now cfg.defaultDeadlineSeconds
  rejectDuplicateReservation ledger id
  validateChildBudget ledger parentId rootId calls now deadline
  validateRootBudgets ledger cfg parentId background calls
  validateConcurrency ledger parentId cfg.maxConcurrent native
  let row : Reservation := ⟨rootId, parentId, calls, deadline, background, .reserved, now, none, none,
    none⟩
  let reservations ← context (.database "UNIQUE constraint failed: assistant_reservations.id")
    (ledger.reservations.insert? id row)
  return ((), { ledger with reservations })

def reserveRoot (cfg : PolicyConfig) (id : String) (calls : Nat) (background : Bool) (now : Int)
    (deadline : Option Int) (native : Except PolicyError Nat) :
    Ledger → Except PolicyError (Unit × Ledger) :=
  reserve cfg id none id calls background now deadline native

/-- `parent` is the row of the parent as it was read before the transaction. -/
def reserveChild (cfg : PolicyConfig) (parent : Option Reservation) (id parentId : String)
    (calls : Nat) (now : Int) (deadline : Option Int) (native : Except PolicyError Nat)
    (ledger : Ledger) : Except PolicyError (Unit × Ledger) := do
  let parent ← context (.unknownReservation parentId) parent
  ensure parent.parentId.isNone (.denied "nested delegation is disabled")
  reserve cfg id (some parentId) parent.rootId calls parent.background now
    (some (deadline.getD parent.deadlineAt)) native ledger

def extendRoot (cfg : PolicyConfig) (id : String) (additional : Nat) (now : Int)
    (ledger : Ledger) : Except PolicyError (Unit × Ledger) := do
  validateReservationCalls additional
  let background ← validateRootExtension ledger id additional now
  validateRootBudgets ledger cfg none background additional
  return ((), { ledger with
    reservations := ledger.reservations.modify id fun r => { r with calls := r.calls + additional } })

/-- The row after a transition. -/
def Reservation.moved (r : Reservation) (state : ReservationState) (now : Int)
    (outcome : Option DeliveryOutcome) : Reservation :=
  { r with
    state := state
    dispatchedAt := if state = .dispatched then some now else r.dispatchedAt
    completedAt := if state ∈ [.completed, .failed, .unknown, .released] then some now
      else r.completedAt
    outcome := outcome.or r.outcome }

def applyTransition (ledger : Ledger) (id : String) (state : ReservationState) (now : Int)
    (outcome : Option DeliveryOutcome) : Except PolicyError Ledger :=
  let reservations := ledger.reservations.modify id fun r => r.moved state now outcome
  match outcome with
  | none => .ok { ledger with reservations }
  | some outcome => do
      let receipts ← context
        (.database "UNIQUE constraint failed: assistant_receipts.reservation_id")
        (ledger.receipts.insert? id ⟨outcome, now⟩)
      return { ledger with reservations, receipts }

def transition (id : String) (state : ReservationState) (now : Int)
    (outcome : Option DeliveryOutcome) (receipt : Bool) (ledger : Ledger) :
    Except PolicyError (Unit × Ledger) := do
  let old ← context (.unknownReservation id) (ledger.reservation id)
  validateDelegatedRootTransition ledger id state
  if state = .dispatched then
    validateDispatchBudget ledger old now
  validateTransitionState state now receipt old.state old.deadlineAt
  return ((), ← applyTransition ledger id state now outcome)

def markDispatched (id : String) (now : Int) : Ledger → Except PolicyError (Unit × Ledger) :=
  transition id .dispatched now none false

def recordOutcome (id : String) (outcome : DeliveryOutcome) (now : Int) :
    Ledger → Except PolicyError (Unit × Ledger) :=
  transition id outcome.state now (some outcome) true

def releaseBeforeDispatch (id : String) (now : Int) : Ledger → Except PolicyError (Unit × Ledger) :=
  transition id .released now none false

/-! ### Calls -/

/-- A call of one of the connections. -/
inductive Call where
  | configure (config : PolicyConfig)
  | reserveRoot (cfg : PolicyConfig) (id : String) (calls : Nat) (background : Bool) (now : Int)
      (deadline : Option Int) (native : Except PolicyError Nat)
  | reserveChild (cfg : PolicyConfig) (parent : Option Reservation) (id parentId : String)
      (calls : Nat) (now : Int) (deadline : Option Int) (native : Except PolicyError Nat)
  | extendRoot (cfg : PolicyConfig) (id : String) (additional : Nat) (now : Int)
  | markDispatched (id : String) (now : Int)
  | recordOutcome (id : String) (outcome : DeliveryOutcome) (now : Int)
  | releaseBeforeDispatch (id : String) (now : Int)

def Call.run : Call → Ledger → Except PolicyError (Unit × Ledger)
  | configure config => Policy.configure config
  | reserveRoot cfg id calls background now deadline native =>
      Policy.reserveRoot cfg id calls background now deadline native
  | reserveChild cfg parent id parentId calls now deadline native =>
      Policy.reserveChild cfg parent id parentId calls now deadline native
  | extendRoot cfg id additional now => Policy.extendRoot cfg id additional now
  | markDispatched id now => Policy.markDispatched id now
  | recordOutcome id outcome now => Policy.recordOutcome id outcome now
  | releaseBeforeDispatch id now => Policy.releaseBeforeDispatch id now

def Call.perform (call : Call) (ledger : Ledger) : Except PolicyError Unit × Ledger :=
  atomically call.run ledger

end Pikamux.Policy
