import Pikamux.Assistant.Lifecycle
import Pikamux.Assistant.Policy
import Pikamux.Support.Program

/-!
# Native — Home

What the native home of the assistant is kept in: the context and turn receipts of `runtime.sqlite`,
the forget epoch of `memory.sqlite`, the flags of `owner.sqlite`, the policy, the binding file and
the launch bindings of its registry.  Each statement or transaction is one step; a process may end
after any of them.
-/

namespace Pikamux.Native

open Support Support.Program

/-- A message of `bail!`, or the failure of a statement. -/
inductive NativeError where
  | refused (message : String)
  | uuid (text : String)
  | database (message : String)
  deriving DecidableEq, Repr

/-- The `state` column of `assistant_native_turns`. -/
inductive TurnState where
  | intent
  | dispatched
  | completed
  | unknown
  | acknowledged
  deriving DecidableEq, Repr

/-- `state IN ('intent','dispatched','unknown')`. -/
def TurnState.unresolved : TurnState → Bool
  | intent | dispatched | unknown => true
  | completed | acknowledged => false

/-- A row of `assistant_native_turns`, without its request. -/
structure Turn where
  session : String
  scope : String
  state : TurnState
  modelCalls : Option Nat := none
  updatedAt : Int
  deriving DecidableEq, Repr

/-- The `state` column of `assistant_native_contexts`. -/
inductive ContextState where
  | active
  | retiring
  | retired
  deriving DecidableEq, Repr

/-- A row of `assistant_native_contexts`, without its thread. -/
structure Context where
  profile : String
  scope : String
  memoryEpoch : Nat
  state : ContextState
  retirementId : Option String := none
  deriving DecidableEq, Repr

/-- The row of `assistant_control`. -/
structure Control where
  paused : Bool := false
  contextBlocked : Bool := false
  deriving DecidableEq, Repr

/-- `native-binding.json`. -/
structure Binding where
  profile : String
  scope : String
  launchToken : String
  threadId : Option String
  memoryEpoch : Nat
  providerExecutable : Option String := none
  sharedCreation : Bool := false
  sharedReady : Bool := false
  deriving DecidableEq, Repr

/-- What an earlier runtime left in `runtime.sqlite`. -/
structure Legacy where
  profile : String
  thread : Option String
  scope : String
  blocked : Bool
  epoch : Nat
  /-- A turn `reserved`, `dispatch_intent`, `in_flight` or `unknown`. -/
  unresolved : Bool
  deriving DecidableEq, Repr

structure Home where
  /-- The profile of `memory.sqlite`, and how often something was forgotten. -/
  profile : String
  epoch : Nat := 0
  contexts : Table String Context := ∅
  turns : Table String Turn := ∅
  /-- The row of `assistant_runtime_profile`, if there is one. -/
  legacy : Option Legacy := none
  control : Option Control := none
  /-- `assistant_board_revocations`. -/
  revocations : Table String (Option Nat) := ∅
  policy : Policy.Ledger := {}
  binding : Option Binding := none
  /-- `launch_bindings` of the native registry. -/
  launches : Table String (Provider × String) := ∅

/-- What a step meets: the time, a fresh identifier, and whether the provider is proved absent. -/
structure Chance where
  now : Int := 0
  uuid : String := ""
  absent : Bool := true
  deriving DecidableEq, Repr

abbrev Action (α : Type) := Fallible Chance Home NativeError α

def refuse {α : Type} (message : String) : Except NativeError α := .error (.refused message)

/-- `Uuid::parse_str`, for its error. -/
def parseUuid (text : String) : Except NativeError Unit :=
  ensure (Uuid.parse text.toList).isSome (.uuid text)

/-- `assistant::scope`. -/
def validScope (value : String) : Except NativeError Unit :=
  ensure (value ≠ "" && value.utf8ByteSize ≤ 256 && !value.toList.any Lifecycle.isControl)
    (.refused "Choose a scope of 1–256 printable bytes")

/-- `verify_existing_profile`, of an absolute root. -/
def verifyExistingProfile (profile : String) (home : Home) : Except NativeError Unit := do
  ensure (Uuid.canonical profile = some profile)
    (.refused "Existing assistant attachment needs an absolute root and canonical profile ID")
  ensure (home.profile = profile)
    (.refused "Assistant profile changed; existing-authority attachment refused")

/-! ### `assistant_native_recovery.rs`: admission of a context -/

/-- `epoch`. -/
def epochOf (profile scope : String) : Action Nat := do
  query (verifyExistingProfile profile)
  check (validScope scope)
  query fun home => .ok home.epoch

/-- Another context of the profile that is not retired. -/
def otherContext (profile thread : String) (home : Home) : Bool :=
  home.contexts.any fun other context =>
    context.profile = profile && context.state ≠ .retired && other ≠ thread

def savedContext (profile : String) (thread : Option String) (home : Home) : Option Context :=
  match thread with
  | some thread => home.contexts.get? thread
  | none =>
      (home.contexts.rows.find? fun row =>
        row.2.profile = profile && row.2.state ≠ .retired).map Prod.snd

def requireSavedContext (row : Option Context) (profile scope : String) (current : Nat) :
    Except NativeError Unit :=
  ensure (row.all fun context => context.profile = profile && context.scope = scope &&
      context.memoryEpoch = current && context.state = .active)
    (.refused ("Native Pika context is invalidated or retired; explicitly recover fresh context " ++
      "before reuse"))

def requireOwnerContext (home : Home) : Except NativeError Unit :=
  ensure (!home.control.any Control.contextBlocked)
    (.refused ("Native Pika context is blocked by the existing authority; explicit fresh-context " ++
      "recovery is required"))

def requireNoOther (profile : String) : Option String → Action Unit
  | some thread => do
      check (parseUuid thread)
      query fun home => ensure (!otherContext profile thread home)
        (.refused "Another native context generation is active or awaiting verified retirement")
  | none => return ()

def requireContext (profile scope : String) (thread : Option String) : Action Unit := do
  let current ← epochOf profile scope
  requireNoOther profile thread
  let row ← query fun home => .ok (savedContext profile thread home)
  check (requireSavedContext row profile scope current)
  query requireOwnerContext

/-! ### `assistant_control.rs` -/

/-- `Controller::attach`: the row of flags exists, and blocks while a revocation is unfinished. -/
def attach : Action Unit := transaction fun _ home =>
  let control := home.control.getD {}
  .ok ((), { home with
    control := some { control with
      contextBlocked := control.contextBlocked || !home.revocations.rows.isEmpty } })

/-- `Controller::require_foreground`.  Consultations that it withdraws are forgotten by themselves. -/
def requireForeground (scope : String) : Action Unit := do
  check (validScope scope)
  query fun home => ensure (!home.control.any Control.contextBlocked)
    (.refused ("Provider context is blocked after revocation or uncertain work; complete " ++
      "fresh-context recovery before using it again"))
  query fun home => ensure (!home.control.any Control.paused)
    (.refused "Assistant reasoning is paused; resume it explicitly before sending")

/-! ### Checks write nothing -/

section Reads

variable {guar : Home → Home → Prop} {profile scope : String} {thread : Option String}

theorem within_epochOf (hguar : ∀ s, guar s s) :
    Within guar (epochOf profile scope).run :=
  within_bind (within_query hguar) fun _ => within_check fun _ => within_query hguar

theorem within_requireNoOther (hguar : ∀ s, guar s s) :
    Within guar (requireNoOther profile thread).run := by
  cases thread with
  | none => exact fun _ => trivial
  | some thread => exact within_check fun _ => within_query hguar

theorem within_requireContext (hguar : ∀ s, guar s s) :
    Within guar (requireContext profile scope thread).run := by
  refine within_bind (within_epochOf hguar) fun _ => ?_
  refine within_bind (within_requireNoOther hguar) fun _ => within_bind (within_query hguar) ?_
  exact fun _ => within_check fun _ => within_query hguar

theorem within_requireForeground (hguar : ∀ s, guar s s) :
    Within guar (requireForeground scope).run :=
  within_check fun _ => within_bind (within_query hguar) fun _ => within_query hguar

end Reads

end Pikamux.Native
