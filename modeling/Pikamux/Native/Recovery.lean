import Pikamux.Native.Turns
import Pikamux.Support.Lock

/-!
# Native — Recovery

`assistant_native_recovery.rs` and the binding of `assistant_native.rs`: a conversation is admitted,
recorded and retired, and a fresh context takes the place of the retired one.

* `Yields` rules — what a call has checked when it succeeds.
-/

namespace Pikamux.Native

open Support Support.Program

/-! ### The binding -/

/-- The binding file, as `bind_scope` accepts it. -/
def existingBinding (profile scope : String) (home : Home) : Except NativeError (Option Binding) :=
  match home.binding with
  | none => .ok none
  | some existing => do
      ensure (existing.profile = profile && existing.scope = scope)
        (.refused ("Pika's native conversation belongs to a different profile or memory scope. " ++
          "Its context was not replaced."))
      parseUuid existing.launchToken
      existing.threadId.forM parseUuid
      return some existing

def requireLegacyContext (scope : String) (legacy : Legacy) : Action Unit := do
  require (legacy.scope = scope)
    (.refused ("Saved Pika conversation belongs to another memory scope; no replacement was " ++
      "created"))
  query fun home => ensure (!(legacy.blocked || legacy.unresolved || legacy.epoch ≠ home.epoch))
    (.refused ("Pika has unresolved earlier work. Its exact conversation was retained; no " ++
      "automatic replay or replacement occurred"))

/-- `previous_thread`. -/
def previousThread (profile scope : String) : Action (Option String) := do
  match ← query fun home => .ok home.legacy with
  | none => return none
  | some legacy => do
      require (legacy.profile = profile)
        (.refused ("Saved Pika conversation belongs to a different profile; no replacement was " ++
          "created"))
      requireLegacyContext scope legacy
      check (legacy.thread.forM parseUuid)
      return legacy.thread

def saveBinding (binding : Binding) : Action Unit :=
  transaction fun _ home => .ok ((), { home with binding := some binding })

/-- `Uuid::new_v4`. -/
def newUuid : Action String := transaction fun i home => do
  parseUuid i.uuid
  return (i.uuid, home)

def newBinding (profile scope : String) : Action Binding := do
  let launchToken ← newUuid
  let threadId ← previousThread profile scope
  let memoryEpoch ← query fun home => .ok home.epoch
  let binding : Binding := { profile, scope, launchToken, threadId, memoryEpoch }
  saveBinding binding
  return binding

def bindScope (profile scope : String) : Action Binding := do
  match ← query (existingBinding profile scope) with
  | some existing => return existing
  | none => newBinding profile scope

def requireEpoch (binding : Binding) (home : Home) : Except NativeError Unit :=
  ensure (binding.memoryEpoch = home.epoch)
    (.refused ("Pika's backing conversation contains invalidated context. Exit it and request " ++
      "fresh-context; no old conversation was resumed."))

/-- The conversation of a binding: what it names, else what its launch was bound to. -/
def recordedThread (binding : Binding) (home : Home) : Except NativeError (Option String) := do
  let recorded := home.launches.get? binding.launchToken
  ensure (recorded.all fun launch => launch.1 = .codex &&
      binding.threadId.all fun expected => expected = launch.2)
    (.refused "Pika's exact launch binding changed; no replacement conversation was opened")
  return binding.threadId.or (recorded.map Prod.snd)

/-! ### Recording -/

/-- `INSERT INTO assistant_native_contexts … ON CONFLICT(thread_id) DO NOTHING`, under the index of
the active contexts. -/
def insertContext (profile scope thread : String) (current : Nat) (home : Home) :
    Except NativeError (Unit × Home) :=
  if home.contexts.contains thread then .ok ((), home)
  else do
    ensure (!home.contexts.any fun _ context =>
        context.profile = profile && context.state = .active)
      (.database "UNIQUE constraint failed: assistant_native_contexts.profile_id")
    let contexts ← context (.database "UNIQUE constraint failed")
      (home.contexts.insert? thread
        { profile, scope, memoryEpoch := current, state := .active })
    return ((), { home with contexts })

def recordContext (profile scope thread : String) : Action Nat := do
  check (parseUuid thread)
  requireContext profile scope (some thread)
  let current ← epochOf profile scope
  transaction fun _ => insertContext profile scope thread current
  return current

/-- The rest of `record_thread`, with the thread that it parsed. -/
def recordParsed (profile scope launchToken parsed : String) (binding : Binding) (locked : Bool) :
    Action Unit := do
  query (requireEpoch binding)
  match binding.threadId with
  | some expected => do
      require (expected = parsed)
        (.refused "Native Pika hook reported another provider conversation")
      let _ ← recordContext profile scope parsed
      return ()
  | none => do
      require (binding.launchToken = launchToken)
        (.refused "Native Pika hook does not own the reserved first launch")
      query fun home => ensure (home.launches.get? launchToken = some (.codex, parsed))
        (.refused ("Native Pika conversation has not been bound by the existing exact launch " ++
          "reducer"))
      let _ ← recordContext profile scope parsed
      if locked then saveBinding { binding with threadId := some parsed } else return ()

/-- `record_thread`; `locked` says whether it got the launch lock. -/
def recordThread (profile scope launchToken threadId : String) (locked : Bool) : Action Unit := do
  let binding ← bindScope profile scope
  let parsed ← check (context (.uuid threadId) (Uuid.canonical threadId))
  recordParsed profile scope launchToken parsed binding locked

/-- `require_current_context`; returns the conversation that it admitted. -/
def requireCurrentContext (profile scope : String) : Action (Option String) := do
  let binding ← query fun home =>
    context (.database "native-binding.json is missing") home.binding
  require (binding.profile = profile && binding.scope = scope)
    (.refused "Native context belongs to another profile or scope")
  query (requireEpoch binding)
  let thread ← query (recordedThread binding)
  requireContext profile scope thread
  return thread

/-! ### Retirement -/

/-- A recovery receipt. -/
structure Recovery where
  alreadyRecorded : Bool
  retiredThread : String
  memoryEpoch : Nat
  deriving DecidableEq, Repr

/-- A context that was retired by this request. -/
def retiredBy (request : String) (home : Home) : Option (String × Context) :=
  home.contexts.rows.find? fun row =>
    row.2.retirementId = some request && row.2.state = .retired

def completedReceipt (profile scope request : String) : Action (Option Recovery) := do
  check (parseUuid request)
  let current ← epochOf profile scope
  match ← query fun home => .ok (retiredBy request home) with
  | none => return none
  | some (thread, context) => do
      require (context.profile = profile && context.scope = scope)
        (.refused "Native recovery receipt belongs to another profile or scope")
      return some ⟨true, thread, current⟩

/-- A context that names this request. -/
def priorOf (request : String) (home : Home) : Option String :=
  (home.contexts.rows.find? fun row => row.2.retirementId = some request).map Prod.fst

/-- The upsert of `stage_retirement`. -/
def upsertRetiring (profile scope request thread : String) (current : Nat) (home : Home) :
    Except NativeError (Unit × Home) :=
  if home.contexts.contains thread then
    .ok ((), { home with
      contexts := home.contexts.modify thread fun context =>
        if context.state ≠ .retired then
          { context with state := .retiring, retirementId := some request }
        else context })
  else do
    let contexts ← context (.database "UNIQUE constraint failed")
      (home.contexts.insert? thread
        { profile, scope, memoryEpoch := current, state := .retiring,
          retirementId := some request })
    return ((), { home with contexts })

def stage (profile scope request thread : String) (current : Nat) (home : Home) :
    Except NativeError (Unit × Home) := do
  ensure ((home.contexts.get? thread).all fun context =>
      context.profile = profile && context.scope = scope && context.state ≠ .retired)
    (.refused "Native context retirement profile/scope mismatch")
  ensure (!otherContext profile thread home)
    (.refused "Fresh-context request does not own the current native provider generation")
  upsertRetiring profile scope request thread current home

def stageRetirement (profile scope request thread : String) (current : Nat)
    (prior : Option String) : Action Unit := do
  require (prior.all fun old => old = thread)
    (.refused "Recovery request belongs to another native provider UUID")
  transaction fun _ => stage profile scope request thread current

/-- `require_provider_absent`. -/
def requireProviderAbsent : Action Unit := transaction fun i home => do
  ensure i.absent
    (.refused ("Pika is still open, or its earlier conversation cannot yet be verified as closed. " ++
      "Exit that assistant with /quit before continuing. Your saved memory is unchanged; no " ++
      "conversation was stopped."))
  return ((), home)

/-- `UPDATE … SET state='retired' WHERE thread_id=? AND retirement_id=? AND state='retiring'`. -/
def retire (request thread : String) (home : Home) : Home :=
  { home with
    contexts := home.contexts.modify thread fun context =>
      if context.retirementId = some request && context.state = .retiring then
        { context with state := .retired }
      else context }

def forgetLegacy (thread : String) (home : Home) : Home :=
  { home with
    legacy := home.legacy.map fun legacy =>
      if legacy.thread = some thread then { legacy with thread := none } else legacy }

def completeRetirement (request thread : String) : Action Unit := do
  transaction fun _ home => .ok ((), retire request thread home)
  recovered
  transaction fun _ home => .ok ((), forgetLegacy thread home)

/-- `fresh_context_with_cleanup`, of a request without a receipt. -/
def retireContext (profile scope request : String) (thread : Option String) : Action Recovery := do
  let current ← epochOf profile scope
  let prior ← query fun home => .ok (priorOf request home)
  let thread ← expect
    (.refused "Fresh native context requires the exact recorded provider UUID") thread
  check (parseUuid thread)
  stageRetirement profile scope request thread current prior
  requireProviderAbsent
  completeRetirement request thread
  return ⟨false, thread, current⟩

/-- `assistant_native_recovery::fresh_context`. -/
def recoverContext (profile scope request : String) (thread : Option String) : Action Recovery := do
  match ← completedReceipt profile scope request with
  | some receipt => return receipt
  | none => retireContext profile scope request thread

/-! ### `assistant_control.rs`: recovered -/

def finishRevocation (name : String) : Option Nat → Action Unit
  | some _ => transaction fun _ home =>
      .ok ((), { home with revocations := home.revocations.delete fun other _ => other = name })
  | none => do
      check (validScope name)
      transaction fun _ home => .ok ((), { home with epoch := home.epoch + 1 })
      let epoch ← query fun home => .ok home.epoch
      transaction fun _ home =>
        .ok ((), { home with revocations := home.revocations.modify name fun _ => some epoch })
      transaction fun _ home =>
        .ok ((), { home with revocations := home.revocations.delete fun other _ => other = name })

def finishEach : List (String × Option Nat) → Action Unit
  | [] => return ()
  | (name, epoch) :: rest => do
      finishRevocation name epoch
      finishEach rest

/-- `finish_revocations`. -/
def finishRevocations : Action Unit := do
  let pending ← query fun home =>
    .ok (home.revocations.rows.mergeSort fun a b => a.1 ≤ b.1)
  finishEach pending

/-- `Controller::recovered`. -/
def controllerRecovered : Action Unit := do
  finishRevocations
  recovered
  transaction fun _ home =>
    .ok ((), { home with
      control := home.control.map fun control => { control with contextBlocked := false } })

/-! ### Fresh context -/

/-- `untrack_session`: nothing is launched into the conversation any more. -/
def untrack (thread : String) (home : Home) : Home :=
  { home with
    launches := home.launches.delete fun _ launch => launch = (.codex, thread) }

def untrackRecorded : Option String → Action Unit
  | some thread => transaction fun _ home => .ok ((), untrack thread home)
  | none => return ()

/-- The binding that follows a retired one. -/
def nextBinding (binding : Binding) (launchToken : String) (memoryEpoch : Nat) : Binding :=
  { binding with
    launchToken := launchToken
    threadId := none
    memoryEpoch := memoryEpoch
    sharedCreation := false
    sharedReady := false }

def finishRetirement (binding : Binding) : Action Unit := do
  let launchToken ← newUuid
  let memoryEpoch ← query fun home => .ok home.epoch
  let thread ← query (recordedThread binding)
  untrackRecorded thread
  saveBinding (nextBinding binding launchToken memoryEpoch)
  attach
  controllerRecovered

/-- A receipt that was read repairs what was interrupted, if it is about the bound conversation. -/
def repairBinding (binding : Binding) (receipt : Recovery) : Action Recovery := do
  let thread ← query (recordedThread binding)
  if thread = some receipt.retiredThread then
    finishRetirement binding
    return receipt
  else
    return receipt

/-- `fresh_context` of a request without a receipt. -/
def replaceContext (profile scope request : String) (binding : Binding) : Action Recovery := do
  let thread ← query (recordedThread binding)
  let result ← recoverContext profile scope request thread
  require (some result.retiredThread = thread)
    (.refused "Native recovery did not confirm retirement of the exact conversation")
  finishRetirement binding
  return result

/-- `fresh_context`, with the launch lock. -/
def freshContext (profile scope request : String) : Action Recovery := do
  let binding ← bindScope profile scope
  require (!(binding.sharedCreation && binding.threadId.isNone))
    (.refused ("Native assistant creation is unresolved. Recover its exact provider identity " ++
      "before requesting fresh context; no replacement was created."))
  match ← completedReceipt profile scope request with
  | some receipt => repairBinding binding receipt
  | none => replaceContext profile scope request binding

end Pikamux.Native
