import Pikamux.Native.Contexts
import Pikamux.Support.Interrupt

/-!
# Native — Admission

The calls that write to a native home: it is entered, its conversation is reserved, recorded and
retired, turns are submitted, memory is forgotten and shares of the board are withdrawn.  A call may
end after any of its statements; the next one starts from what it left.

* `Coherent` — what holds of the home after any statement: only the conversation of the binding has
  a context that is not retired.
* `HomeCall.kept` — every call keeps it.
-/

namespace Pikamux.Native

open Support Support.Program

/-! ### `assistant_native.rs`: run -/

/-- `prepare_home`, up to the profile of the launch. -/
def prepareHome (profile scope executable : String) : Action Binding := do
  let binding ← bindScope profile scope
  query (requireEpoch binding)
  requireContext profile scope binding.threadId
  saveBinding { binding with providerExecutable := some executable }
  return { binding with providerExecutable := some executable }

def requireFinishedSharedSetup (binding : Binding) : Except NativeError Unit :=
  ensure (!(binding.sharedCreation && binding.threadId.isSome && !binding.sharedReady))
    (.refused ("The assistant's exact UUID was created but its initial provider setup is " ++
      "unfinished. Recover that same identity before reopening; no replacement was created."))

/-- `bind_launch`, which must have bound the launch to this conversation. -/
def bindExact (launchToken thread : String) : Action Unit := transaction fun _ home =>
  match home.launches.get? launchToken with
  | some launch => do
      ensure (launch = (.codex, thread))
        (.refused "Private assistant creation collided with another exact launch binding")
      return ((), home)
  | none => do
      let launches ← context (.database "UNIQUE constraint failed")
        (home.launches.insert? launchToken (.codex, thread))
      return ((), { home with launches })

def finishSharedReservation (binding : Binding) (thread : String) : Action Binding := do
  bindExact binding.launchToken thread
  let _ ← recordContext binding.profile binding.scope thread
  saveBinding { binding with sharedReady := true }
  return { binding with sharedReady := true }

/-- `reserve_shared_thread`; the provider answers with the conversation that it created. -/
def reserveSharedThread (binding : Binding) (thread : String) : Action Binding := do
  require (!binding.sharedCreation)
    (.refused ("Assistant creation has an unknown outcome. No second conversation was created; " ++
      "retain this profile for exact recovery."))
  saveBinding { binding with sharedCreation := true }
  let parsed ← check (context (.uuid thread) (Uuid.canonical thread))
  saveBinding { binding with sharedCreation := true, threadId := some parsed }
  finishSharedReservation { binding with sharedCreation := true, threadId := some parsed } thread

/-- `launch_bound_home`; a launch may be `pending` from before. -/
def launchBoundHome (binding : Binding) (pending : Bool) (thread : String) : Action Binding :=
  if binding.threadId.isNone && !pending then reserveSharedThread binding thread
  else return binding

def confirmThread (binding : Binding) : Option (Provider × String) → Action Unit
  | some (.codex, thread) => do
      query (requireEpoch binding)
      let _ ← recordContext binding.profile binding.scope thread
      saveBinding { binding with threadId := some thread }
  | _ => return ()

def confirmFirstLaunch (binding : Binding) : Action Unit :=
  if binding.threadId.isNone then do
    let launch ← query fun home => .ok (home.launches.get? binding.launchToken)
    confirmThread binding launch
  else return ()

/-- `run`, up to the terminal. -/
def runHome (profile scope executable : String) (pending : Bool) (thread : String) :
    Action Unit := do
  let binding ← prepareHome profile scope executable
  check (requireFinishedSharedSetup binding)
  let binding ← launchBoundHome binding pending thread
  confirmFirstLaunch binding

/-! ### The calls of a home -/

/-- `revoke_board`; `shared` says whether there was such a share. -/
def revokeBoard (name : String) (shared : Bool) : Action Unit := do
  attach
  check (validScope name)
  transaction fun _ home =>
    .ok ((), if shared then { home with
      control := home.control.map fun control => { control with contextBlocked := true }
      revocations := (home.revocations.insert? name none).getD home.revocations } else home)
  finishRevocations

inductive HomeCall where
  | run (executable : String) (pending : Bool) (thread : String)
  | recordThread (launchToken thread : String)
  /-- A launch reports its conversation. -/
  | bindLaunch (launchToken : String) (provider : Provider) (thread : String)
  | beforeSubmit (request session : String)
  | finish (request session : String) (interrupted : Bool)
  | closeAdapter (session request : String)
  | forget
  | revokeBoard (name : String) (shared : Bool)
  | freshContext (request : String)
  deriving DecidableEq, Repr

/-- A call of the home of this profile and scope. -/
def HomeCall.action (profile scope : String) : HomeCall → Action Unit
  | run executable pending thread => runHome profile scope executable pending thread
  | recordThread launchToken thread => Native.recordThread profile scope launchToken thread true
  | bindLaunch launchToken provider thread => do
      check (parseUuid thread)
      transaction fun _ home => .ok ((), { home with
        launches := (home.launches.insert? launchToken (provider, thread)).getD home.launches })
  | beforeSubmit request session => do
      let _ ← Native.beforeSubmit scope request session
      return ()
  | finish request session interrupted => do
      let _ ← Native.finish scope request session interrupted
      return ()
  | closeAdapter session request => do
      let _ ← Native.closeAdapter scope session request
      return ()
  | forget => transaction fun _ home => .ok ((), { home with epoch := home.epoch + 1 })
  | revokeBoard name shared => Native.revokeBoard name shared
  | freshContext request => do
      let _ ← Native.freshContext profile scope request
      return ()

def HomeCall.code (profile scope : String) (call : HomeCall) :
    Program Chance Home (Except NativeError Unit) :=
  (call.action profile scope).run

abbrev HomeMachine := Serial Chance Home (Except NativeError Unit) HomeCall

abbrev HomeMove := Serial.Move Chance HomeCall

abbrev HomeEntry := Entry HomeMachine HomeMove (Option (HomeCall × Except NativeError Unit))

def home (profile scope : String) (m : HomeMove) (machine : HomeMachine) :
    Option (HomeCall × Except NativeError Unit) × HomeMachine :=
  machine.move (HomeCall.code profile scope) m

/-! ### Coherent homes -/

abbrev IsUuid (text : String) : Prop := (Uuid.parse text.toList).isSome = true

theorem parseUuid_eq_ok {text : String} {u : Unit} : parseUuid text = .ok u ↔ IsUuid text :=
  ensure_eq_ok

/-- What holds of the home of this profile and scope after any statement. -/
structure Coherent (profile scope : String) (s : Home) : Prop where
  owner : s.profile = profile
  bound : ∀ b, s.binding = some b → b.profile = profile ∧ b.scope = scope
  token : ∀ b, s.binding = some b → IsUuid b.launchToken
  thread : ∀ b thread, s.binding = some b → b.threadId = some thread → IsUuid thread
  launches : ∀ token launch, s.launches.get? token = some launch → IsUuid launch.2
  rows : ∀ thread c, s.contexts.get? thread = some c → c.profile = profile ∧ c.scope = scope
  current : ∀ thread c, s.contexts.get? thread = some c → c.state ≠ .retired → Recorded thread s

section Coherent

variable {profile scope : String} {s t : Home} {b b' : Binding} {thread : String}

theorem Coherent.aside (hs : Coherent profile scope s) (h : Aside s t) :
    Coherent profile scope t where
  owner := h.profile.trans hs.owner
  bound b hb := hs.bound b (h.binding ▸ hb)
  token b hb := hs.token b (h.binding ▸ hb)
  thread b thread hb := hs.thread b thread (h.binding ▸ hb)
  launches token launch hl := hs.launches token launch (h.launches ▸ hl)
  rows thread c hc := hs.rows thread c (h.contexts ▸ hc)
  current thread c hc hstate := by
    obtain ⟨b, hb, hthread⟩ := hs.current thread c (h.contexts ▸ hc) hstate
    exact ⟨b, h.binding.trans hb, hthread.imp_right fun hl => h.launches ▸ hl⟩

/-- The same launch, of a conversation that stays if there is one. -/
theorem Coherent.rebind (hs : Coherent profile scope s) (hb : s.binding = some b)
    (hprofile : b'.profile = b.profile ∧ b'.scope = b.scope)
    (htoken : b'.launchToken = b.launchToken)
    (hkept : ∀ thread, b.threadId = some thread → b'.threadId = some thread)
    (huuid : ∀ thread, b'.threadId = some thread → IsUuid thread) :
    Coherent profile scope { s with binding := some b' } where
  owner := hs.owner
  bound := by
    rintro _ ⟨⟩
    exact ⟨hprofile.1.trans (hs.bound b hb).1, hprofile.2.trans (hs.bound b hb).2⟩
  token := by
    rintro _ ⟨⟩
    exact htoken ▸ hs.token b hb
  thread := by
    rintro _ thread ⟨⟩ hthread
    exact huuid thread hthread
  launches := hs.launches
  rows := hs.rows
  current thread c hc hstate := by
    obtain ⟨b'', hb'', hthread⟩ := hs.current thread c hc hstate
    rw [hb] at hb''
    cases hb''
    exact ⟨b', rfl, hthread.imp (hkept thread) fun hl => htoken ▸ hl⟩

/-- Every context is retired. -/
def AllRetired (s : Home) : Prop := ∀ thread c, s.contexts.get? thread = some c → c.state = .retired

/-- A binding of a home without a context in use. -/
theorem Coherent.bind (hs : Coherent profile scope s) (hretired : AllRetired s)
    (hb : b.profile = profile ∧ b.scope = scope) (htoken : IsUuid b.launchToken)
    (huuid : ∀ thread, b.threadId = some thread → IsUuid thread) :
    Coherent profile scope { s with binding := some b } where
  owner := hs.owner
  bound := by
    rintro _ ⟨⟩
    exact hb
  token := by
    rintro _ ⟨⟩
    exact htoken
  thread := by
    rintro _ thread ⟨⟩ hthread
    exact huuid thread hthread
  launches := hs.launches
  rows := hs.rows
  current thread c hc hstate := absurd (hretired thread c hc) hstate

/-- A launch is bound. -/
theorem Coherent.launch (hs : Coherent profile scope s) {token : String}
    {launch : Provider × String} {rows : Table String (Provider × String)}
    (hinsert : s.launches.insert? token launch = some rows) (huuid : IsUuid launch.2) :
    Coherent profile scope { s with launches := rows } := by
  have hget := Table.get?_insert? hinsert
  refine ⟨hs.owner, hs.bound, hs.token, hs.thread, fun token' launch' hl => ?_, hs.rows,
    fun thread c hc hstate => ?_⟩
  · change rows.get? token' = _ at hl
    rw [hget] at hl
    split at hl
    · cases hl
      exact huuid
    · exact hs.launches token' launch' hl
  · obtain ⟨b, hb, hthread⟩ := hs.current thread c hc hstate
    refine ⟨b, hb, hthread.imp_right fun hl => ?_⟩
    change rows.get? b.launchToken = _
    rw [hget, if_neg, hl]
    intro heq
    rw [heq, (Table.insert?_eq_some.mp hinsert).1] at hl
    cases hl

/-- A row of the conversation of the binding is written. -/
theorem Coherent.write (hs : Coherent profile scope s) {c : Context}
    {rows : Table String Context} (hwrote : Wrote thread c s { s with contexts := rows })
    (hrow : c.profile = profile ∧ c.scope = scope) (hthread : c.state ≠ .retired →
      Recorded thread s) : Coherent profile scope { s with contexts := rows } := by
  refine ⟨hs.owner, hs.bound, hs.token, hs.thread, hs.launches, fun other c' hc => ?_,
    fun other c' hc hstate => ?_⟩
  · rw [hwrote] at hc
    split at hc
    · cases hc
      exact hrow
    · exact hs.rows other c' hc
  · rw [hwrote] at hc
    split at hc
    · rename_i heq
      cases hc
      exact heq ▸ hthread hstate
    · exact hs.current other c' hc hstate

/-- The binding names one conversation. -/
theorem recordedThread_unique {recorded : Option String} (hb : s.binding = some b)
    (h : recordedThread b s = .ok recorded) (hthread : Recorded thread s) :
    recorded = some thread := by
  obtain ⟨b', hb', hnamed⟩ := hthread
  rw [hb] at hb'
  cases hb'
  obtain ⟨_, hlaunch, h⟩ := bind_eq_ok.mp h
  have h : b.threadId.or ((s.launches.get? b.launchToken).map Prod.snd) = recorded :=
    Except.ok.inj h
  rw [ensure_eq_ok] at hlaunch
  rcases hnamed with hnamed | hl
  · rw [← h, hnamed]
    rfl
  · rw [hl, Option.all_some, Bool.and_eq_true] at hlaunch
    cases hb' : b.threadId with
    | none =>
        rw [← h, hb', hl]
        rfl
    | some expected =>
        have hexpected := hlaunch.2
        rw [hb', Option.all_some, decide_eq_true_iff] at hexpected
        rw [← h, hb', hexpected]
        rfl

end Coherent

/-! ### Every call keeps a home coherent -/

/-- Every statement leaves the home coherent. -/
abbrev Holds {α : Type} (profile scope : String) (post : α → Home → Prop) (p : Action α)
    (s : Home) : Prop :=
  Kept (Coherent profile scope) post p s

section Kept

variable {profile scope : String} {s : Home} {b : Binding}

theorem holds_aside {α : Type} {p : Action α} (h : Within Aside p.run)
    (hs : Coherent profile scope s) : Holds profile scope (fun _ _ => True) p s :=
  kept_within h (fun _ _ haside hs => hs.aside haside) hs

theorem holds_saveBinding {b' : Binding}
    (h : Coherent profile scope { s with binding := some b' }) (hs : Coherent profile scope s) :
    Holds profile scope (fun _ t => t = { s with binding := some b' }) (saveBinding b') s := by
  refine kept_transaction hs ?_
  rintro i _ _ ⟨⟩
  exact ⟨h, rfl⟩

/-- A binding that is written again for the same launch. -/
theorem holds_rebind (b' : Binding) (hs : Coherent profile scope s) (hb : s.binding = some b)
    (hprofile : b'.profile = b.profile ∧ b'.scope = b.scope)
    (htoken : b'.launchToken = b.launchToken)
    (hkept : ∀ thread, b.threadId = some thread → b'.threadId = some thread)
    (huuid : ∀ thread, b'.threadId = some thread → IsUuid thread) :
    Holds profile scope (fun _ t => t = { s with binding := some b' }) (saveBinding b') s :=
  holds_saveBinding (hs.rebind hb hprofile htoken hkept huuid) hs

theorem forM_parseUuid {thread : Option String} {u : Unit} (h : thread.forM parseUuid = .ok u) :
    ∀ named, thread = some named → IsUuid named := by
  rintro named rfl
  exact parseUuid_eq_ok.mp h

theorem holds_previousThread (hs : Coherent profile scope s) :
    Holds profile scope (fun thread t => t = s ∧ ∀ named, thread = some named → IsUuid named)
      (previousThread profile scope) s := by
  refine kept_bind (fun legacy t => t = s) (kept_query hs fun _ _ => rfl) ?_
  rintro legacy s hs rfl
  cases legacy with
  | none => exact kept_pure hs ⟨rfl, fun _ h => by cases h⟩
  | some legacy =>
      refine kept_bind (fun _ t => t = s) (kept_check hs fun _ _ => rfl) ?_
      rintro _ s hs rfl
      refine kept_bind (fun _ t => t = s) ?_ ?_
      · exact kept_reads (within_check fun _ => within_query fun _ => rfl) hs
      · rintro _ s hs rfl
        refine kept_bind (fun _ t => t = s ∧ ∀ named, legacy.thread = some named → IsUuid named)
          (kept_check hs fun _ h => ⟨rfl, forM_parseUuid h⟩) ?_
        rintro _ s hs ⟨rfl, h⟩
        exact kept_pure hs ⟨rfl, h⟩

theorem holds_newUuid (hs : Coherent profile scope s) :
    Holds profile scope (fun token t => t = s ∧ IsUuid token) newUuid s := by
  refine kept_transaction hs fun i token t h => ?_
  obtain ⟨_, huuid, h⟩ := bind_eq_ok.mp h
  cases h
  exact ⟨hs, rfl, parseUuid_eq_ok.mp huuid⟩

theorem holds_newBinding (hs : Coherent profile scope s) (hnone : s.binding = none) :
    Holds profile scope (fun b t => t.binding = some b) (newBinding profile scope) s := by
  have hretired : AllRetired s := by
    intro thread c hc
    by_contra hstate
    obtain ⟨b, hb, -⟩ := hs.current thread c hc hstate
    rw [hnone] at hb
    cases hb
  refine kept_bind _ (holds_newUuid hs) ?_
  rintro token s hs ⟨rfl, htoken⟩
  refine kept_bind _ (holds_previousThread hs) ?_
  rintro thread s hs ⟨rfl, hthread⟩
  refine kept_bind (fun _ t => t = s) (kept_query hs fun _ _ => rfl) ?_
  rintro epoch s hs rfl
  refine kept_bind _ (holds_saveBinding (hs.bind hretired ⟨rfl, rfl⟩ htoken hthread) hs) ?_
  rintro _ _ ht rfl
  exact kept_pure ht rfl

theorem holds_bindScope (hs : Coherent profile scope s) :
    Holds profile scope (fun b t => t.binding = some b) (bindScope profile scope) s := by
  refine kept_bind (fun b t => t = s ∧ s.binding = b)
    (kept_query hs fun b h => ⟨rfl, existingBinding_eq h⟩) ?_
  rintro b s hs ⟨rfl, hb⟩
  cases b with
  | some existing => exact kept_pure hs hb
  | none => exact holds_newBinding hs hb

/-- What is recorded is the conversation of the binding. -/
theorem holds_recordContext {owner place thread : String} (hs : Coherent profile scope s)
    (hown : owner = profile ∧ place = scope) (hthread : Recorded thread s) :
    Holds profile scope (fun _ t => t.binding = s.binding ∧ t.launches = s.launches)
      (recordContext owner place thread) s := by
  obtain ⟨rfl, rfl⟩ := hown
  refine kept_bind (fun _ t => t = s) (kept_check hs fun _ _ => rfl) ?_
  rintro _ s hs rfl
  refine kept_bind _ (kept_reads (within_requireContext fun _ => rfl) hs) ?_
  rintro _ s hs rfl
  refine kept_bind _ (kept_reads (within_epochOf fun _ => rfl) hs) ?_
  rintro current s hs rfl
  refine kept_bind (fun _ t => t.binding = s.binding ∧ t.launches = s.launches)
    (kept_transaction hs fun i _ t h => ?_) fun _ t ht h => kept_pure ht h
  rcases insertContext_eq h with ⟨hsame, -⟩ | ⟨c, rows, hinsert, hsame, -, -, hprofile, hscope, -⟩
  · cases hsame
    exact ⟨hs, rfl, rfl⟩
  · cases hsame
    exact ⟨hs.write (Table.get?_insert? hinsert) ⟨hprofile, hscope⟩ fun _ => hthread, rfl, rfl⟩

theorem isUuid_of_canonical {thread parsed : String} (h : Uuid.canonical thread = some parsed) :
    IsUuid thread ∧ IsUuid parsed := by
  have hparse {text form : String} (h : Uuid.canonical text = some form) : IsUuid text := by
    rw [Uuid.canonical, Option.map_eq_some_iff] at h
    obtain ⟨digits, hdigits, -⟩ := h
    rw [IsUuid, hdigits]
    rfl
  exact ⟨hparse h, hparse (Uuid.canonical_canonical h)⟩

theorem holds_recordThread {launchToken thread : String} {locked : Bool}
    (hs : Coherent profile scope s) :
    Holds profile scope (fun _ _ => True) (recordThread profile scope launchToken thread locked) s
      := by
  refine kept_bind _ (holds_bindScope hs) fun b s hs hb => ?_
  refine kept_bind (fun parsed t => t = s ∧ IsUuid parsed) (kept_check hs fun parsed h => ⟨rfl,
    (isUuid_of_canonical (context_eq_ok.mp h)).2⟩) ?_
  rintro parsed s hs ⟨rfl, huuid⟩
  refine kept_bind (fun _ t => t = s) (kept_query hs fun _ _ => rfl) ?_
  rintro _ s hs rfl
  cases hthread : b.threadId with
  | some expected =>
      refine kept_bind (fun _ t => t = s ∧ expected = parsed)
        (kept_check hs fun _ h => ⟨rfl, by simpa using h⟩) ?_
      rintro _ s hs ⟨rfl, rfl⟩
      exact kept_bind _ (holds_recordContext hs ⟨rfl, rfl⟩ ⟨b, hb, .inl hthread⟩) fun _ t ht _ =>
        kept_pure ht trivial
  | none =>
      refine kept_bind (fun _ t => t = s ∧ b.launchToken = launchToken)
        (kept_check hs fun _ h => ⟨rfl, by simpa using h⟩) ?_
      rintro _ s hs ⟨rfl, rfl⟩
      refine kept_bind (fun _ t => t = s ∧ s.launches.get? b.launchToken = some (.codex, parsed))
        (kept_query hs fun _ h => ⟨rfl, by simpa using h⟩) ?_
      rintro _ s hs ⟨rfl, hlaunch⟩
      refine kept_bind _ (holds_recordContext hs ⟨rfl, rfl⟩ ⟨b, hb, .inr hlaunch⟩) fun _ t ht h => ?_
      split
      · refine (holds_rebind { b with threadId := some parsed } ht (h.1.trans hb) ⟨rfl, rfl⟩ rfl
          ?_ ?_).imp fun _ _ _ _ => trivial
        · intro named hnamed
          rw [hthread] at hnamed
          cases hnamed
        · rintro _ ⟨⟩
          exact huuid
      · exact kept_pure ht trivial

/-! #### A home is entered -/

theorem holds_prepareHome {executable : String} (hs : Coherent profile scope s) :
    Holds profile scope (fun b t => t.binding = some b) (prepareHome profile scope executable) s
      := by
  refine kept_bind _ (holds_bindScope hs) fun b s hs hb => ?_
  refine kept_bind (fun _ t => t = s) (kept_query hs fun _ _ => rfl) ?_
  rintro _ s hs rfl
  refine kept_bind _ (kept_reads (within_requireContext fun _ => rfl) hs) ?_
  rintro _ s hs rfl
  refine kept_bind _ (holds_rebind { b with providerExecutable := some executable } hs hb ⟨rfl, rfl⟩
    rfl (fun _ h => h) fun thread h => hs.thread b thread hb h) ?_
  rintro _ _ ht rfl
  exact kept_pure ht rfl

theorem holds_bindExact {launchToken thread : String} (hs : Coherent profile scope s)
    (huuid : IsUuid thread) : Holds profile scope
      (fun _ t => t.binding = s.binding ∧ t.launches.get? launchToken = some (.codex, thread))
      (bindExact launchToken thread) s := by
  refine kept_transaction hs fun i _ t h => ?_
  cases hlaunch : s.launches.get? launchToken with
  | some launch =>
      rw [hlaunch] at h
      obtain ⟨_, hsame, h⟩ := bind_eq_ok.mp h
      rw [ensure_eq_ok, decide_eq_true_iff] at hsame
      cases h
      exact ⟨hs, rfl, hsame ▸ hlaunch⟩
  | none =>
      rw [hlaunch] at h
      obtain ⟨rows, hinsert, h⟩ := bind_eq_ok.mp h
      rw [context_eq_ok] at hinsert
      cases h
      refine ⟨hs.launch hinsert huuid, rfl, ?_⟩
      change rows.get? launchToken = _
      rw [Table.get?_insert? hinsert, if_pos rfl]

theorem holds_finishSharedReservation {thread : String} (hs : Coherent profile scope s)
    (hb : s.binding = some b) (huuid : IsUuid thread) :
    Holds profile scope (fun b' t => t.binding = some b' ∧ b'.threadId = b.threadId)
      (finishSharedReservation b thread) s := by
  have hown := hs.bound b hb
  refine kept_bind _ (holds_bindExact hs huuid) fun _ t ht hbound => ?_
  obtain ⟨hsame, hlaunch⟩ := hbound
  have hbt := hsame.trans hb
  refine kept_bind _ (holds_recordContext ht hown ⟨b, hbt, .inr hlaunch⟩) fun _ u hu h => ?_
  have hbu := h.1.trans hbt
  refine kept_bind _ (holds_rebind { b with sharedReady := true } hu hbu ⟨rfl, rfl⟩ rfl
    (fun _ h => h) fun thread h => hu.thread b thread hbu h) ?_
  rintro _ _ hv rfl
  exact kept_pure hv ⟨rfl, rfl⟩

theorem holds_reserveSharedThread {thread : String} (hs : Coherent profile scope s)
    (hb : s.binding = some b) (hnone : b.threadId = none) :
    Holds profile scope (fun b' t => t.binding = some b' ∧ b'.threadId ≠ none)
      (reserveSharedThread b thread) s := by
  have hfresh (named : String) (h : b.threadId = some named) : False := by
    rw [hnone] at h
    cases h
  refine kept_bind (fun _ t => t = s) (kept_check hs fun _ _ => rfl) ?_
  rintro _ s hs rfl
  refine kept_bind _ (holds_rebind { b with sharedCreation := true } hs hb ⟨rfl, rfl⟩ rfl
    (fun _ h => h) fun named h => (hfresh named h).elim) ?_
  rintro _ _ ht rfl
  refine kept_bind (fun parsed t => t = { s with binding := some { b with sharedCreation := true } } ∧
    IsUuid thread ∧ IsUuid parsed) (kept_check ht fun parsed h => ⟨rfl,
      isUuid_of_canonical (context_eq_ok.mp h)⟩) ?_
  rintro parsed _ ht ⟨rfl, hthread, hparsed⟩
  refine kept_bind _ (holds_rebind { b with sharedCreation := true, threadId := some parsed } ht rfl
    ⟨rfl, rfl⟩ rfl (fun named h => (hfresh named h).elim) ?_) ?_
  · rintro _ ⟨⟩
    exact hparsed
  · rintro _ _ hu rfl
    refine (holds_finishSharedReservation hu rfl hthread).imp fun b' t _ h => ⟨h.1, ?_⟩
    rw [h.2]
    simp

theorem holds_confirmFirstLaunch (hs : Coherent profile scope s) (hb : s.binding = some b) :
    Holds profile scope (fun _ _ => True) (confirmFirstLaunch b) s := by
  have hown := hs.bound b hb
  rw [confirmFirstLaunch]
  split
  · rename_i hnone
    rw [Option.isNone_iff_eq_none] at hnone
    refine kept_bind (fun launch t => t = s ∧ s.launches.get? b.launchToken = launch)
      (kept_query hs fun _ h => ⟨rfl, Except.ok.inj h⟩) ?_
    rintro launch s hs ⟨rfl, hlaunch⟩
    rw [confirmThread.eq_def]
    split
    · rename_i thread
      refine kept_bind (fun _ t => t = s) (kept_query hs fun _ _ => rfl) ?_
      rintro _ s hs rfl
      refine kept_bind _ (holds_recordContext hs hown ⟨b, hb, .inr hlaunch⟩) fun _ t ht h => ?_
      refine (holds_rebind { b with threadId := some thread } ht (h.1.trans hb) ⟨rfl, rfl⟩ rfl
        ?_ ?_).imp fun _ _ _ _ => trivial
      · intro named hnamed
        rw [hnone] at hnamed
        cases hnamed
      · rintro _ ⟨⟩
        exact hs.launches _ _ hlaunch
    · exact kept_pure hs trivial
  · exact kept_pure hs trivial

theorem holds_runHome {executable thread : String} {pending : Bool}
    (hs : Coherent profile scope s) :
    Holds profile scope (fun _ _ => True) (runHome profile scope executable pending thread) s := by
  refine kept_bind _ (holds_prepareHome hs) fun b s hs hb => ?_
  refine kept_bind (fun _ t => t = s) (kept_check hs fun _ _ => rfl) ?_
  rintro _ s hs rfl
  refine kept_bind (fun b' t => t.binding = some b') ?_ fun b' t ht hb' =>
    holds_confirmFirstLaunch ht hb'
  rw [launchBoundHome]
  split
  · rename_i hnone
    rw [Bool.and_eq_true, Option.isNone_iff_eq_none] at hnone
    exact (holds_reserveSharedThread hs hb hnone.1).imp fun _ _ _ h => h.1
  · exact kept_pure hs hb

/-! #### Turns -/

theorem aside_beforeSubmit {session request : String} :
    Within Aside (beforeSubmit scope request session).run := by
  refine within_check fun _ => within_bind (within_query Aside.refl) fun profile => ?_
  refine within_bind (within_requireContext Aside.refl) fun _ => within_bind aside_attach ?_
  refine fun _ => within_bind (within_requireForeground Aside.refl) fun _ => ?_
  refine within_bind (within_query Aside.refl) fun config => within_check fun _ => ?_
  refine within_bind (within_requireForeground Aside.refl) fun _ => ?_
  refine within_bind (within_query Aside.refl) fun _ => within_bind ?_ fun _ => ?_
  · refine within_transaction Aside.refl fun i s _ t h => ?_
    obtain ⟨_, -, h⟩ := bind_eq_ok.mp h
    obtain ⟨_, -, h⟩ := bind_eq_ok.mp h
    obtain ⟨turns, -, h⟩ := bind_eq_ok.mp h
    cases h
    exact ⟨rfl, le_rfl, rfl, rfl, rfl⟩
  · exact within_aside fun _ s => ⟨rfl, le_rfl, rfl, rfl, rfl⟩

theorem aside_finish {session request : String} {interrupted : Bool} :
    Within Aside (finish scope request session interrupted).run := by
  refine within_check fun _ => within_transaction Aside.refl fun i s _ t h => ?_
  obtain ⟨turn, -, h⟩ := bind_eq_ok.mp h
  cases h
  exact ⟨rfl, le_rfl, rfl, rfl, rfl⟩

theorem aside_closeAdapter {session request : String} :
    Within Aside (closeAdapter scope session request).run :=
  within_check fun _ => within_aside fun _ s => ⟨rfl, le_rfl, rfl, rfl, rfl⟩

/-! #### A fresh context -/

variable {request thread : String}

/-- When the conversation of the binding is retired, every context is. -/
theorem Coherent.allRetired {recorded : Option String} (hs : Coherent profile scope s)
    (hb : s.binding = some b) (hrecorded : recordedThread b s = .ok recorded)
    (hretired : ∀ thread, recorded = some thread → Retired thread s) : AllRetired s := by
  intro named c hc
  by_contra hstate
  have hnamed := recordedThread_unique hb hrecorded (hs.current named c hc hstate)
  obtain ⟨c', hc', hstate'⟩ := hretired named hnamed
  rw [hc] at hc'
  cases hc'
  exact hstate hstate'

theorem holds_stage {current : Nat} {prior : Option String} (hs : Coherent profile scope s)
    (hthread : Recorded thread s) : Holds profile scope
      (fun _ t => t.binding = s.binding ∧ t.launches = s.launches ∧ RetiringBy request thread t)
      (stageRetirement profile scope request thread current prior) s := by
  refine kept_bind (fun _ t => t = s) (kept_check hs fun _ _ => rfl) ?_
  rintro _ s hs rfl
  refine kept_transaction hs fun i _ t h => ?_
  obtain ⟨-, -, c, rows, hsame, hwrote, hstate, hid, hprofile, hscope, -⟩ := stage_eq h
  have hrow : t.contexts.get? thread = some c := by rw [hwrote, if_pos rfl]
  cases hsame
  exact ⟨hs.write hwrote ⟨hprofile, hscope⟩ fun _ => hthread, rfl, rfl, c, hrow, hid, hstate⟩

/-- The binding and the launches are those of `s`, and the conversation is retired. -/
structure Leaves (thread : String) (s t : Home) : Prop where
  binding : t.binding = s.binding
  launches : t.launches = s.launches
  retired : Retired thread t

theorem Leaves.aside {t u : Home} (h : Leaves thread s t) (haside : Aside t u) :
    Leaves thread s u where
  binding := haside.binding.trans h.binding
  launches := haside.launches.trans h.launches
  retired := by
    obtain ⟨c, hc, hstate⟩ := h.retired
    exact ⟨c, haside.contexts ▸ hc, hstate⟩

theorem holds_leaves {α : Type} {p : Action α} {t : Home} (hp : Within Aside p.run)
    (ht : Coherent profile scope t) (h : Leaves thread s t) :
    Holds profile scope (fun _ u => Leaves thread s u) p t :=
  kept_frame (Leaves thread s) hp (fun _ _ haside ht h => ⟨ht.aside haside, h.aside haside⟩) ht h

theorem holds_completeRetirement (hs : Coherent profile scope s)
    (h : RetiringBy request thread s) :
    Holds profile scope (fun _ t => Leaves thread s t) (completeRetirement request thread) s := by
  obtain ⟨c, hc, hid, hstate⟩ := h
  have hwrote := retire_wrote hc hid hstate
  have hrow := hs.rows thread c hc
  refine kept_bind (fun _ t => Leaves thread s t) (kept_transaction hs ?_) fun _ t ht h => ?_
  · rintro i _ _ ⟨⟩
    refine ⟨hs.write hwrote hrow fun h => absurd rfl h, rfl, rfl, { c with state := .retired }, ?_,
      rfl⟩
    rw [hwrote, if_pos rfl]
  · refine kept_bind _ (holds_leaves within_recovered ht h) fun _ u hu h => ?_
    exact holds_leaves (within_aside fun _ s => ⟨rfl, le_rfl, rfl, rfl, rfl⟩) hu h

theorem holds_retireContext {recorded : Option String} (hs : Coherent profile scope s)
    (hrecorded : ∀ thread, recorded = some thread → Recorded thread s) :
    Holds profile scope (fun receipt t => Leaves receipt.retiredThread s t)
      (retireContext profile scope request recorded) s := by
  refine kept_bind _ (kept_reads (within_epochOf fun _ => rfl) hs) ?_
  rintro current s hs rfl
  refine kept_bind (fun _ t => t = s) (kept_query hs fun _ _ => rfl) ?_
  rintro prior s hs rfl
  refine kept_bind (fun thread t => t = s ∧ recorded = some thread)
    (kept_check hs fun _ h => ⟨rfl, context_eq_ok.mp h⟩) ?_
  rintro thread s hs ⟨rfl, hthread⟩
  refine kept_bind (fun _ t => t = s) (kept_check hs fun _ _ => rfl) ?_
  rintro _ s hs rfl
  refine kept_bind _ (holds_stage hs (hrecorded thread hthread)) ?_
  rintro _ t ht ⟨hbinding, hlaunches, hretiring⟩
  refine kept_bind (fun _ u => u = t) (kept_transaction ht fun i _ u h => ?_) ?_
  · obtain ⟨_, -, h⟩ := bind_eq_ok.mp h
    cases h
    exact ⟨ht, rfl⟩
  · rintro _ t ht rfl
    refine kept_bind _ (holds_completeRetirement ht hretiring) fun _ u hu h => kept_pure hu ?_
    exact ⟨h.binding.trans hbinding, h.launches.trans hlaunches, h.retired⟩

theorem holds_completedReceipt (hs : Coherent profile scope s) :
    Holds profile scope (fun receipt t => t = s ∧ ∀ r, receipt = some r →
      Retired r.retiredThread s) (completedReceipt profile scope request) s := by
  refine kept_bind (fun _ t => t = s) (kept_check hs fun _ _ => rfl) ?_
  rintro _ s hs rfl
  refine kept_bind _ (kept_reads (within_epochOf fun _ => rfl) hs) ?_
  rintro current s hs rfl
  refine kept_bind (fun row t => t = s ∧ retiredBy request s = row)
    (kept_query hs fun _ h => ⟨rfl, Except.ok.inj h⟩) ?_
  rintro row s hs ⟨rfl, hrow⟩
  cases row with
  | none => exact kept_pure hs ⟨rfl, fun _ h => by cases h⟩
  | some row =>
      obtain ⟨named, c⟩ := row
      refine kept_bind (fun _ t => t = s) (kept_check hs fun _ _ => rfl) ?_
      rintro _ s hs rfl
      refine kept_pure hs ⟨rfl, ?_⟩
      rintro _ ⟨⟩
      have hfound := List.find?_some hrow
      rw [Bool.and_eq_true, decide_eq_true_iff, decide_eq_true_iff] at hfound
      exact ⟨c, Table.mem_rows_iff.mp (List.mem_of_find?_eq_some hrow), hfound.2⟩

theorem holds_recoverContext {recorded : Option String} (hs : Coherent profile scope s)
    (hrecorded : ∀ thread, recorded = some thread → Recorded thread s) :
    Holds profile scope (fun receipt t => Leaves receipt.retiredThread s t)
      (recoverContext profile scope request recorded) s := by
  refine kept_bind _ (holds_completedReceipt hs) ?_
  rintro receipt s hs ⟨rfl, hreceipt⟩
  cases receipt with
  | some receipt => exact kept_pure hs ⟨rfl, rfl, hreceipt receipt rfl⟩
  | none => exact holds_retireContext hs hrecorded

/-- Every context is retired, and this is the binding. -/
structure Vacant (b : Binding) (s : Home) : Prop where
  retired : AllRetired s
  bound : s.binding = some b

theorem Vacant.aside {t : Home} (h : Vacant b s) (haside : Aside s t) : Vacant b t where
  retired thread c hc := h.retired thread c (haside.contexts ▸ hc)
  bound := haside.binding.trans h.bound

theorem Coherent.untrack (hs : Coherent profile scope s) (h : Vacant b s) (thread : String) :
    Coherent profile scope (untrack thread s) where
  owner := hs.owner
  bound := hs.bound
  token := hs.token
  thread := hs.thread
  launches token launch hl := hs.launches token launch (Table.get?_delete.mp hl).1
  rows := hs.rows
  current thread c hc hstate := absurd (h.retired thread c hc) hstate

theorem holds_finishRetirement (hs : Coherent profile scope s) (h : Vacant b s) :
    Holds profile scope (fun _ _ => True) (finishRetirement b) s := by
  refine kept_bind _ (holds_newUuid hs) ?_
  rintro token s hs ⟨rfl, htoken⟩
  refine kept_bind (fun _ t => t = s) (kept_query hs fun _ _ => rfl) ?_
  rintro epoch s hs rfl
  refine kept_bind (fun _ t => t = s) (kept_query hs fun _ _ => rfl) ?_
  rintro recorded s hs rfl
  refine kept_bind (fun _ t => Vacant b t) ?_ fun _ t ht h => ?_
  · cases recorded with
    | none => exact kept_pure hs h
    | some thread =>
        refine kept_transaction hs ?_
        rintro i _ _ ⟨⟩
        exact ⟨hs.untrack h thread, h.retired, h.bound⟩
  · have hown := ht.bound b h.bound
    refine kept_bind _ (holds_saveBinding (ht.bind (b := nextBinding b token epoch) h.retired hown
      htoken fun _ hthread => by cases hthread) ht) fun _ u hu _ => ?_
    exact holds_aside (within_bind aside_attach fun _ => within_controllerRecovered) hu

theorem holds_freshContext (hs : Coherent profile scope s) :
    Holds profile scope (fun _ _ => True) (freshContext profile scope request) s := by
  refine kept_bind _ (holds_bindScope hs) fun b s hs hb => ?_
  refine kept_bind (fun _ t => t = s) (kept_check hs fun _ _ => rfl) ?_
  rintro _ s hs rfl
  refine kept_bind _ (holds_completedReceipt hs) ?_
  rintro receipt s hs ⟨rfl, hreceipt⟩
  cases receipt with
  | some receipt =>
      refine kept_bind (fun recorded t => t = s ∧ recordedThread b s = .ok recorded)
        (kept_query hs fun _ h => ⟨rfl, h⟩) ?_
      rintro recorded s hs ⟨rfl, hrecorded⟩
      split
      · rename_i heq
        refine kept_bind _ (holds_finishRetirement hs ⟨hs.allRetired hb hrecorded ?_, hb⟩)
          fun _ t ht _ => kept_pure ht trivial
        intro thread hthread
        rw [heq] at hthread
        cases hthread
        exact hreceipt receipt rfl
      · exact kept_pure hs trivial
  | none =>
      refine kept_bind (fun recorded t => t = s ∧ recordedThread b s = .ok recorded)
        (kept_query hs fun _ h => ⟨rfl, h⟩) ?_
      rintro recorded s hs ⟨rfl, hrecorded⟩
      refine kept_bind _ (holds_recoverContext hs ?_) fun receipt t ht h => ?_
      · rintro thread rfl
        exact recordedThread_recorded hb hrecorded
      · refine kept_bind (fun _ u => u = t ∧ some receipt.retiredThread = recorded)
          (kept_check ht fun _ h => ⟨rfl, by simpa using h⟩) ?_
        rintro _ t ht ⟨rfl, hsame⟩
        have hrecorded : recordedThread b t = .ok recorded := by
          rw [recordedThread, h.launches]
          exact hrecorded
        refine kept_bind _ (holds_finishRetirement ht ⟨ht.allRetired (h.binding.trans hb) hrecorded
          ?_, h.binding.trans hb⟩) fun _ u hu _ => kept_pure hu trivial
        intro thread hthread
        rw [← hsame] at hthread
        cases hthread
        exact h.retired

/-- **Coherence.**  Every statement of every call keeps the home coherent. -/
theorem HomeCall.kept (call : HomeCall) (hs : Coherent profile scope s) :
    Holds profile scope (fun _ _ => True) (call.action profile scope) s := by
  have hreply {α : Type} {p : Action α} (hp : Within Aside p.run) :
      Holds profile scope (fun _ _ => True) (do let _ ← p; return ()) s :=
    kept_bind _ (holds_aside hp hs) fun _ t ht _ => kept_pure ht trivial
  cases call with
  | run executable pending thread => exact holds_runHome hs
  | recordThread launchToken thread => exact holds_recordThread hs
  | bindLaunch launchToken provider thread =>
      refine kept_bind (fun _ t => t = s ∧ IsUuid thread)
        (kept_check hs fun _ h => ⟨rfl, parseUuid_eq_ok.mp h⟩) ?_
      rintro _ s hs ⟨rfl, huuid⟩
      refine kept_transaction hs ?_
      rintro i _ _ ⟨⟩
      cases hinsert : s.launches.insert? launchToken (provider, thread) with
      | none => exact ⟨hs, trivial⟩
      | some rows => exact ⟨hs.launch hinsert huuid, trivial⟩
  | beforeSubmit request session => exact hreply aside_beforeSubmit
  | finish request session interrupted => exact hreply aside_finish
  | closeAdapter session request => exact hreply aside_closeAdapter
  | forget =>
      exact holds_aside (within_aside fun _ s => ⟨rfl, Nat.le_succ _, rfl, rfl, rfl⟩) hs
  | revokeBoard name shared =>
      refine holds_aside (within_bind aside_attach fun _ => within_check fun _ => ?_) hs
      refine within_bind (within_aside fun _ s => ?_) fun _ => within_finishRevocations
      cases shared
      · exact .refl s
      · exact ⟨rfl, le_rfl, rfl, rfl, rfl⟩
  | freshContext request =>
      exact kept_bind _ (holds_freshContext hs) fun _ t ht _ => kept_pure ht trivial

end Kept

end Pikamux.Native
