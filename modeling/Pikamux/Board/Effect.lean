import Pikamux.Board.Hooks

/-!
# Board — Effect

What one hook does to what the board shows of its session.

* `projectStatus_live` — while its process lives, a session shows a danger or else what its
  lifecycle says.
* `Effect` — what hooks have recorded of a session: the newest observation, what is shown of it,
  and the newest word of each owner.  Effects compose (`Effect.trans`).
* `effect_handleTracked` — the effect of a hook that does not end its session.
-/

namespace Pikamux.Board

open Support

/-- What the board shows of a session. -/
structure Shown where
  status : Status
  unread : Bool
  attentionReason : Option String
  error : Option String
  deriving DecidableEq, Repr

def Session.shown (session : Session) : Shown where
  status := session.status
  unread := session.unread
  attentionReason := session.attentionReason
  error := session.error

def StatusObservation.shown (item : StatusObservation) : Shown where
  status := item.status
  unread := item.unread
  attentionReason := item.attentionReason
  error := item.error

def StatusProjection.shown (projection : StatusProjection) : Shown where
  status := projection.status
  unread := projection.unread
  attentionReason := projection.attentionReason
  error := projection.error

def Ledger.lifecycle (ledger : Ledger) (key : SessionKey) : Option StatusObservation :=
  ledger.observations.get? (key, .lifecycle)

/-- The safety observation that goes before what the lifecycle says. -/
def Ledger.danger (ledger : Ledger) (key : SessionKey) : Option StatusObservation :=
  (ledger.observations.get? (key, .safety)).filter fun item => item.status ∈ [.openTwice, .error]

def Ledger.runtime (ledger : Ledger) (key : SessionKey) : Option StatusObservation :=
  ledger.observations.get? (key, .runtime)

def Ledger.shown (ledger : Ledger) (key : SessionKey) : Option Shown :=
  (ledger.sessions.get? key).map Session.shown

def Ledger.lastEventAt (ledger : Ledger) (key : SessionKey) : Option Int :=
  (ledger.sessions.get? key).map Session.lastEventAt

/-- The hook is about this session: its conversation is the session, or its active thread. -/
def Ledger.resolves (ledger : Ledger) (key : SessionKey) (thread : String) : Prop :=
  (ledger.getSessionByThread key.1 thread).map Session.sessionId = some key.2

/-- What a lifecycle event of a live process says. -/
structure StatusObservation.Lively (item : StatusObservation) : Prop where
  status : item.status ∈ [.needsYou, .error, .working, .ready]
  reason : item.attentionReason ∉ [some "identity", some "exited"]

/-- What is shown when these observations have been recorded, in this order. -/
def Shown.after (shown : Shown) (danger held : Option StatusObservation)
    (items : List StatusObservation) : Shown :=
  if items = [] then shown
  else
    (newest StatusObservation.observedAt held items).elim shown fun item =>
      (danger.getD item).shown

/-- The time of what is shown then. -/
def lastAfter (danger held : Option StatusObservation) (items : List StatusObservation)
    (lastEventAt : Int) : Int :=
  if items = [] then lastEventAt
  else
    (newest StatusObservation.observedAt held items).elim lastEventAt fun item =>
      max lastEventAt (danger.getD item).observedAt

@[simp] theorem Shown.after_nil (shown : Shown) (danger held : Option StatusObservation) :
    shown.after danger held [] = shown := rfl

@[simp] theorem lastAfter_nil (danger held : Option StatusObservation) :
    lastAfter danger held [] = id := rfl

/-! ### Events -/

section Items

variable {provider : Provider} {payload : HookPayload} {context : HookContext}

/-- Only `SessionEnd` looks at what is there already. -/
theorem hookObservation_eq {existing : Option Session} (h : payload.hookEventName ≠ "SessionEnd") :
    hookObservation provider payload context existing =
      hookObservation provider payload context none := by
  simp [hookObservation, h]

theorem hookObservation_observedAt (payload : HookPayload) (context : HookContext) :
    (hookObservation provider payload context none).observedAt = context.now := by
  simp [hookObservation]

theorem eventState_kind (provider : Provider) (payload : HookPayload) :
    (eventState provider payload).kind = .lifecycle := by
  unfold eventState
  split <;> try split
  all_goals rfl

theorem eventState_lively (h : payload.hookEventName ≠ "SessionEnd") :
    (eventState provider payload).Lively := by
  constructor
  · unfold eventState
    split <;> try split
    all_goals first | decide | exact absurd ‹_› h | simp [eventObservation]
  · unfold eventState
    split <;> try split
    all_goals simp [eventObservation]

theorem hookObservation_lively (hevent : payload.hookEventName ≠ "SessionEnd") :
    (hookObservation provider payload context none).Lively := by
  have hstate : (eventState provider payload).Lively := eventState_lively hevent
  obtain ⟨hstatus, hreason⟩ := hstate
  simp only [hookObservation, if_neg hevent]
  split <;> exact ⟨hstatus, hreason⟩

theorem hookObservation_kind (provider : Provider) (payload : HookPayload) (context : HookContext)
    (existing : Option Session) :
    (hookObservation provider payload context existing).kind = .lifecycle := by
  have hstate : (eventState provider payload).kind = .lifecycle := eventState_kind provider payload
  unfold hookObservation
  dsimp only
  generalize (if payload.hookEventName = "SessionEnd" then
    existing.filter preserveUnreadOnSessionEnd else none) = preserved
  cases preserved <;> dsimp only <;> split <;> exact hstate

end Items

/-! ### What is shown -/

section Projections

variable {ledger : Ledger} {key : SessionKey} {item : StatusObservation}

theorem newestOf_statusObservations (ledger : Ledger) (key : SessionKey) (kind : ObservationKind) :
    newestOf kind (ledger.statusObservations key) =
      (ledger.observations.get? (key, kind)).map fun item => { item with kind } := by
  rw [newestOf, Ledger.statusObservations]
  cases hl : ledger.observations.get? (key, .lifecycle) <;>
    cases hr : ledger.observations.get? (key, .runtime) <;>
    cases hs : ledger.observations.get? (key, .safety) <;>
    cases kind <;> simp [hl, hr, hs, newest]

theorem projectLifecycle_lively (hlively : item.Lively) :
    projectLifecycle item true = some (fromObservation item item.status item.unread "lifecycle") := by
  obtain ⟨hstatus, -⟩ := hlively
  simp only [List.mem_cons, List.not_mem_nil, or_false] at hstatus
  rcases hstatus with h | h | h | h <;> simp [projectLifecycle, h]

/-- While the process lives, a runtime failure does not count. -/
theorem projectStatus_of_live (observations : List StatusObservation)
    (fallback : ProjectionFallback) {projection : StatusProjection}
    (h : (newestOf .lifecycle observations).bind (projectLifecycle · true) = some projection) :
    projectStatus observations true "unknown" fallback =
      (((newestOf .safety observations).filter fun item => item.status ∈ [.openTwice, .error]).map
        fun item => fromObservation item item.status item.unread "safety_precedence").getD
          projection := by
  have hruntime : (newestOf .runtime observations).filter (fun item =>
      !true && item.status ∈ [.error, .openTwice]) = none := by
    cases newestOf .runtime observations <;> rfl
  rw [projectStatus, hruntime, h]
  cases (newestOf .safety observations).filter fun item => item.status ∈ [.openTwice, .error] <;> rfl

/-- What is shown is a danger, or else what the lifecycle says. -/
theorem projectStatus_live (fallback : ProjectionFallback)
    (hitem : ledger.lifecycle key = some item) (hlively : item.Lively) :
    let projection := projectStatus (ledger.statusObservations key) true "unknown" fallback
    let source := (ledger.danger key).getD item
    projection.shown = source.shown ∧ projection.observedAt = source.observedAt := by
  have hlifecycle : (newestOf .lifecycle (ledger.statusObservations key)).bind
      (projectLifecycle · true) = some (fromObservation { item with kind := .lifecycle } item.status
        item.unread "lifecycle") := by
    rw [newestOf_statusObservations, ← Ledger.lifecycle, hitem]
    exact projectLifecycle_lively ⟨hlively.status, hlively.reason⟩
  dsimp only
  rw [projectStatus_of_live _ fallback hlifecycle, newestOf_statusObservations, Ledger.danger]
  cases ledger.observations.get? (key, .safety) with
  | none => exact ⟨rfl, rfl⟩
  | some danger =>
      by_cases h : danger.status ∈ [.openTwice, .error]
      · simp only [Option.map_some, Option.filter_some, h, decide_true, if_true]
        exact ⟨rfl, rfl⟩
      · simp only [Option.map_some, Option.filter_some, h, decide_false]
        exact ⟨rfl, rfl⟩

end Projections

/-! ### Which session -/

section Sessions

variable {s t : Ledger} {key : SessionKey} {thread : String}

theorem getSession_eq_none : s.getSession key = none ↔ s.sessions.get? key = none := by
  rw [Ledger.getSession, Option.map_eq_none_iff]

theorem resolves_iff : s.resolves key thread ↔
    thread = key.2 ∧ (s.sessions.get? key).isSome = true ∨
      s.sessions.get? (key.1, thread) = none ∧
        ∃ row, s.sessions.find? (ofThread key.1 thread) = some (key, row) := by
  rw [Ledger.resolves, Ledger.getSessionByThread]
  cases hrow : s.sessions.get? (key.1, thread) with
  | some row =>
      have hget : s.getSession (key.1, thread) =
          some { row with provider := key.1, sessionId := thread } := by
        rw [Ledger.getSession, hrow, Option.map_some]
      simp only [hget, Option.some_or, Option.map_some, Option.some.injEq, reduceCtorEq, false_and,
        or_false]
      constructor
      · rintro rfl
        exact ⟨rfl, by rw [show key = (key.1, key.2) from rfl, hrow, Option.isSome_some]⟩
      · exact And.left
  | none =>
      rw [getSession_eq_none.mpr hrow, Option.none_or]
      constructor
      · intro h
        cases hfind : s.sessions.find? (ofThread key.1 thread) with
        | none => simp [hfind] at h
        | some found =>
            obtain ⟨k, row⟩ := found
            obtain ⟨hget, hof⟩ := Table.find?_eq_some hfind
            rw [hfind] at h
            have hsession : s.getSession k = some { row with provider := k.1, sessionId := k.2 } := by
              rw [Ledger.getSession, hget, Option.map_some]
            simp only [Option.bind_eq_bind, Option.bind_some, hsession, Option.map_some,
              Option.some.injEq] at h
            simp only [ofThread, Bool.and_eq_true, decide_eq_true_eq] at hof
            obtain rfl : k = key := Prod.ext hof.1 h
            exact .inr ⟨rfl, row, rfl⟩
      · rintro (⟨rfl, hsome⟩ | ⟨-, row, hfind⟩)
        · rw [show key = (key.1, key.2) from rfl, hrow] at hsome
          cases hsome
        · obtain ⟨hget, -⟩ := Table.find?_eq_some hfind
          simp [hfind, Ledger.getSession, hget]

/-- The row that a hook of the session finds. -/
theorem getSessionByThread_of_resolves (h : s.resolves key thread) : ∃ row session,
    s.sessions.get? key = some row ∧ s.getSessionByThread key.1 thread = some session ∧
      session = { row with provider := key.1, sessionId := key.2 } ∧
      (thread ≠ key.2 → row.activeThreadId = some thread) := by
  rw [resolves_iff] at h
  rcases h with ⟨rfl, hsome⟩ | ⟨hnone, row, hfind⟩
  · obtain ⟨row, hrow⟩ := Option.isSome_iff_exists.mp hsome
    refine ⟨row, _, hrow, ?_, rfl, fun hne => absurd rfl hne⟩
    rw [Ledger.getSessionByThread, Ledger.getSession, hrow]
    rfl
  · obtain ⟨hget, hof⟩ := Table.find?_eq_some hfind
    simp only [ofThread, Bool.and_eq_true, decide_eq_true_eq] at hof
    refine ⟨row, _, hget, ?_, rfl, fun _ => hof.2⟩
    rw [Ledger.getSessionByThread, getSession_eq_none.mpr hnone, Option.none_or, hfind]
    simp [Ledger.getSession, hget]

/-- Changes of the sessions that leave which session a hook is about. -/
structure Ledger.Settled (key : SessionKey) (s t : Ledger) : Prop where
  absent : ∀ k, s.sessions.get? k = none → t.sessions.get? k = none
  row : ∀ row, s.sessions.get? key = some row → ∃ row', t.sessions.get? key = some row'
  find : ∀ thread row, s.sessions.find? (ofThread key.1 thread) = some (key, row) →
    ∃ row', t.sessions.find? (ofThread key.1 thread) = some (key, row')

theorem Ledger.Settled.refl (s : Ledger) : s.Settled key s :=
  ⟨fun _ h => h, fun row h => ⟨row, h⟩, fun _ row h => ⟨row, h⟩⟩

theorem Ledger.Settled.trans {u : Ledger} (h : s.Settled key t) (h' : t.Settled key u) :
    s.Settled key u where
  absent k hk := h'.absent k (h.absent k hk)
  row row hrow := by
    obtain ⟨row', hrow'⟩ := h.row row hrow
    exact h'.row row' hrow'
  find thread row hrow := by
    obtain ⟨row', hrow'⟩ := h.find thread row hrow
    exact h'.find thread row' hrow'

theorem Ledger.Settled.of_eq (h : t.sessions = s.sessions) : s.Settled key t :=
  ⟨fun _ hk => h ▸ hk, fun row hrow => ⟨row, h ▸ hrow⟩, fun _ row hrow => ⟨row, h ▸ hrow⟩⟩

theorem Ledger.Settled.resolves (h : s.Settled key t) (hs : s.resolves key thread) :
    t.resolves key thread := by
  rw [resolves_iff] at hs ⊢
  rcases hs with ⟨rfl, hsome⟩ | ⟨hnone, row, hfind⟩
  · obtain ⟨row, hrow⟩ := Option.isSome_iff_exists.mp hsome
    obtain ⟨row', hrow'⟩ := h.row row hrow
    exact .inl ⟨rfl, by rw [hrow', Option.isSome_some]⟩
  · exact .inr ⟨h.absent _ hnone, h.find thread row hfind⟩

/-- The row of the session is changed; its active thread stays. -/
theorem Ledger.Settled.modify {f : Session → Session}
    (hf : ∀ row, s.sessions.get? key = some row → (f row).activeThreadId = row.activeThreadId)
    (h : t.sessions = s.sessions.modify key f) : s.Settled key t where
  absent k hk := by
    rw [h, Table.get?_modify, hk]
    split <;> rfl
  row row hrow := ⟨f row, by rw [h, Table.get?_modify, if_pos rfl, hrow, Option.map_some]⟩
  find thread row hfind := by
    refine ⟨f row, ?_⟩
    rw [h, Table.find?_modify (fun b hb => ?_) hfind, if_pos rfl]
    rw [ofThread, ofThread, hf b hb]

/-- Another session is deleted. -/
theorem Ledger.Settled.delete {q : SessionKey → Session → Bool} (hq : ∀ row, q key row = false)
    (h : t.sessions = s.sessions.delete q) : s.Settled key t where
  absent k hk := by
    rw [h, Option.eq_none_iff_forall_ne_some]
    intro row hrow
    rw [(Table.get?_delete.mp hrow).1] at hk
    cases hk
  row row hrow := ⟨row, by rw [h, Table.get?_delete]; exact ⟨hrow, hq row⟩⟩
  find thread row hfind := ⟨row, by rw [h, Table.find?_delete hfind (hq row)]⟩

end Sessions

/-! ### What a hook does -/

/-- The observations `items` have been recorded of the session, and its processes were seen as
`owners` says; nothing else of it has changed. -/
structure Effect (key : SessionKey) (owners : List ((Int × String) × LiveOwner))
    (items : List StatusObservation) (s t : Ledger) : Prop where
  untracked : t.untracked = s.untracked
  pendingLaunches : t.pendingLaunches = s.pendingLaunches
  settled : s.Settled key t
  owner : ∀ process, t.liveOwners.get? (key, process) =
    newest LiveOwner.lastSeen (s.liveOwners.get? (key, process))
      ((owners.filter fun row => row.1 = process).map Prod.snd)
  danger : t.danger key = s.danger key
  lifecycle : t.lifecycle key = newest StatusObservation.observedAt (s.lifecycle key) items
  /-- What an event of a live process finds of the runtime is no longer so. -/
  runtime : s.danger key = none → ∀ item, t.runtime key = some item →
    s.runtime key = some item ∧ ∀ recorded ∈ items, recorded.observedAt < item.observedAt
  shown : t.shown key = (s.shown key).map (·.after (s.danger key) (s.lifecycle key) items)
  /-- Time zero is none. -/
  lastEventAt : (∀ item ∈ items, 0 < item.observedAt) →
    (∀ item, s.danger key = some item → item.observedAt ≠ 0) →
    t.lastEventAt key = (s.lastEventAt key).map (lastAfter (s.danger key) (s.lifecycle key) items)

section Effects

variable {key : SessionKey} {s t u : Ledger} {owners owners' : List ((Int × String) × LiveOwner)}
  {items items' : List StatusObservation}

theorem Shown.after_append (shown : Shown) (danger held : Option StatusObservation) :
    shown.after danger held (items ++ items') =
      (shown.after danger held items).after danger
        (newest StatusObservation.observedAt held items) items' := by
  by_cases hitems' : items' = []
  · simp [Shown.after, hitems']
  obtain ⟨item', hitem'⟩ : ∃ item', newest StatusObservation.observedAt
      (newest StatusObservation.observedAt held items) items' = some item' := exists_newest hitems'
  simp [Shown.after, hitems', newest_append, hitem']

theorem lastAfter_append (danger held : Option StatusObservation) (time : Int) :
    lastAfter danger held (items ++ items') time =
      lastAfter danger (newest StatusObservation.observedAt held items) items'
        (lastAfter danger held items time) := by
  by_cases hitems' : items' = []
  · simp [lastAfter, hitems']
  by_cases hitems : items = []
  · simp [lastAfter, hitems]
  obtain ⟨item, hitem⟩ : ∃ item, newest StatusObservation.observedAt held items = some item :=
    exists_newest hitems
  obtain ⟨item', hitem'⟩ : ∃ item', newest StatusObservation.observedAt (some item) items' =
      some item' := exists_newest hitems'
  have hle : item.observedAt ≤ item'.observedAt := (newest_le hitem').1 item rfl
  have hsource : (danger.getD item).observedAt ≤ (danger.getD item').observedAt := by
    cases danger with
    | none => exact hle
    | some _ => exact le_rfl
  simp only [lastAfter, hitems, hitems', newest_append, hitem, hitem', List.append_eq_nil_iff,
    and_self, if_false, Option.elim_some]
  omega

theorem Effect.trans (h : Effect key owners items s t) (h' : Effect key owners' items' t u) :
    Effect key (owners ++ owners') (items ++ items') s u where
  untracked := h'.untracked.trans h.untracked
  pendingLaunches := h'.pendingLaunches.trans h.pendingLaunches
  settled := h.settled.trans h'.settled
  owner process := by
    rw [h'.owner, h.owner, List.filter_append, List.map_append, newest_append]
  danger := h'.danger.trans h.danger
  lifecycle := by rw [h'.lifecycle, h.lifecycle, newest_append]
  runtime hnone item hitem := by
    obtain ⟨hitem, hitems'⟩ := h'.runtime (h.danger.trans hnone) item hitem
    obtain ⟨hitem, hitems⟩ := h.runtime hnone item hitem
    exact ⟨hitem, List.forall_mem_append.mpr ⟨hitems, hitems'⟩⟩
  shown := by
    rw [h'.shown, h.shown, h.danger, h.lifecycle, Option.map_map]
    refine congrArg (Option.map · (s.shown key)) (funext fun shown => ?_)
    exact (shown.after_append (s.danger key) (s.lifecycle key)).symm
  lastEventAt hpositive hdanger := by
    obtain ⟨hitems, hitems'⟩ := List.forall_mem_append.mp hpositive
    rw [h'.lastEventAt hitems' (h.danger ▸ hdanger), h.lastEventAt hitems hdanger, h.danger,
      h.lifecycle, Option.map_map]
    refine congrArg (Option.map · (s.lastEventAt key)) (funext fun time => ?_)
    exact (lastAfter_append (s.danger key) (s.lifecycle key) time).symm

theorem Effect.andQuiet (h : Effect key owners items s t) (h' : Effect key [] [] t u) :
    Effect key owners items s u := by
  have hboth := h.trans h'
  rwa [List.append_nil, List.append_nil] at hboth

/-- A change that is not of the session. -/
theorem Effect.quiet (huntracked : t.untracked = s.untracked)
    (hpending : t.pendingLaunches = s.pendingLaunches) (hsettled : s.Settled key t)
    (howner : ∀ process, t.liveOwners.get? (key, process) = s.liveOwners.get? (key, process))
    (hobservations : ∀ kind, t.observations.get? (key, kind) = s.observations.get? (key, kind))
    (hshown : t.shown key = s.shown key) (hlast : t.lastEventAt key = s.lastEventAt key) :
    Effect key [] [] s t where
  untracked := huntracked
  pendingLaunches := hpending
  settled := hsettled
  owner process := howner process
  danger := by rw [Ledger.danger, hobservations, ← Ledger.danger]
  lifecycle := hobservations .lifecycle
  runtime _ item hitem := ⟨(hobservations .runtime).symm.trans hitem, by simp⟩
  shown := by
    rw [hshown]
    simp
  lastEventAt _ _ := by
    rw [hlast]
    simp

theorem Effect.refl (key : SessionKey) (s : Ledger) : Effect key [] [] s s :=
  .quiet rfl rfl (.refl s) (fun _ => rfl) (fun _ => rfl) rfl rfl

/-- A change of tables that the board does not show. -/
theorem Effect.of_eq (huntracked : t.untracked = s.untracked)
    (hpending : t.pendingLaunches = s.pendingLaunches) (hsessions : t.sessions = s.sessions)
    (howners : t.liveOwners = s.liveOwners) (hobservations : t.observations = s.observations) :
    Effect key [] [] s t :=
  .quiet huntracked hpending (.of_eq hsessions) (fun _ => by rw [howners])
    (fun _ => by rw [hobservations]) (by rw [Ledger.shown, hsessions, Ledger.shown])
    (by rw [Ledger.lastEventAt, hsessions, Ledger.lastEventAt])

/-- Another session is deleted. -/
theorem effect_deleteSession {k : SessionKey} (hk : k ≠ key) :
    Effect key [] [] s (s.deleteSession k) := by
  have hrow : (s.deleteSession k).sessions.get? key = s.sessions.get? key := by
    refine Table.get?_congr fun row => ?_
    rw [Ledger.deleteSession, Table.get?_delete]
    simp [hk.symm]
  refine .quiet rfl rfl (.delete (q := fun j _ => j = k) (fun _ => ?_) rfl) (fun process => ?_)
    (fun kind => ?_) (congrArg _ hrow) (congrArg _ hrow)
  · exact decide_eq_false hk.symm
  · refine Table.get?_congr fun owner => ?_
    rw [Ledger.deleteSession, Table.get?_delete]
    simp [hk.symm]
  · refine Table.get?_congr fun item => ?_
    rw [Ledger.deleteSession, Table.get?_delete]
    simp [hk.symm]

/-- The owners of another session are deleted. -/
theorem effect_deleteLiveOwners {k : SessionKey} (hk : k ≠ key) :
    Effect key [] [] s (s.deleteLiveOwners k) := by
  refine .quiet rfl rfl (.of_eq rfl) (fun process => ?_) (fun _ => rfl) rfl rfl
  refine Table.get?_congr fun owner => ?_
  rw [Ledger.deleteLiveOwners, Table.get?_delete]
  simp [hk.symm]

theorem effect_clearSharedRootPid (pid : Int) :
    Effect key [] [] s (s.clearSharedRootPid key pid) := by
  let cleared (row : Session) : Session :=
    if row.rootPid = some pid then { row with rootPid := none } else row
  have hrow : (s.clearSharedRootPid key pid).sessions.get? key =
      (s.sessions.get? key).map cleared := by
    rw [Ledger.clearSharedRootPid, Table.get?_modify, if_pos rfl]
  have hsame {α : Type} {f : Session → α} (h : ∀ row, f (cleared row) = f row) :
      ((s.clearSharedRootPid key pid).sessions.get? key).map f = (s.sessions.get? key).map f := by
    rw [hrow, Option.map_map]
    exact congrArg (Option.map · (s.sessions.get? key)) (funext h)
  refine .quiet rfl rfl (.modify (f := cleared) (fun row _ => ?_) rfl) (fun _ => rfl)
    (fun _ => rfl) (hsame fun row => ?_) (hsame fun row => ?_)
  all_goals
    unfold cleared
    split <;> rfl

theorem effect_replacePlaceholder (placeholder : Option Session) :
    Effect key [] [] s (replacePlaceholder s key placeholder) := by
  unfold replacePlaceholder
  split
  case h_1 row =>
    split
    case isTrue h => exact effect_deleteSession fun heq => h (congrArg Prod.snd heq)
    case isFalse => exact .refl key s
  case h_2 => exact .refl key s

/-- The process of the hook was seen. -/
theorem effect_updateOwner {payload : HookPayload} {context : HookContext} {pid : Int}
    (hevent : payload.hookEventName ≠ "SessionEnd") (hpid : context.ownerPid = some pid)
    (htracked : s.isUntracked key = false) :
    Effect key [((pid, context.ownerToken),
        { startTime := context.ownerStartTime, lastSeen := context.now })] [] s
      (updateOwner s key payload context) := by
  let others := if key.1 = .opencode then s.deleteOtherLiveOwnerSessions key.1 pid key.2 else s
  have hothers : Effect key [] [] s others := by
    unfold others
    split
    case isTrue =>
      refine .quiet rfl rfl (.of_eq rfl) (fun process => ?_) (fun _ => rfl) rfl rfl
      refine Table.get?_congr fun owner => ?_
      rw [Ledger.deleteOtherLiveOwnerSessions, Table.get?_delete]
      simp
    case isFalse => exact .refl key s
  have hset : updateOwner s key payload context = others.setLiveOwner key pid context.ownerToken
      { startTime := context.ownerStartTime, lastSeen := context.now } := by
    simp only [updateOwner, hpid, if_neg hevent]
    rfl
  have hnot : others.isUntracked key = false := by
    rw [Ledger.isUntracked, hothers.untracked, ← Ledger.isUntracked, htracked]
  rw [hset, Ledger.setLiveOwner, hnot, if_neg Bool.false_ne_true]
  refine hothers.trans ⟨rfl, rfl, .of_eq rfl, fun process => ?_, rfl, rfl, ?_, ?_, fun _ _ => ?_⟩
  · simp only [Table.get?_refresh, List.filter_cons, List.filter_nil]
    by_cases h : (pid, context.ownerToken) = process
    · subst h
      simp [newest]
    · have hne : (key, process) ≠ (key, pid, context.ownerToken) := fun heq =>
        h (congrArg Prod.snd heq).symm
      simp [h, hne, newest]
  · exact fun _ item hitem => ⟨hitem, by simp⟩
  · simp
    rfl
  · simp
    rfl

end Effects

/-! ### What an event does -/

section Events

variable {key : SessionKey} {s t : Ledger} {payload : HookPayload} {context : HookContext}
  {row session : Session} {clock : Int} {held : StatusObservation}

theorem upsertSession_tables (s : Ledger) (clock : Int) (session : Session) :
    (s.upsertSession clock session true).untracked = s.untracked ∧
      (s.upsertSession clock session true).pendingLaunches = s.pendingLaunches ∧
      (s.upsertSession clock session true).liveOwners = s.liveOwners := by
  by_cases h : s.isUntracked session.key = true
  · rw [Ledger.upsertSession, if_pos h]
    exact ⟨rfl, rfl, rfl⟩
  · rw [Ledger.upsertSession, if_neg h]
    exact ⟨rfl, rfl, rfl⟩

/-- The row of a session that is there already. -/
theorem upsertSession_sessions (clock : Int) (hkey : session.key = key) (htracked : s.isUntracked key = false)
    (hrow : s.sessions.get? key = some row) : ∃ name,
      (s.upsertSession clock session true).sessions =
        s.sessions.modify key fun _ => row.onConflict { session.stamped clock with name } := by
  subst hkey
  rw [Ledger.upsertSession, if_neg (by simp [htracked])]
  dsimp only
  rw [hrow, Table.upsert_of_get? hrow]
  exact ⟨_, rfl⟩

/-- What has been observed of it stays. -/
theorem upsertSession_observations {kind : ObservationKind} (hkey : session.key = key)
    (hthere : kind = initialObservationKind session →
      ∃ item, s.observations.get? (key, kind) = some item) :
    (s.upsertSession clock session true).observations.get? (key, kind) =
      s.observations.get? (key, kind) := by
  subst hkey
  rw [Ledger.upsertSession]
  split
  case isTrue => rfl
  case isFalse =>
    dsimp only
    rw [Table.get?_insertOrIgnore]
    split
    case isFalse => rfl
    case isTrue h =>
      have hkind : kind = initialObservationKind session := congrArg Prod.snd h
      obtain ⟨item, hitem⟩ := hthere hkind
      rw [← hkind, hitem, Option.getD_some]

/-- What the hook finds of its session. -/
structure Found (s : Ledger) (key : SessionKey) (payload : HookPayload) (row session : Session) :
    Prop where
  stored : s.sessions.get? key = some row
  eq : session = { row with provider := key.1, sessionId := key.2 }
  thread : payload.sessionId ≠ key.2 → row.activeThreadId = some payload.sessionId
  tracked : s.isUntracked key = false

/-- The row that is found is brought up to date with a projection. -/
structure Projected (key : SessionKey) (projection : StatusProjection) (s t : Ledger) : Prop where
  untracked : t.untracked = s.untracked
  pendingLaunches : t.pendingLaunches = s.pendingLaunches
  owner : ∀ process, t.liveOwners.get? (key, process) = s.liveOwners.get? (key, process)
  settled : s.Settled key t
  shown : t.shown key = some projection.shown

theorem Projected.andQuiet {projection : StatusProjection} {u : Ledger}
    (h : Projected key projection s t) (h' : Effect key [] [] t u) :
    Projected key projection s u where
  untracked := h'.untracked.trans h.untracked
  pendingLaunches := h'.pendingLaunches.trans h.pendingLaunches
  owner process := (h'.owner process).trans (h.owner process)
  settled := h.settled.trans h'.settled
  shown := by
    rw [h'.shown, h.shown]
    rfl

theorem get?_upsertSession (context : HookContext) (clock : Int) (placeholder : Option Session)
    (name : Option String) (projection : StatusProjection) (hfound : Found s key payload row session) : ∃ name',
      let written := hookSession key payload context (some session) placeholder name projection
      (s.upsertSession clock written true).sessions.get? key =
        some (row.onConflict { written.stamped clock with name := name' }) := by
  let written := hookSession key payload context (some session) placeholder name projection
  have hkey : written.key = key := rfl
  obtain ⟨name', hwritten⟩ := upsertSession_sessions clock hkey hfound.tracked hfound.stored
  refine ⟨name', ?_⟩
  dsimp only
  rw [hwritten, Table.get?_modify, if_pos rfl, hfound.stored, Option.map_some]

theorem projected_upsertSession (clock : Int) (placeholder : Option Session) (name : Option String)
    (projection : StatusProjection) (hfound : Found s key payload row session) :
    Projected key projection s (s.upsertSession clock
      (hookSession key payload context (some session) placeholder name projection) true) := by
  let written := hookSession key payload context (some session) placeholder name projection
  have hkey : written.key = key := rfl
  obtain ⟨huntracked, hpending, howners⟩ := upsertSession_tables s clock written
  obtain ⟨name', hwritten⟩ := upsertSession_sessions clock hkey hfound.tracked hfound.stored
  have hthread : written.activeThreadId.or row.activeThreadId = row.activeThreadId := by
    change (if payload.sessionId ≠ key.2 then some payload.sessionId else none).or _ = _
    split
    case isTrue h => rw [hfound.thread h, Option.some_or]
    case isFalse => rw [Option.none_or]
  refine ⟨huntracked, hpending, fun _ => by rw [howners], .modify (fun row' hrow' => ?_) hwritten,
    ?_⟩
  · rw [hfound.stored] at hrow'
    cases hrow'
    exact hthread
  · obtain ⟨name', hrow⟩ := get?_upsertSession context clock placeholder name projection
      hfound
    rw [Ledger.shown, hrow]
    rfl

theorem lastEventAt_upsertSession (clock : Int) (placeholder : Option Session)
    (name : Option String) (projection : StatusProjection)
    (hfound : Found s key payload row session) :
    (s.upsertSession clock (hookSession key payload context (some session) placeholder name
        projection) true).lastEventAt key =
      (s.lastEventAt key).map (max · (nonzeroOr projection.observedAt clock)) := by
  obtain ⟨name', hrow⟩ := get?_upsertSession context clock placeholder name projection
    hfound
  rw [Ledger.lastEventAt, hrow, Ledger.lastEventAt, hfound.stored]
  rfl

theorem observeHook_tables (s : Ledger) (key : SessionKey) (payload : HookPayload)
    (context : HookContext) (existing : Option Session) (live : Bool) :
    let observed := observeHook s key payload context existing live
    observed.2.untracked = s.untracked ∧ observed.2.pendingLaunches = s.pendingLaunches ∧
      observed.2.sessions = s.sessions ∧ observed.2.liveOwners = s.liveOwners := by
  unfold observeHook
  dsimp only
  split <;> exact ⟨rfl, rfl, rfl, rfl⟩

/-- It is found after the event was observed, too. -/
theorem Found.observed (hfound : Found s key payload row session) (context : HookContext)
    (existing : Option Session) (live : Bool) :
    Found (observeHook s key payload context existing live).2 key payload row session := by
  obtain ⟨huntracked, -, hsessions, -⟩ := observeHook_tables s key payload context existing live
  refine ⟨hsessions ▸ hfound.stored, hfound.eq, hfound.thread, ?_⟩
  rw [Ledger.isUntracked, huntracked, ← Ledger.isUntracked, hfound.tracked]

theorem observeHook_observations (s : Ledger) (key : SessionKey) (payload : HookPayload)
    (context : HookContext) (existing : Option Session) (live : Bool) {kind : ObservationKind}
    (hkind : kind ≠ .runtime) :
    (observeHook s key payload context existing live).2.observations.get? (key, kind) =
      (s.recordStatusObservation key
        (hookObservation key.1 payload context existing)).observations.get? (key, kind) := by
  unfold observeHook
  dsimp only
  split
  case isTrue =>
    refine Table.get?_congr fun item => ?_
    rw [Ledger.clearStatusObservationObservedThrough, Table.get?_delete]
    simp [hkind]
  case isFalse => rfl

theorem observeHook_lifecycle (s : Ledger) (key : SessionKey) (payload : HookPayload)
    (context : HookContext) (existing : Option Session) (live : Bool) :
    (observeHook s key payload context existing live).2.lifecycle key =
      newer StatusObservation.observedAt (s.lifecycle key)
        (hookObservation key.1 payload context existing) := by
  rw [Ledger.lifecycle, observeHook_observations _ _ _ _ _ _ (by decide),
    Ledger.recordStatusObservation, Table.get?_refresh, hookObservation_kind, if_pos rfl]
  rfl

theorem observeHook_safety (s : Ledger) (key : SessionKey) (payload : HookPayload)
    (context : HookContext) (existing : Option Session) (live : Bool) :
    (observeHook s key payload context existing live).2.observations.get? (key, .safety) =
      s.observations.get? (key, .safety) := by
  rw [observeHook_observations _ _ _ _ _ _ (by decide), Ledger.recordStatusObservation,
    Table.get?_refresh, hookObservation_kind, if_neg (by simp)]

/-- An event of a live process clears what was observed of the runtime before. -/
theorem observeHook_runtime {item : StatusObservation} {existing : Option Session} {live : Bool}
    (hevent : payload.hookEventName ≠ "SessionEnd")
    (h : (observeHook s key payload context existing live).2.runtime key = some item) :
    s.runtime key = some item ∧ context.now < item.observedAt := by
  unfold observeHook at h
  simp only [ne_eq, hevent, not_false_eq_true, if_true] at h
  rw [Ledger.runtime, Ledger.clearStatusObservationObservedThrough, Table.get?_delete,
    Ledger.recordStatusObservation, Table.get?_refresh, hookObservation_kind,
    if_neg (by simp)] at h
  exact ⟨h.1, by simpa using h.2⟩

/-- What is kept is the event, or something newer of a live process. -/
theorem newer_lively {item : StatusObservation} (hitem : item.Lively)
    (hheld : ∀ held, s.lifecycle key = some held →
      held.observedAt ≤ item.observedAt ∨ held.Lively) :
    ∃ kept, newer StatusObservation.observedAt (s.lifecycle key) item = some kept ∧ kept.Lively ∧
      item.observedAt ≤ kept.observedAt := by
  obtain ⟨kept, hkept⟩ : ∃ kept, newest StatusObservation.observedAt (s.lifecycle key) [item] =
    some kept := exists_newest (by simp)
  refine ⟨kept, hkept, ?_⟩
  rcases newer_eq_some.mp hkept with ⟨rfl, -⟩ | ⟨hstored, hlt⟩
  · exact ⟨hitem, le_rfl⟩
  · rcases hheld kept hstored with hle | hlively
    · exact absurd hle (not_le.mpr hlt)
    · exact ⟨hlively, hlt.le⟩

/-- An event of a live process is recorded and shown. -/
theorem effect_upsertSession (clock : Int) (placeholder : Option Session) (name : Option String)
    (hfound : Found s key payload row session) (hevent : payload.hookEventName ≠ "SessionEnd")
    (hheld : ∀ held, s.lifecycle key = some held → held.observedAt ≤ context.now ∨ held.Lively) :
    let observed := observeHook s key payload context (some session) true
    Effect key [] [hookObservation key.1 payload context none] s
      (observed.2.upsertSession clock
        (hookSession key payload context (some session) placeholder name observed.1) true) := by
  intro observed
  let item := hookObservation key.1 payload context none
  let written := hookSession key payload context (some session) placeholder name observed.1
  have hnow : item.observedAt = context.now := hookObservation_observedAt payload context
  have hitem : item.Lively := hookObservation_lively hevent
  obtain ⟨huntracked, hpending, hsessions, howners⟩ :=
    observeHook_tables s key payload context (some session) true
  have hobserved : Found observed.2 key payload row session := hfound.observed _ _ _
  have hprojected : Projected key observed.1 observed.2
      (observed.2.upsertSession clock written true) :=
    projected_upsertSession clock placeholder name observed.1 hobserved
  obtain ⟨kept, hkept, hlively, hle⟩ := newer_lively hitem (hnow ▸ hheld)
  have hnewer : observed.2.lifecycle key =
      newer StatusObservation.observedAt (s.lifecycle key) item := by
    rw [observeHook_lifecycle, hookObservation_eq hevent]
  have hlifecycle : observed.2.lifecycle key = some kept := hnewer.trans hkept
  have hsafety : observed.2.observations.get? (key, .safety) =
      s.observations.get? (key, .safety) := observeHook_safety _ _ _ _ _ _
  have hdanger : observed.2.danger key = s.danger key := by
    rw [Ledger.danger, hsafety, ← Ledger.danger]
  obtain ⟨hshown, hat⟩ : observed.1.shown = ((s.danger key).getD kept).shown ∧
      observed.1.observedAt = ((s.danger key).getD kept).observedAt := by
    rw [← hdanger]
    exact projectStatus_live _ hlifecycle hlively
  have hreason : written.attentionReason = ((s.danger key).getD kept).attentionReason :=
    congrArg Shown.attentionReason hshown
  have hkind : s.danger key = none → initialObservationKind written = .lifecycle := by
    intro hnone
    rw [hnone, Option.getD_none] at hreason
    have hnot := hlively.reason
    simp only [List.mem_cons, List.not_mem_nil, or_false, not_or] at hnot
    rw [initialObservationKind, Session.identity, hreason, if_neg (by simp [hnot.1]),
      if_neg (by simp [hnot.2])]
  have hkeeps {kind : ObservationKind} (h : kind = .runtime → s.danger key = none) :
      (observed.2.upsertSession clock written true).observations.get? (key, kind) =
        observed.2.observations.get? (key, kind) := by
    refine upsertSession_observations rfl fun hinitial => ?_
    cases hd : s.danger key with
    | none =>
        rw [hkind hd] at hinitial
        exact hinitial ▸ ⟨kept, hlifecycle⟩
    | some danger =>
        rw [Ledger.danger, Option.filter_eq_some_iff] at hd
        cases kind with
        | lifecycle => exact ⟨kept, hlifecycle⟩
        | safety => exact ⟨danger, hsafety.trans hd.1⟩
        | runtime =>
            rw [Ledger.danger, hd.1, Option.filter_eq_none_iff] at h
            exact absurd hd.2 (h rfl danger rfl)
  refine ⟨hprojected.untracked.trans huntracked, hprojected.pendingLaunches.trans hpending,
    .trans (.of_eq hsessions) hprojected.settled,
    fun process => by rw [hprojected.owner, howners]; rfl, ?_, ?_, ?_, ?_, ?_⟩
  · rw [Ledger.danger, hkeeps (by simp), ← Ledger.danger, hdanger]
  · exact (hkeeps (by simp)).trans hnewer
  · intro hnone item' hitem'
    rw [Ledger.runtime, hkeeps fun _ => hnone] at hitem'
    obtain ⟨hstored, hlt⟩ := observeHook_runtime hevent hitem'
    exact ⟨hstored, by simpa using hnow ▸ hlt⟩
  · rw [hprojected.shown, hshown, Ledger.shown, hfound.stored, Option.map_some, Option.map_some]
    change _ = some ((newer StatusObservation.observedAt (s.lifecycle key) item).elim _ _)
    rw [hkept]
    rfl
  · intro hpositive hproper
    have hne : ((s.danger key).getD kept).observedAt ≠ 0 := by
      cases hd : s.danger key with
      | some danger => exact hproper danger hd
      | none => exact ((hpositive item (by simp [item])).trans_le hle).ne'
    rw [lastEventAt_upsertSession clock placeholder name observed.1 hobserved, hat, nonzeroOr,
      if_neg hne, Ledger.lastEventAt, hsessions, ← Ledger.lastEventAt]
    refine congrArg (Option.map · (s.lastEventAt key)) (funext fun time => ?_)
    change _ = (newer StatusObservation.observedAt (s.lifecycle key) item).elim _ _
    rw [hkept]
    rfl

theorem ownerOnlyReason_some {placeholder : Option Session} {name : Option String} :
    ownerOnlyReason key.1 payload context (some session) placeholder name = none := rfl

/-- After the row is brought up to date, nothing more is done to what is kept of the session. -/
theorem quiet_handleActivity (s : Ledger) (clock : Int) (key : SessionKey) (payload : HookPayload)
    (context : HookContext) (session : Session) (live : Bool) : ∃ placeholder name,
      Effect key [] []
        ((observeHook s key payload context (some session) live).2.upsertSession clock
          (hookSession key payload context (some session) placeholder name
            (observeHook s key payload context (some session) live).1) true)
        (handleActivity s clock key payload context (some session) live).2 := by
  simp only [handleActivity, ownerOnlyReason_some]
  let placeholder := placeholderOf s key.1 context
  let name := hookName key.1 payload context (some session) placeholder
  let written := (observeHook s key payload context (some session) live).2.upsertSession clock
    (hookSession key payload context (some session) placeholder name
      (observeHook s key payload context (some session) live).1) true
  refine ⟨placeholder, name, Effect.andQuiet (?_ : Effect key [] [] written _)
    (effect_replacePlaceholder placeholder)⟩
  split
  case h_1 pid _ =>
    split
    case isTrue => exact effect_clearSharedRootPid pid
    case isFalse => exact .refl key _
  case h_2 => exact .refl key _

theorem effect_handleActivity (hfound : Found s key payload row session)
    (hevent : payload.hookEventName ≠ "SessionEnd")
    (hheld : ∀ held, s.lifecycle key = some held → held.observedAt ≤ context.now ∨ held.Lively) :
    Effect key [] [hookObservation key.1 payload context none] s
      (handleActivity s clock key payload context (some session) true).2 := by
  obtain ⟨placeholder, name, hquiet⟩ :=
    quiet_handleActivity s clock key payload context session true
  exact (effect_upsertSession clock placeholder name hfound hevent hheld).andQuiet hquiet

theorem updateOwner_sessions (s : Ledger) (key : SessionKey) (payload : HookPayload)
    (context : HookContext) : (updateOwner s key payload context).sessions = s.sessions := by
  unfold updateOwner
  split
  case h_1 => rfl
  case h_2 =>
    split
    case isTrue => rfl
    case isFalse =>
      dsimp only [Ledger.setLiveOwner]
      split <;> split <;> rfl

/-- A hook of a tracked session, in a pane that no launch is pending in. -/
theorem effect_handleTracked {pid : Int} (hfound : Found s key payload row session)
    (hevent : payload.hookEventName ≠ "SessionEnd") (hpid : context.ownerPid = some pid)
    (hpending : context.paneId.bind s.findPendingForPane = none)
    (hheld : ∀ held, s.lifecycle key = some held → held.observedAt ≤ context.now ∨ held.Lively) :
    Effect key [((pid, context.ownerToken),
        { startTime := context.ownerStartTime, lastSeen := context.now })]
      (if key.1 = .opencode ∧ payload.hookEventName = "SessionHeartbeat" then []
        else [hookObservation key.1 payload context none]) s
      (handleTracked s clock key payload context (some session)).2 := by
  let noted := s.recordHookObservation key.1
    { fingerprint := context.hookFingerprint
      eventName := payload.hookEventName
      sessionId := payload.sessionId
      observedAt := context.now
      source := payload.source
      managed := false }
  let seen := updateOwner noted key payload context
  have hnoted : Effect key [] [] s noted := .of_eq rfl rfl rfl rfl rfl
  have hseen : Effect key [((pid, context.ownerToken),
      { startTime := context.ownerStartTime, lastSeen := context.now })] [] s seen :=
    hnoted.trans (effect_updateOwner hevent hpid hfound.tracked)
  have hended : ¬(key.1 = .opencode ∧ payload.hookEventName = "SessionEnd" ∧
      payload.deleted = true) := fun h => hevent h.2.1
  have hpending' : context.paneId.bind noted.findPendingForPane = none := hpending
  have hlive : (decide (payload.hookEventName ≠ "SessionEnd") ||
      !(seen.owners key).isEmpty) = true := by simp [hevent]
  simp only [handleTracked, if_neg hended]
  rw [hpending']
  dsimp only
  by_cases hbeat : key.1 = .opencode ∧ payload.hookEventName = "SessionHeartbeat"
  · rw [if_pos hbeat, if_pos hbeat]
    exact hseen
  · rw [if_neg hbeat, if_neg hbeat]
    have hfound' : Found seen key payload row session :=
      { stored := (updateOwner_sessions noted key payload context) ▸ hfound.stored
        eq := hfound.eq
        thread := hfound.thread
        tracked := by
          rw [Ledger.isUntracked, hseen.untracked, ← Ledger.isUntracked, hfound.tracked] }
    have hheld' : ∀ held, seen.lifecycle key = some held →
        held.observedAt ≤ context.now ∨ held.Lively :=
      fun held h => hheld held (hseen.lifecycle.symm.trans h)
    change Effect _ _ _ _ (handleActivity seen clock key payload context (some session)
      (decide (payload.hookEventName ≠ "SessionEnd") || !(seen.owners key).isEmpty)).2
    rw [hlive]
    exact hseen.trans (effect_handleActivity hfound' hevent hheld')

/-- A hook in a pane that a launch is pending in, and that is not of it. -/
theorem effect_handleTracked_pending {existing : Option Session} {token : String}
    (hevent : payload.hookEventName ≠ "SessionEnd")
    (hpending : context.paneId.bind s.findPendingForPane = some token) :
    Effect key [] [] s (handleTracked s clock key payload context existing).2 := by
  let noted := s.recordHookObservation key.1
    { fingerprint := context.hookFingerprint
      eventName := payload.hookEventName
      sessionId := payload.sessionId
      observedAt := context.now
      source := payload.source
      managed := false }
  have hpending' : context.paneId.bind noted.findPendingForPane = some token := hpending
  have hended : ¬(key.1 = .opencode ∧ payload.hookEventName = "SessionEnd" ∧
      payload.deleted = true) := fun h => hevent h.2.1
  simp only [handleTracked, if_neg hended]
  rw [hpending']
  dsimp only
  rw [if_pos hevent]
  exact .of_eq rfl rfl rfl rfl rfl

end Events

end Pikamux.Board
