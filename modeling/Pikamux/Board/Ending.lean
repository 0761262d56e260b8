import Pikamux.Board.Commute

/-!
# Board — Ending

A session that ends keeps what it has not shown yet.

* `handleHook_end` — what a `SessionEnd` does, up to the owners.
* `shown_of_end` — after an event that asks for attention it changes nothing of what is shown.
* `bounded_of_end` — before such an event it leaves nothing that is newer, unless it is newer itself
  and there was nothing unread.
* `attention_survives` — the law of the two hooks.
-/

namespace Pikamux.Board

open Support

/-- A `SessionEnd` that neither is of an automation worker nor deletes the conversation. -/
structure Hook.Ending (host : Host) (provider : Provider) (hook : Hook) : Prop where
  event : hook.payload.hookEventName = "SessionEnd"
  worker : workerOriginator host provider hook.payload hook.context = none
  kept : ¬(provider = .opencode ∧ hook.payload.deleted = true)

/-- It asks for attention. -/
structure Hook.Attention (provider : Provider) (hook : Hook) : Prop where
  status : (hook.item provider).status ∈ [.needsYou, .ready, .error]
  unread : (hook.item provider).unread = true

/-- Two sessions in conflict. -/
def Shown.identity (shown : Shown) : Bool :=
  shown.status ∈ [.error, .openTwice] && shown.attentionReason = some "identity"

/-- No conflict of the session has been observed. -/
structure Ledger.Undisputed (ledger : Ledger) (key : SessionKey) : Prop where
  danger : ledger.danger key = none
  identity : ∀ kind item, ledger.observations.get? (key, kind) = some item →
    item.shown.identity = false

/-- The session has something that a `SessionEnd` keeps. -/
def Ledger.keepsUnread (ledger : Ledger) (key : SessionKey) : Bool :=
  (ledger.sessions.get? key).any preserveUnreadOnSessionEnd

/-- Nothing but owners and notes has changed. -/
structure Noted (s t : Ledger) : Prop where
  untracked : t.untracked = s.untracked
  pendingLaunches : t.pendingLaunches = s.pendingLaunches
  sessions : t.sessions = s.sessions
  observations : t.observations = s.observations

/-- The session found as `session` was observed to end, and its row is up to date with that. -/
structure Ended (key : SessionKey) (payload : HookPayload) (context : HookContext)
    (session : Session) (live : Bool) (s t : Ledger) : Prop where
  projected : Projected key (observeHook s key payload context (some session) live).1
    (observeHook s key payload context (some session) live).2 t
  lifecycle : t.lifecycle key =
    (observeHook s key payload context (some session) live).2.lifecycle key
  danger : (observeHook s key payload context (some session) live).1.shown.identity = false →
    t.danger key = s.danger key

section Ends

variable {host : Host} {key : SessionKey} {hook : Hook} {s t u : Ledger} {clock : Int}
  {payload : HookPayload} {context : HookContext} {row session : Session} {live : Bool}

theorem Noted.refl (s : Ledger) : Noted s s := ⟨rfl, rfl, rfl, rfl⟩

theorem Noted.trans (h : Noted s t) (h' : Noted t u) : Noted s u :=
  ⟨h'.untracked.trans h.untracked, h'.pendingLaunches.trans h.pendingLaunches,
    h'.sessions.trans h.sessions, h'.observations.trans h.observations⟩

theorem Noted.found (h : Noted s t) (hfound : Found s key payload row session) :
    Found t key payload row session := by
  refine ⟨h.sessions ▸ hfound.stored, hfound.eq, hfound.thread, ?_⟩
  rw [Ledger.isUntracked, h.untracked, ← Ledger.isUntracked, hfound.tracked]

theorem Noted.observed (h : Noted s t) (kind : ObservationKind) :
    t.observations.get? (key, kind) = s.observations.get? (key, kind) := by rw [h.observations]

theorem Noted.danger (h : Noted s t) (key : SessionKey) : t.danger key = s.danger key :=
  congrArg _ (h.observed .safety)

theorem Noted.shown (h : Noted s t) (key : SessionKey) : t.shown key = s.shown key := by
  rw [Ledger.shown, h.sessions, Ledger.shown]

theorem Noted.undisputed (h : Noted s t) (hundisputed : s.Undisputed key) : t.Undisputed key where
  danger := (h.danger key).trans hundisputed.danger
  identity kind item hitem := hundisputed.identity kind item ((h.observed kind).symm.trans hitem)

theorem ended_handleActivity (clock : Int) (hfound : Found s key payload row session) :
    Ended key payload context session live s
      (handleActivity s clock key payload context (some session) live).2 := by
  obtain ⟨placeholder, name, hquiet⟩ :=
    quiet_handleActivity s clock key payload context session live
  let observed := observeHook s key payload context (some session) live
  let written := hookSession key payload context (some session) placeholder name observed.1
  have hlifecycle := observeHook_lifecycle s key payload context (some session) live
  have hsafety := observeHook_safety s key payload context (some session) live
  refine ⟨(projected_upsertSession clock placeholder name observed.1
    (hfound.observed _ _ _)).andQuiet hquiet, ?_, fun hidentity => ?_⟩
  · refine hquiet.lifecycle.trans (upsertSession_observations rfl fun _ => ?_)
    obtain ⟨kept, hkept⟩ : ∃ kept, newest StatusObservation.observedAt (s.lifecycle key)
      [hookObservation key.1 payload context (some session)] = some kept := exists_newest (by simp)
    exact ⟨kept, hlifecycle.trans hkept⟩
  · have hkind : ObservationKind.safety ≠ initialObservationKind written := by
      have hwritten : written.identity = false := hidentity
      rw [initialObservationKind, hwritten, if_neg Bool.false_ne_true]
      split <;> simp
    have hkeeps : (observed.2.upsertSession clock written true).observations.get? (key, .safety) =
        observed.2.observations.get? (key, .safety) :=
      upsertSession_observations rfl fun h => absurd h hkind
    rw [hquiet.danger, Ledger.danger, Ledger.danger]
    exact congrArg _ (hkeeps.trans hsafety)

/-- What a `SessionEnd` of a tracked session does, up to the owners. -/
theorem handleTracked_end (clock : Int) (hfound : Found s key payload row session)
    (hevent : payload.hookEventName = "SessionEnd")
    (hkept : ¬(key.1 = .opencode ∧ payload.deleted = true)) :
    Noted s (handleTracked s clock key payload context (some session)).2 ∨
      ∃ u live, Noted s u ∧ Ended key payload context session live u
        (handleTracked s clock key payload context (some session)).2 := by
  let noted := s.recordHookObservation key.1
    { fingerprint := context.hookFingerprint
      eventName := payload.hookEventName
      sessionId := payload.sessionId
      observedAt := context.now
      source := payload.source
      managed := false }
  have hnoted : Noted s noted := ⟨rfl, rfl, rfl, rfl⟩
  have hdeleted : ¬(key.1 = .opencode ∧ payload.hookEventName = "SessionEnd" ∧
      payload.deleted = true) := fun h => hkept ⟨h.1, h.2.2⟩
  have hbeat : ¬(key.1 = .opencode ∧ payload.hookEventName = "SessionHeartbeat") := by
    rw [hevent]
    simp
  simp only [handleTracked, if_neg hdeleted]
  cases hpending : context.paneId.bind noted.findPendingForPane with
  | some token =>
      left
      dsimp only
      rw [if_neg (by simp [hevent])]
      exact hnoted
  | none =>
      right
      have howner : Noted noted (updateOwner noted key payload context) := by
        unfold updateOwner
        split
        · exact .refl noted
        · rw [if_pos hevent]
          exact ⟨rfl, rfl, rfl, rfl⟩
      dsimp only
      rw [if_neg hbeat]
      exact ⟨_, _, hnoted.trans howner,
        ended_handleActivity clock ((hnoted.trans howner).found hfound)⟩

/-- What a `SessionEnd` does, up to the owners. -/
theorem handleHook_end (clock : Int) (hending : hook.Ending host key.1)
    (hresolves : s.resolves key hook.payload.sessionId) (htracked : s.isUntracked key = false) :
    ∃ row session, Found s key hook.payload row session ∧
      (Noted s (handleHook host clock key.1 hook.payload hook.context s).2 ∨
        ∃ u live, Noted s u ∧ Ended key hook.payload (effectiveContext key.1 hook.context) session
          live u (handleHook host clock key.1 hook.payload hook.context s).2) := by
  obtain ⟨row, session, hfound, hresolve⟩ :=
    resolve_of_resolves host (effectiveContext key.1 hook.context) hresolves htracked
  refine ⟨row, session, hfound, ?_⟩
  rw [handleHook_eq]
  split
  case isFalse => exact .inl (.refl s)
  case isTrue =>
    rw [handleHookTransaction]
    split
    case isTrue => exact .inl ⟨rfl, rfl, rfl, rfl⟩
    case isFalse =>
      rw [workerOriginator_effective, hending.worker, hresolve, if_neg (by simp)]
      dsimp only
      rw [if_neg (by simp [htracked])]
      exact handleTracked_end clock hfound hending.event hending.kept

/-! ### What the end of a session says -/

theorem preserve_of_found (hfound : Found s key payload row session) :
    preserveUnreadOnSessionEnd session = preserveUnreadOnSessionEnd row := by
  rw [hfound.eq]
  rfl

theorem shown_of_found (hfound : Found s key payload row session) :
    s.shown key = some session.shown := by
  rw [Ledger.shown, hfound.stored, hfound.eq]
  rfl

/-- What is unread is said once more, at its time. -/
theorem hookObservation_of_preserved (hevent : payload.hookEventName = "SessionEnd")
    (h : preserveUnreadOnSessionEnd session = true) (provider : Provider) (context : HookContext) :
    (hookObservation provider payload context (some session)).shown = session.shown ∧
      (hookObservation provider payload context (some session)).observedAt = session.lastEventAt := by
  have hunread : session.unread = true := by
    simp only [preserveUnreadOnSessionEnd, Bool.and_eq_true] at h
    exact h.1.1
  simp only [hookObservation, if_pos hevent, Option.filter_some, if_pos h]
  refine ⟨?_, trivial⟩
  rw [StatusObservation.shown, Session.shown, hunread]

/-- Otherwise the session is parked. -/
theorem hookObservation_of_not_preserved (hevent : payload.hookEventName = "SessionEnd")
    (h : preserveUnreadOnSessionEnd session = false) (provider : Provider) (context : HookContext) :
    (hookObservation provider payload context (some session)).status = .parked ∧
      (hookObservation provider payload context (some session)).observedAt = context.now := by
  have hparked : (eventState provider payload).status = .parked := by
    rw [eventState, hevent]
    rfl
  simp only [hookObservation, if_pos hevent, Option.filter_some, h, Bool.false_eq_true, if_false]
  refine ⟨?_, trivial⟩
  split <;> exact hparked

theorem hookObservation_identity (hevent : payload.hookEventName = "SessionEnd")
    (provider : Provider) (context : HookContext) (session : Session) :
    (hookObservation provider payload context (some session)).shown.identity = false := by
  by_cases h : preserveUnreadOnSessionEnd session = true
  · rw [(hookObservation_of_preserved hevent h provider context).1]
    simp only [preserveUnreadOnSessionEnd, Bool.and_eq_true, decide_eq_true_eq] at h
    cases hidentity : session.shown.identity with
    | false => rfl
    | true =>
        simp only [Shown.identity, Session.shown, Bool.and_eq_true, decide_eq_true_eq,
          List.mem_cons, List.not_mem_nil, or_false] at hidentity
        simp_all
  · have hparked := (hookObservation_of_not_preserved hevent (by simpa using h) provider context).1
    rw [Shown.identity, StatusObservation.shown, hparked]
    rfl

/-- What is shown without a danger: a failure of the runtime, or else what the lifecycle says. -/
theorem projectStatus_safe (hdanger : s.danger key = none) (live : Bool)
    (fallback : ProjectionFallback) :
    projectStatus (s.statusObservations key) live "unknown" fallback =
      ((s.runtime key).filter fun item => !live && item.status ∈ [.error, .openTwice]).elim
        (((s.lifecycle key).bind fun item =>
          projectLifecycle { item with kind := .lifecycle } live).getD
            (projectProcess live "unknown" fallback))
        fun item => fromObservation { item with kind := .runtime } item.status item.unread
          "runtime_failure_without_live_process" := by
  have hsafety : ((s.observations.get? (key, .safety)).map fun item =>
      ({ item with kind := .safety } : StatusObservation)).filter
        (fun item => item.status ∈ [.openTwice, .error]) = none := by
    rw [Ledger.danger] at hdanger
    cases h : s.observations.get? (key, .safety) with
    | none => rfl
    | some item =>
        rw [h] at hdanger
        simpa using hdanger
  simp only [projectStatus, newestOf_statusObservations, hsafety]
  rw [if_neg (by decide), Ledger.runtime, Ledger.lifecycle]
  cases s.observations.get? (key, .runtime) with
  | none => cases s.observations.get? (key, .lifecycle) <;> rfl
  | some item =>
      by_cases h : (!live && decide (item.status ∈ [.error, .openTwice])) = true
      · simp only [Option.map_some, Option.filter_some, h, if_true, Option.elim_some]
      · simp only [Option.map_some, Option.filter_some, h, Bool.false_eq_true, if_false,
          Option.elim_none]
        cases s.observations.get? (key, .lifecycle) <;> rfl

/-- While nothing else is known, an observation that asks for attention is shown. -/
theorem projectStatus_attention {item : StatusObservation} (live : Bool)
    (fallback : ProjectionFallback) (hstatus : item.status ∈ [.needsYou, .ready, .error])
    (hunread : item.unread = true) (hlifecycle : s.lifecycle key = some item)
    (hdanger : s.danger key = none) (hruntime : s.runtime key = none) :
    (projectStatus (s.statusObservations key) live "unknown" fallback).shown = item.shown := by
  have hproject : projectLifecycle { item with kind := .lifecycle } live =
      some (fromObservation { item with kind := .lifecycle } item.status item.unread
        "lifecycle") := by
    simp only [List.mem_cons, List.not_mem_nil, or_false] at hstatus
    rcases hstatus with h | h | h <;> simp [projectLifecycle, h, hunread]
  rw [projectStatus_safe hdanger, hruntime, hlifecycle, Option.filter_none, Option.elim_none,
    Option.bind_some, hproject]
  rfl

theorem projectLifecycle_identity {item : StatusObservation} {projection : StatusProjection}
    (hitem : item.shown.identity = false) (h : projectLifecycle item live = some projection) :
    projection.shown.identity = false := by
  have hkept : (fromObservation item item.status item.unread "lifecycle").shown.identity = false :=
    hitem
  unfold projectLifecycle at h
  split at h
  case h_1 | h_2 => exact Option.some.inj h ▸ hkept
  case h_3 | h_7 | h_8 => cases h
  case h_4 | h_5 =>
    split at h
    case isTrue => exact Option.some.inj h ▸ hkept
    case isFalse => exact Option.some.inj h ▸ rfl
  case h_6 => exact Option.some.inj h ▸ rfl

theorem projectProcess_identity {fallback : ProjectionFallback}
    (hfallback : fallback.status ∈ [.error, .openTwice] →
      fallback.attentionReason ≠ some "identity") :
    (projectProcess live "unknown" fallback).shown.identity = false := by
  rw [projectProcess, if_neg (by decide)]
  split
  case isTrue => rfl
  case isFalse =>
    split
    case isFalse => rfl
    case isTrue =>
      rw [StatusProjection.shown, Shown.identity, Bool.and_eq_false_iff]
      by_cases h : fallback.status ∈ [.error, .openTwice]
      · exact .inr (decide_eq_false (hfallback h))
      · exact .inl (decide_eq_false h)

/-- Without a conflict none is projected. -/
theorem projectStatus_identity (hundisputed : s.Undisputed key) (live : Bool)
    {fallback : ProjectionFallback}
    (hfallback : fallback.status ∈ [.error, .openTwice] →
      fallback.attentionReason ≠ some "identity") :
    (projectStatus (s.statusObservations key) live "unknown" fallback).shown.identity = false := by
  rw [projectStatus_safe hundisputed.danger]
  cases hruntime : (s.runtime key).filter fun item => !live && item.status ∈ [.error, .openTwice] with
  | some item =>
      exact hundisputed.identity .runtime item (Option.filter_eq_some_iff.mp hruntime).1
  | none =>
      rw [Option.elim_none]
      cases hprojected : (s.lifecycle key).bind fun item =>
          projectLifecycle { item with kind := .lifecycle } live with
      | none => exact projectProcess_identity hfallback
      | some projection =>
          obtain ⟨item, hitem, hprojection⟩ := Option.bind_eq_some_iff.mp hprojected
          have hsafe : ({ item with kind := .lifecycle } : StatusObservation).shown.identity =
            false := hundisputed.identity .lifecycle item hitem
          exact projectLifecycle_identity hsafe hprojection

/-! ### After the event and before it -/

theorem observeHook_runtime_end (hevent : payload.hookEventName = "SessionEnd")
    (existing : Option Session) :
    (observeHook s key payload context existing live).2.runtime key = s.runtime key := by
  unfold observeHook
  dsimp only
  rw [if_neg (by simp [hevent]), Ledger.runtime, Ledger.recordStatusObservation,
    Table.get?_refresh, hookObservation_kind, if_neg (by simp)]
  rfl

/-- An end that follows an event which asks for attention changes nothing of what is shown. -/
theorem shown_of_ended {item : StatusObservation}
    (hended : Ended key payload context session live s t)
    (hfound : Found s key payload row session) (hevent : payload.hookEventName = "SessionEnd")
    (hstatus : item.status ∈ [.needsYou, .ready, .error]) (hunread : item.unread = true)
    (hidentity : item.shown.identity = false) (hlifecycle : s.lifecycle key = some item)
    (hdanger : s.danger key = none) (hruntime : s.runtime key = none)
    (hshown : s.shown key = some item.shown) : t.shown key = some item.shown := by
  let observed := observeHook s key payload context (some session) live
  let again := hookObservation key.1 payload context (some session)
  have hsession : session.shown = item.shown :=
    Option.some.inj ((shown_of_found hfound).symm.trans hshown)
  have hpreserved : preserveUnreadOnSessionEnd session = true := by
    change (session.shown.unread && decide (session.shown.status ≠ .openTwice) &&
      !(decide (session.shown.status = .error) &&
        decide (session.shown.attentionReason = some "identity"))) = true
    rw [hsession]
    simp only [Shown.identity, StatusObservation.shown] at hidentity ⊢
    simp only [List.mem_cons, List.not_mem_nil, or_false] at hstatus
    rcases hstatus with h | h | h <;> simp_all
  have hagain : again.shown = item.shown :=
    (hookObservation_of_preserved hevent hpreserved key.1 context).1.trans hsession
  obtain ⟨kept, hkept⟩ : ∃ kept, newest StatusObservation.observedAt (some item) [again] =
    some kept := exists_newest (by simp)
  have hkeptShown : kept.shown = item.shown := by
    rcases newest_mem hkept with h | h
    · rw [Option.some.inj h]
    · rw [List.mem_singleton.mp h, hagain]
  have hlast : observed.2.lifecycle key = some kept := by
    rw [observeHook_lifecycle, hlifecycle]
    exact hkept
  have hsafe : observed.2.danger key = none := by
    rw [Ledger.danger, observeHook_safety, ← Ledger.danger, hdanger]
  have hquiet : observed.2.runtime key = none := (observeHook_runtime_end hevent _).trans hruntime
  have hattends : kept.status ∈ [.needsYou, .ready, .error] := by
    rw [show kept.status = item.status from congrArg Shown.status hkeptShown]
    exact hstatus
  have hunread' : kept.unread = true := (congrArg Shown.unread hkeptShown).trans hunread
  rw [hended.projected.shown, ← hkeptShown]
  exact congrArg some (projectStatus_attention live _ hattends hunread' hlast hsafe hquiet)

/-- An end leaves no conflict, and nothing of the lifecycle that is newer than what was there,
except the end itself when nothing was unread. -/
theorem danger_of_ended (hended : Ended key payload context session live s t)
    (hevent : payload.hookEventName = "SessionEnd") (hundisputed : s.Undisputed key) :
    t.danger key = none := by
  have hobserved : (observeHook s key payload context (some session) live).2.Undisputed key := by
    refine ⟨?_, fun kind item hitem => ?_⟩
    · rw [Ledger.danger, observeHook_safety, ← Ledger.danger, hundisputed.danger]
    · cases kind with
      | lifecycle =>
          rw [← Ledger.lifecycle, observeHook_lifecycle, newer_eq_some] at hitem
          rcases hitem with ⟨rfl, -⟩ | ⟨hstored, -⟩
          · exact hookObservation_identity hevent key.1 context session
          · exact hundisputed.identity .lifecycle item hstored
      | runtime =>
          rw [← Ledger.runtime, observeHook_runtime_end hevent] at hitem
          exact hundisputed.identity .runtime item hitem
      | safety =>
          rw [observeHook_safety] at hitem
          exact hundisputed.identity .safety item hitem
  have hidentity : (observeHook s key payload context (some session) live).1.shown.identity =
      false := by
    refine projectStatus_identity hobserved live fun hstatus hreason => ?_
    have hnone := hookObservation_identity hevent key.1 context session
    rw [Shown.identity, Bool.and_eq_false_iff] at hnone
    exact hnone.elim (fun h => of_decide_eq_false h hstatus) fun h => of_decide_eq_false h hreason
  rw [hended.danger hidentity, hundisputed.danger]

theorem lifecycle_of_ended {item : StatusObservation}
    (hended : Ended key payload context session live s t)
    (hevent : payload.hookEventName = "SessionEnd") (h : t.lifecycle key = some item) :
    s.lifecycle key = some item ∨
      preserveUnreadOnSessionEnd session = true ∧ item.observedAt = session.lastEventAt ∨
      preserveUnreadOnSessionEnd session = false ∧ item.observedAt = context.now := by
  rw [hended.lifecycle, observeHook_lifecycle, newer_eq_some] at h
  rcases h with ⟨rfl, -⟩ | ⟨hstored, -⟩
  · right
    cases hpreserved : preserveUnreadOnSessionEnd session with
    | true => exact .inl ⟨rfl, (hookObservation_of_preserved hevent hpreserved key.1 context).2⟩
    | false =>
        exact .inr ⟨rfl, (hookObservation_of_not_preserved hevent hpreserved key.1 context).2⟩
  · exact .inl hstored

/-! ### The two hooks -/

/-- What an event that asks for attention leaves, when nothing newer is known. -/
theorem effect_attention (clock : Int) (hordinary : hook.Ordinary host key.1)
    (haccepted : hook.accepted s key.1 = true) (hattention : hook.Attention key.1)
    (hresolves : s.resolves key hook.payload.sessionId) (htracked : s.isUntracked key = false)
    (hlifecycle : ∀ item, s.lifecycle key = some item → item.observedAt ≤ hook.time) :
    Effect key [(hook.process key.1, hook.owner)] [hook.item key.1] s
      (handleHook host clock key.1 hook.payload hook.context s).2 := by
  have hrecorded : hook.recorded s key.1 = true := by
    rw [Hook.recorded, haccepted, Bool.true_and, Bool.not_eq_true']
    by_contra hbeat
    simp only [Bool.not_eq_false, Bool.and_eq_true, decide_eq_true_eq] at hbeat
    have hunread := hattention.unread
    simp [Hook.item, hookObservation, eventState, eventObservation, hbeat.2] at hunread
  have heffect : Effect key (hook.seen s key.1) (hook.items s key.1) s
      (handleHook host clock key.1 hook.payload hook.context s).2 :=
    effect_handleHook hordinary hresolves htracked fun item hitem => .inl (hlifecycle item hitem)
  rw [Hook.seen, Hook.items, if_pos haccepted, if_pos hrecorded] at heffect
  exact heffect

/-- It is what is kept and shown then. -/
theorem Effect.shows {owners : List ((Int × String) × LiveOwner)} {item : StatusObservation}
    {row : Session} (h : Effect key owners [item] s t) (hdanger : s.danger key = none)
    (hlifecycle : ∀ held, s.lifecycle key = some held → held.observedAt ≤ item.observedAt)
    (hrow : s.sessions.get? key = some row) :
    t.lifecycle key = some item ∧ t.shown key = some item.shown := by
  have hnewest : newest StatusObservation.observedAt (s.lifecycle key) [item] = some item :=
    newer_eq_some.mpr (.inl ⟨rfl, hlifecycle⟩)
  refine ⟨h.lifecycle.trans hnewest, h.shown.trans ?_⟩
  rw [Ledger.shown, hrow, Option.map_some, Option.map_some, Shown.after, if_neg (by simp), hnewest,
    hdanger]
  rfl

/-- A `SessionEnd` loses no unread attention that is committed before it, or is no older than it,
or finds the session unread.  Of an undisputed session nothing newer than the event that asks for
attention is known; then the session shows that event when both hooks have been committed. -/
theorem attention_survives {attention ending : Int × Hook} (hwatched : s.isWatched key = true)
    (hundisputed : s.Undisputed key) (hordinary : attention.2.Ordinary host key.1)
    (haccepted : attention.2.accepted s key.1 = true) (hattention : attention.2.Attention key.1)
    (hending : ending.2.Ending host key.1)
    (hresolves : s.resolves key attention.2.payload.sessionId)
    (hresolves' : s.resolves key ending.2.payload.sessionId)
    (hlifecycle : ∀ item, s.lifecycle key = some item → item.observedAt ≤ attention.2.time)
    (hruntime : ∀ item, s.runtime key = some item → item.observedAt ≤ attention.2.time)
    (hlast : ∀ time, s.lastEventAt key = some time → time ≤ attention.2.time) :
    let item := attention.2.item key.1
    item.status ∈ [.needsYou, .ready, .error] ∧ item.unread = true ∧
      (handleAll host key.1 [attention, ending] s).shown key = some item.shown ∧
      (ending.2.time ≤ attention.2.time ∨ s.keepsUnread key = true →
        (handleAll host key.1 [ending, attention] s).shown key = some item.shown) := by
  intro item
  have htracked : s.isUntracked key = false := isUntracked_of_isWatched hwatched
  have hat : item.observedAt = attention.2.time := item_observedAt key.1 attention.2
  have hidentity : item.shown.identity = false := by
    have hlively : item.Lively := hookObservation_lively hordinary.event
    have hreason := hlively.reason
    simp only [List.mem_cons, not_or] at hreason
    rw [Shown.identity, Bool.and_eq_false_iff]
    exact .inr (decide_eq_false hreason.1)
  obtain ⟨row, session, hfound, hend⟩ := handleHook_end ending.1 hending hresolves' htracked
  refine ⟨hattention.status, hattention.unread, ?_, fun hbefore => ?_⟩
  · -- the event comes first
    let t := (handleHook host attention.1 key.1 attention.2.payload attention.2.context s).2
    have heffect : Effect key [(attention.2.process key.1, attention.2.owner)] [item] s t :=
      effect_attention attention.1 hordinary haccepted hattention hresolves htracked hlifecycle
    obtain ⟨hitem, hshown⟩ := heffect.shows hundisputed.danger (hat ▸ hlifecycle) hfound.stored
    have hdanger : t.danger key = none := heffect.danger.trans hundisputed.danger
    have hquiet : t.runtime key = none := by
      rw [Option.eq_none_iff_forall_ne_some]
      intro runtime h
      obtain ⟨hstored, hlt⟩ := heffect.runtime hundisputed.danger runtime h
      exact absurd (hruntime runtime hstored) (not_le.mpr (hat ▸ hlt item (by simp)))
    have htracked' : t.isUntracked key = false := by
      rw [Ledger.isUntracked, heffect.untracked, ← Ledger.isUntracked, htracked]
    obtain ⟨row', session', hfound', hend'⟩ := handleHook_end ending.1 hending
      (heffect.settled.resolves hresolves') htracked'
    rcases hend' with hnoted | ⟨u, live, hnoted, hended⟩
    · exact (hnoted.shown key).trans hshown
    · exact shown_of_ended hended (hnoted.found hfound') hending.event hattention.status
        hattention.unread hidentity ((hnoted.observed .lifecycle).trans hitem)
        ((hnoted.danger key).trans hdanger) ((hnoted.observed .runtime).trans hquiet)
        ((hnoted.shown key).trans hshown)
  · let t := (handleHook host ending.1 key.1 ending.2.payload ending.2.context s).2
    obtain ⟨huntracked, hpending, hsettled, hdanger, hheld⟩ : t.untracked = s.untracked ∧
        t.pendingLaunches = s.pendingLaunches ∧ s.Settled key t ∧ t.danger key = none ∧
        ∀ held, t.lifecycle key = some held → held.observedAt ≤ attention.2.time := by
      rcases hend with hnoted | ⟨u, live, hnoted, hended⟩
      · exact ⟨hnoted.untracked, hnoted.pendingLaunches, .of_eq hnoted.sessions,
          (hnoted.danger key).trans hundisputed.danger,
          fun held h => hlifecycle held ((hnoted.observed .lifecycle).symm.trans h)⟩
      · obtain ⟨huntracked, hpending, hsessions, -⟩ := observeHook_tables u key
          ending.2.payload (effectiveContext key.1 ending.2.context) (some session) live
        refine ⟨hended.projected.untracked.trans (huntracked.trans hnoted.untracked),
          hended.projected.pendingLaunches.trans (hpending.trans hnoted.pendingLaunches),
          .trans (.of_eq (hsessions.trans hnoted.sessions)) hended.projected.settled,
          danger_of_ended hended hending.event (hnoted.undisputed hundisputed), fun held h => ?_⟩
        rcases lifecycle_of_ended hended hending.event h with
          hstored | ⟨-, htime⟩ | ⟨hpreserved, htime⟩
        · exact hlifecycle held ((hnoted.observed .lifecycle).symm.trans hstored)
        · rw [htime]
          refine hlast session.lastEventAt ?_
          rw [Ledger.lastEventAt, hfound.stored, hfound.eq]
          rfl
        · rw [htime, effectiveContext_now]
          refine hbefore.resolve_right fun hkeeps => ?_
          rw [Ledger.keepsUnread, hfound.stored, Option.any_some, ← preserve_of_found hfound,
            hpreserved] at hkeeps
          cases hkeeps
    have hfound' : ∃ row', t.sessions.get? key = some row' := hsettled.row row hfound.stored
    obtain ⟨row', hrow'⟩ := hfound'
    have htracked' : t.isUntracked key = false := by
      rw [Ledger.isUntracked, huntracked, ← Ledger.isUntracked, htracked]
    have haccepted' : attention.2.accepted t key.1 = true := by
      rw [accepted_congr huntracked hpending, haccepted]
    have heffect := effect_attention attention.1 hordinary haccepted' hattention
      (hsettled.resolves hresolves) htracked' hheld
    exact (heffect.shows hdanger (hat ▸ hheld) hrow').2

end Ends

/-! ### Where it is lost -/

def sampleAttention : Int × Hook := (20, sampleHook "Stop" 10)

def sampleEnding (deleted : Bool) : Int × Hook :=
  (21, { sampleHook "SessionEnd" 12 with
    payload := { sessionId := "a", hookEventName := "SessionEnd", deleted } })

def sampleWorkerEnding : Int × Hook :=
  (21, { sampleHook "SessionEnd" 12 with
    payload := { sessionId := "a", hookEventName := "SessionEnd", source := some "exec" } })

theorem attention_survives_two :
    (handleAll sampleHost .claude [sampleAttention, sampleEnding false]
      (sampleLedger .claude 1)).shown (sampleKey .claude) =
        some (sampleAttention.2.item .claude).shown := by
  have hundisputed : (sampleLedger .claude 1).Undisputed (sampleKey .claude) :=
    ⟨rfl, by rintro kind item ⟨⟩⟩
  have hattention : sampleAttention.2.Attention .claude := ⟨by decide +kernel, by decide +kernel⟩
  have hlast : ∀ time, (sampleLedger .claude 1).lastEventAt (sampleKey .claude) = some time →
      time ≤ sampleAttention.2.time := by
    rintro time ⟨⟩
    decide
  exact (@attention_survives sampleHost (sampleKey .claude) (sampleLedger .claude 1)
    sampleAttention (sampleEnding false) (by decide +kernel) hundisputed ⟨by decide, rfl, rfl⟩
    (by decide +kernel) hattention ⟨rfl, rfl, by decide⟩ rfl rfl (by rintro item ⟨⟩)
    (by rintro item ⟨⟩) hlast).2.2.1

/-- An end that is committed first and is later leaves nothing of the event.  The end of a worker,
or of a conversation that was deleted, takes the session with it; a danger hides the event, and in
the pane of a pending launch it is refused. -/
theorem attention_lost :
    (∀ provider, (sampleLedger provider 1).isWatched (sampleKey provider) = true) ∧
      (sampleView .claude [sampleEnding false, sampleAttention] (sampleLedger .claude 1)).shown =
        some { status := .parked, unread := false, attentionReason := none, error := none } ∧
      (sampleView .codex [sampleAttention, sampleWorkerEnding]
        (sampleLedger .codex 1)).shown = none ∧
      (sampleView .opencode [sampleAttention, sampleEnding true]
        (sampleLedger .opencode 1)).shown = none ∧
      (sampleView .claude [sampleAttention, sampleEnding false] dangerousLedger).shown.map
        Shown.status = some .openTwice ∧
      (sampleView .claude [sampleAttention, sampleEnding false] launchingLedger).shown.map
        Shown.unread = some false := by
  refine ⟨fun provider => ?_, ?_⟩
  · cases provider <;> decide +kernel
  · decide +kernel

end Pikamux.Board
