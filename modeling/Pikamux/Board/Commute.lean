import Pikamux.Board.Effect

/-!
# Board — Commute

Lifecycle hooks of one session may be committed in any order.

* `effect_handleHook` — what one hook does to what is kept of its session.
* `effect_handleAll` — what a list of hooks does.
* `hooks_commute` — the law: the outcome is the same in every order, and it is that of the newest
  hook that is recorded.
-/

namespace Pikamux.Board

open Support

/-- A hook as it arrives. -/
structure Hook where
  payload : HookPayload
  context : HookContext
  deriving DecidableEq, Repr

/-- Hooks that are committed one after the other, each with the time of its commit. -/
def handleAll (host : Host) (provider : Provider) (hooks : List (Int × Hook)) (ledger : Ledger) :
    Ledger :=
  hooks.foldl
    (fun ledger hook =>
      (handleHook host hook.1 provider hook.2.payload hook.2.context ledger).2) ledger

/-- What is kept of a session. -/
structure View where
  shown : Option Shown
  lastEventAt : Option Int
  lifecycle : Option StatusObservation
  owners : Int × String → Option LiveOwner

def Ledger.view (ledger : Ledger) (key : SessionKey) : View where
  shown := ledger.shown key
  lastEventAt := ledger.lastEventAt key
  lifecycle := ledger.lifecycle key
  owners process := ledger.liveOwners.get? (key, process)

/-! ### Hooks -/

/-- A hook that ends nothing, names its process and is not of an automation worker. -/
structure Hook.Ordinary (host : Host) (provider : Provider) (hook : Hook) : Prop where
  event : hook.payload.hookEventName ≠ "SessionEnd"
  owner : hook.context.ownerPid.isSome = true
  worker : workerOriginator host provider hook.payload hook.context = none

/-- It is valid and in its own environment. -/
def Hook.proper (provider : Provider) (hook : Hook) : Bool :=
  let context := effectiveContext provider hook.context
  succeeds (validatePayload provider hook.payload) && succeeds (validateContext hook.context) &&
    !hook.context.ephemeral && !context.expectedProvider.any (· ≠ provider) &&
    !(provider ∈ [Provider.claude, .muse] &&
      context.expectedSessionId.any (· ≠ hook.payload.sessionId))

/-- It is not refused: its conversation is tracked and no launch is pending in its pane. -/
def Hook.accepted (ledger : Ledger) (provider : Provider) (hook : Hook) : Bool :=
  hook.proper provider && !ledger.isUntracked (provider, hook.payload.sessionId) &&
    ((effectiveContext provider hook.context).paneId.bind ledger.findPendingForPane).isNone

/-- It says something about the lifecycle. -/
def Hook.recorded (ledger : Ledger) (provider : Provider) (hook : Hook) : Bool :=
  hook.accepted ledger provider &&
    !(provider = .opencode && hook.payload.hookEventName = "SessionHeartbeat")

def Hook.time (hook : Hook) : Int := hook.context.now

/-- What it says. -/
def Hook.item (provider : Provider) (hook : Hook) : StatusObservation :=
  hookObservation provider hook.payload (effectiveContext provider hook.context) none

/-- The process and its token. -/
def Hook.process (provider : Provider) (hook : Hook) : Int × String :=
  (hook.context.ownerPid.getD 0, (effectiveContext provider hook.context).ownerToken)

def Hook.owner (hook : Hook) : LiveOwner where
  startTime := hook.context.ownerStartTime
  lastSeen := hook.context.now

section Context

variable (provider : Provider) (context : HookContext)

theorem effectiveContext_now : (effectiveContext provider context).now = context.now := by
  unfold effectiveContext
  split <;> rfl

theorem effectiveContext_ownerPid :
    (effectiveContext provider context).ownerPid = context.ownerPid := by
  unfold effectiveContext
  split <;> rfl

theorem effectiveContext_ownerStartTime :
    (effectiveContext provider context).ownerStartTime = context.ownerStartTime := by
  unfold effectiveContext
  split <;> rfl

theorem workerOriginator_effective (host : Host) (payload : HookPayload) :
    workerOriginator host provider payload (effectiveContext provider context) =
      workerOriginator host provider payload context := by
  unfold effectiveContext
  split <;> rfl

end Context

theorem item_observedAt (provider : Provider) (hook : Hook) :
    (hook.item provider).observedAt = hook.time := by
  rw [Hook.item, hookObservation_observedAt, effectiveContext_now]
  rfl

/-! ### One hook -/

/-- What the hook records. -/
def Hook.items (ledger : Ledger) (provider : Provider) (hook : Hook) : List StatusObservation :=
  if hook.recorded ledger provider then [hook.item provider] else []

/-- Which process it has seen. -/
def Hook.seen (ledger : Ledger) (provider : Provider) (hook : Hook) :
    List ((Int × String) × LiveOwner) :=
  if hook.accepted ledger provider then [(hook.process provider, hook.owner)] else []

section One

variable {host : Host} {key : SessionKey} {hook : Hook} {s t : Ledger} {clock : Int}

theorem accepted_congr (huntracked : t.untracked = s.untracked)
    (hpending : t.pendingLaunches = s.pendingLaunches) (provider : Provider) (hook : Hook) :
    hook.accepted t provider = hook.accepted s provider := by
  have hfind : t.findPendingForPane = s.findPendingForPane := by
    funext pane
    rw [Ledger.findPendingForPane, hpending, Ledger.findPendingForPane]
  rw [Hook.accepted, Hook.accepted, hfind, Ledger.isUntracked, huntracked, ← Ledger.isUntracked]

/-- A hook that is refused records nothing. -/
theorem effect_of_refused (hrefused : hook.accepted s key.1 = false) (h : Effect key [] [] s t) :
    Effect key (hook.seen s key.1) (hook.items s key.1) s t := by
  rw [Hook.seen, Hook.items, Hook.recorded, hrefused]
  exact h

/-- The session that the hook is about is found. -/
theorem resolve_of_resolves {payload : HookPayload} (host : Host) (context : HookContext)
    (h : s.resolves key payload.sessionId) (htracked : s.isUntracked key = false) :
    ∃ row session, Found s key payload row session ∧
      resolve host s key.1 payload context = .session key.2 (some session) := by
  obtain ⟨row, session, hrow, hget, hsession, hthread⟩ := getSessionByThread_of_resolves h
  refine ⟨row, session, ⟨hrow, hsession, hthread, htracked⟩, ?_⟩
  rw [resolve, hget, hsession]

/-- The checks before the transaction. -/
theorem handleHook_eq : (handleHook host clock key.1 hook.payload hook.context s).2 =
    if hook.proper key.1 then
      (handleHookTransaction host clock key.1 hook.payload
        (effectiveContext key.1 hook.context) s).2
    else s := by
  rw [handleHook, Hook.proper]
  cases validatePayload key.1 hook.payload with
  | error _ => simp [Support.succeeds]
  | ok _ =>
      cases validateContext hook.context with
      | error _ => simp [Support.succeeds]
      | ok _ =>
          dsimp only [ok_bind, Support.succeeds]
          by_cases hephemeral : hook.context.ephemeral = true
          · simp [hephemeral]
          rw [if_neg hephemeral]
          split
          case isTrue h => simp only [h, Bool.not_true, Bool.and_false, Bool.false_and,
            Bool.false_eq_true, if_false]
          case isFalse h =>
            split
            case isTrue h' => simp only [h', Bool.not_true, Bool.and_false, Bool.false_eq_true,
              if_false]
            case isFalse h' =>
              simp only [h, h', hephemeral, Bool.not_false, Bool.and_true, if_true]

/-- A valid time is not negative. -/
theorem time_of_proper {provider : Provider} (h : hook.proper provider = true) : 0 ≤ hook.time := by
  simp only [Hook.proper, Bool.and_eq_true] at h
  obtain ⟨u, hcontext⟩ := succeeds_iff.mp h.1.1.1.2
  obtain ⟨_, hnow, -⟩ := bind_eq_ok.mp hcontext
  exact of_decide_eq_true (ensure_eq_ok.mp hnow)

/-- What one hook does to what is kept of its session. -/
theorem effect_handleHook (hordinary : hook.Ordinary host key.1)
    (hresolves : s.resolves key hook.payload.sessionId) (htracked : s.isUntracked key = false)
    (hheld : ∀ item, s.lifecycle key = some item → item.observedAt ≤ hook.time ∨ item.Lively) :
    Effect key (hook.seen s key.1) (hook.items s key.1) s
      (handleHook host clock key.1 hook.payload hook.context s).2 := by
  rw [handleHook_eq]
  by_cases hproper : hook.proper key.1 = true
  case neg =>
    rw [if_neg hproper]
    exact effect_of_refused (by simp [Hook.accepted, hproper]) (.refl key s)
  rw [if_pos hproper, handleHookTransaction]
  by_cases huntracked : s.isUntracked (key.1, hook.payload.sessionId) = true
  · rw [if_pos huntracked]
    refine effect_of_refused (by simp [Hook.accepted, huntracked])
      (effect_deleteLiveOwners fun hkey => ?_)
    rw [hkey, htracked] at huntracked
    cases huntracked
  obtain ⟨row, session, hfound, hresolve⟩ :=
    resolve_of_resolves host (effectiveContext key.1 hook.context) hresolves htracked
  rw [if_neg huntracked, workerOriginator_effective, hordinary.worker, hresolve,
    if_neg (by simp)]
  dsimp only
  rw [if_neg (by simp [htracked])]
  cases hpending : (effectiveContext key.1 hook.context).paneId.bind s.findPendingForPane with
  | some token =>
      exact effect_of_refused (by simp [Hook.accepted, hpending])
        (effect_handleTracked_pending hordinary.event hpending)
  | none =>
      have haccepted : hook.accepted s key.1 = true := by
        simp [Hook.accepted, hproper, huntracked, hpending]
      obtain ⟨pid, hpid⟩ := Option.isSome_iff_exists.mp hordinary.owner
      have hnow : (effectiveContext key.1 hook.context).now = hook.time :=
        effectiveContext_now key.1 hook.context
      have hseen : hook.seen s key.1 = [((pid, (effectiveContext key.1 hook.context).ownerToken),
          { startTime := (effectiveContext key.1 hook.context).ownerStartTime
            lastSeen := (effectiveContext key.1 hook.context).now })] := by
        rw [Hook.seen, if_pos haccepted, Hook.process, hpid, Hook.owner, hnow,
          effectiveContext_ownerStartTime]
        rfl
      have hitems : hook.items s key.1 =
          if key.1 = .opencode ∧ hook.payload.hookEventName = "SessionHeartbeat" then []
          else [hookObservation key.1 hook.payload (effectiveContext key.1 hook.context) none] := by
        rw [Hook.items, Hook.recorded, haccepted, Hook.item]
        by_cases hbeat : key.1 = .opencode ∧ hook.payload.hookEventName = "SessionHeartbeat" <;>
          simp [hbeat]
      rw [hseen, hitems]
      exact effect_handleTracked hfound hordinary.event
        ((effectiveContext_ownerPid key.1 hook.context).trans hpid) hpending (hnow ▸ hheld)

end One

/-! ### Runs -/

section Runs

variable {host : Host} {key : SessionKey} {hooks : List (Int × Hook)} {s t : Ledger}

/-- The hooks that say something about the lifecycle, as observations. -/
def itemsOf (ledger : Ledger) (provider : Provider) (hooks : List Hook) : List StatusObservation :=
  (hooks.filter (·.recorded ledger provider)).map (·.item provider)

/-- The processes that the hooks have seen. -/
def seenBy (ledger : Ledger) (provider : Provider) (hooks : List Hook) :
    List ((Int × String) × LiveOwner) :=
  (hooks.filter (·.accepted ledger provider)).map fun hook => (hook.process provider, hook.owner)

theorem itemsOf_cons (ledger : Ledger) (provider : Provider) (hook : Hook) (hooks : List Hook) :
    itemsOf ledger provider (hook :: hooks) =
      hook.items ledger provider ++ itemsOf ledger provider hooks := by
  rw [itemsOf, List.filter_cons, Hook.items, itemsOf]
  split <;> rfl

theorem seenBy_cons (ledger : Ledger) (provider : Provider) (hook : Hook) (hooks : List Hook) :
    seenBy ledger provider (hook :: hooks) =
      hook.seen ledger provider ++ seenBy ledger provider hooks := by
  rw [seenBy, List.filter_cons, Hook.seen, seenBy]
  split <;> rfl

theorem mem_itemsOf {provider : Provider} {item : StatusObservation} :
    item ∈ itemsOf s provider (hooks.map Prod.snd) ↔
      ∃ hook ∈ hooks, hook.2.recorded s provider = true ∧ hook.2.item provider = item := by
  simp only [itemsOf, List.mem_map, List.mem_filter]
  constructor
  · rintro ⟨_, ⟨⟨hook, hmem, rfl⟩, hrecorded⟩, rfl⟩
    exact ⟨hook, hmem, hrecorded, rfl⟩
  · rintro ⟨hook, hmem, hrecorded, rfl⟩
    exact ⟨hook.2, ⟨⟨hook, hmem, rfl⟩, hrecorded⟩, rfl⟩

theorem mem_seenBy {provider : Provider} {process : Int × String} {owner : LiveOwner} :
    owner ∈ ((seenBy s provider (hooks.map Prod.snd)).filter fun row => row.1 = process).map
        Prod.snd ↔
      ∃ hook ∈ hooks, hook.2.accepted s provider = true ∧ hook.2.process provider = process ∧
        hook.2.owner = owner := by
  simp only [seenBy, List.mem_map, List.mem_filter, decide_eq_true_eq]
  constructor
  · rintro ⟨_, ⟨⟨_, ⟨⟨hook, hmem, rfl⟩, haccepted⟩, rfl⟩, hprocess⟩, rfl⟩
    exact ⟨hook, hmem, haccepted, hprocess, rfl⟩
  · rintro ⟨hook, hmem, haccepted, hprocess, rfl⟩
    exact ⟨(hook.2.process provider, hook.2.owner),
      ⟨⟨hook.2, ⟨⟨hook, hmem, rfl⟩, haccepted⟩, rfl⟩, hprocess⟩, rfl⟩

theorem itemsOf_positive {provider : Provider} (htime : ∀ hook ∈ hooks, hook.2.time ≠ 0) :
    ∀ item ∈ itemsOf s provider (hooks.map Prod.snd), 0 < item.observedAt := by
  intro item hitem
  obtain ⟨hook, hmem, hrecorded, rfl⟩ := mem_itemsOf.mp hitem
  simp only [Hook.recorded, Hook.accepted, Bool.and_eq_true] at hrecorded
  rw [item_observedAt]
  exact lt_of_le_of_ne (time_of_proper hrecorded.1.1.1) (htime hook hmem).symm

/-- Hooks at distinct times are no two observations, and no two words of an owner, at one time. -/
theorem pairwise_itemsOf {provider : Provider} {hooks : List Hook}
    (hdistinct : hooks.Pairwise fun a b => a.time ≠ b.time) :
    (itemsOf s provider hooks).Pairwise fun a b => a.observedAt ≠ b.observedAt := by
  rw [itemsOf, List.pairwise_map]
  simpa only [item_observedAt] using hdistinct.filter _

theorem pairwise_seenBy {provider : Provider} {hooks : List Hook} {process : Int × String}
    (hdistinct : hooks.Pairwise fun a b => a.time ≠ b.time) :
    (((seenBy s provider hooks).filter fun row => row.1 = process).map Prod.snd).Pairwise
      fun a b => a.lastSeen ≠ b.lastSeen := by
  rw [List.pairwise_map, seenBy]
  refine List.Pairwise.filter _ (List.pairwise_map.mpr ?_)
  exact hdistinct.filter _

/-- What a run of hooks does to what is kept of their session. -/
theorem effect_handleAll (hordinary : ∀ hook ∈ hooks, hook.2.Ordinary host key.1)
    (hresolves : ∀ hook ∈ hooks, s.resolves key hook.2.payload.sessionId)
    (htracked : s.isUntracked key = false)
    (hheld : ∀ item, s.lifecycle key = some item →
      (∀ hook ∈ hooks, item.observedAt ≤ hook.2.time) ∨ item.Lively) :
    Effect key (seenBy s key.1 (hooks.map Prod.snd)) (itemsOf s key.1 (hooks.map Prod.snd)) s
      (handleAll host key.1 hooks s) := by
  induction hooks generalizing s with
  | nil => exact .refl key s
  | cons hook hooks ih =>
      simp only [List.mem_cons, forall_eq_or_imp] at hordinary hresolves hheld
      let t := (handleHook host hook.1 key.1 hook.2.payload hook.2.context s).2
      have hhook : Effect key (hook.2.seen s key.1) (hook.2.items s key.1) s t :=
        effect_handleHook hordinary.1 hresolves.1 htracked
          fun item hitem => (hheld item hitem).imp_left And.left
      have haccepted : ∀ h : Hook, h.accepted t key.1 = h.accepted s key.1 :=
        accepted_congr hhook.untracked hhook.pendingLaunches key.1
      have hitems (l : List Hook) : itemsOf t key.1 l = itemsOf s key.1 l := by
        simp only [itemsOf, Hook.recorded, haccepted]
      have hseen (l : List Hook) : seenBy t key.1 l = seenBy s key.1 l := by
        simp only [seenBy, haccepted]
      have hheld' : ∀ item, t.lifecycle key = some item →
          (∀ hook ∈ hooks, item.observedAt ≤ hook.2.time) ∨ item.Lively := by
        intro item hitem
        rw [hhook.lifecycle] at hitem
        rcases newest_mem hitem with h | h
        · exact (hheld item h).imp_left And.right
        · rw [Hook.items] at h
          split at h
          case isTrue =>
            obtain rfl := List.mem_singleton.mp h
            exact .inr (hookObservation_lively hordinary.1.event)
          case isFalse => cases h
      have hrest := ih hordinary.2 (fun h hh => hhook.settled.resolves (hresolves.2 h hh))
        (by rw [Ledger.isUntracked, hhook.untracked, ← Ledger.isUntracked, htracked]) hheld'
      rw [hitems, hseen] at hrest
      rw [List.map_cons, itemsOf_cons, seenBy_cons]
      exact hhook.trans hrest

theorem isUntracked_of_isWatched (h : s.isWatched key = true) : s.isUntracked key = false := by
  unfold Ledger.isWatched at h
  split at h
  · cases h
  · simp only [Bool.and_eq_true, Bool.not_eq_true'] at h
    exact h.2

theorem shown_of_isWatched (h : s.isWatched key = true) : ∃ shown, s.shown key = some shown := by
  unfold Ledger.isWatched Ledger.getSession at h
  cases hrow : s.sessions.get? key with
  | none => simp [hrow] at h
  | some row => exact ⟨row.shown, by rw [Ledger.shown, hrow, Option.map_some]⟩

/-- The outcome of hooks with distinct times, whatever their order. -/
theorem view_perm {hooks hooks' : List Hook} (hperm : hooks.Perm hooks')
    (hdistinct : hooks.Pairwise fun a b => a.time ≠ b.time) {u : Ledger}
    (hpositive : ∀ item ∈ itemsOf s key.1 hooks, 0 < item.observedAt)
    (hdanger : ∀ item, s.danger key = some item → item.observedAt ≠ 0)
    (h : Effect key (seenBy s key.1 hooks) (itemsOf s key.1 hooks) s t)
    (h' : Effect key (seenBy s key.1 hooks') (itemsOf s key.1 hooks') s u) :
    u.view key = t.view key := by
  have hitems : (itemsOf s key.1 hooks).Perm (itemsOf s key.1 hooks') :=
    (hperm.filter _).map _
  have hseen : (seenBy s key.1 hooks).Perm (seenBy s key.1 hooks') := (hperm.filter _).map _
  have hnewest : newest StatusObservation.observedAt (s.lifecycle key) (itemsOf s key.1 hooks) =
      newest StatusObservation.observedAt (s.lifecycle key) (itemsOf s key.1 hooks') :=
    newest_perm hitems (pairwise_itemsOf hdistinct)
  rw [Ledger.view, Ledger.view, View.mk.injEq]
  have hempty : itemsOf s key.1 hooks' = [] ↔ itemsOf s key.1 hooks = [] :=
    ⟨fun h => by rw [h] at hitems; exact hitems.eq_nil, fun h => by
      rw [h] at hitems; exact hitems.symm.eq_nil⟩
  refine ⟨?_, ?_, ?_, funext fun process => ?_⟩
  · rw [h.shown, h'.shown]
    simp only [Shown.after, hempty, hnewest]
  · have hpositive' : ∀ item ∈ itemsOf s key.1 hooks', 0 < item.observedAt :=
      fun item hitem => hpositive item (hitems.mem_iff.mpr hitem)
    rw [h.lastEventAt hpositive hdanger, h'.lastEventAt hpositive' hdanger]
    refine congrArg (Option.map · (s.lastEventAt key)) (funext fun time => ?_)
    simp only [lastAfter, hempty, hnewest]
  · rw [h.lifecycle, h'.lifecycle, hnewest]
  · rw [h.owner, h'.owner]
    exact (newest_perm ((hseen.filter _).map _) (pairwise_seenBy hdistinct)).symm

/-- Lifecycle hooks commute.  The hooks of a watched session, at distinct times after what is stored
of its lifecycle, may be committed in any order: what is kept of the session is the same, and it is
what the newest hook that was recorded says, under a danger that is known.  Each owner row is the
newest word of it. -/
theorem hooks_commute {hooks hooks' : List (Int × Hook)} (hwatched : s.isWatched key = true)
    (hordinary : ∀ hook ∈ hooks, hook.2.Ordinary host key.1)
    (hresolves : ∀ hook ∈ hooks, s.resolves key hook.2.payload.sessionId)
    (hdistinct : hooks.Pairwise fun a b => a.2.time ≠ b.2.time)
    (htime : ∀ hook ∈ hooks, hook.2.time ≠ 0)
    (holder : ∀ hook ∈ hooks, ∀ item, s.lifecycle key = some item → item.observedAt < hook.2.time)
    (hdanger : ∀ item, s.danger key = some item → item.observedAt ≠ 0)
    (hperm : (hooks.map Prod.snd).Perm (hooks'.map Prod.snd)) :
    let after := (handleAll host key.1 hooks s).view key
    (handleAll host key.1 hooks' s).view key = after ∧
      (∀ hook ∈ hooks, hook.2.recorded s key.1 = true →
        (∀ other ∈ hooks, other.2.recorded s key.1 = true → other.2.time ≤ hook.2.time) →
        after.lifecycle = some (hook.2.item key.1) ∧
          after.shown = some ((s.danger key).getD (hook.2.item key.1)).shown ∧
          after.lastEventAt = (s.lastEventAt key).map
            (max · ((s.danger key).getD (hook.2.item key.1)).observedAt)) ∧
      ((∀ hook ∈ hooks, hook.2.recorded s key.1 = false) →
        after.lifecycle = s.lifecycle key ∧ after.shown = s.shown key ∧
          after.lastEventAt = s.lastEventAt key) ∧
      ∀ process,
        (∀ hook ∈ hooks, hook.2.accepted s key.1 = true → hook.2.process key.1 = process →
          (∀ other ∈ hooks, other.2.accepted s key.1 = true → other.2.process key.1 = process →
            other.2.time ≤ hook.2.time) →
          (∀ stored, s.liveOwners.get? (key, process) = some stored →
            stored.lastSeen ≤ hook.2.time) →
          after.owners process = some hook.2.owner) ∧
        ((∀ hook ∈ hooks, hook.2.accepted s key.1 = true → hook.2.process key.1 = process →
          ∃ stored, s.liveOwners.get? (key, process) = some stored ∧
            hook.2.time < stored.lastSeen) →
          after.owners process = s.liveOwners.get? (key, process)) := by
  intro after
  have htracked : s.isUntracked key = false := isUntracked_of_isWatched hwatched
  have hrun {run : List (Int × Hook)} (hrun : (hooks.map Prod.snd).Perm (run.map Prod.snd)) :
      Effect key (seenBy s key.1 (run.map Prod.snd)) (itemsOf s key.1 (run.map Prod.snd)) s
        (handleAll host key.1 run s) := by
    have hall {p : Hook → Prop} (h : ∀ hook ∈ hooks, p hook.2) : ∀ hook ∈ run, p hook.2 := by
      intro hook hhook
      have hmem := hrun.mem_iff.mpr (List.mem_map_of_mem hhook)
      obtain ⟨other, hother, heq⟩ := List.mem_map.mp hmem
      exact heq ▸ h other hother
    have hheld (item : StatusObservation) (hitem : s.lifecycle key = some item) :
        ∀ hook ∈ run, item.observedAt ≤ hook.2.time :=
      hall (p := fun hook => item.observedAt ≤ hook.time)
        fun hook hhook => (holder hook hhook item hitem).le
    have hresolves' : ∀ hook ∈ run, s.resolves key hook.2.payload.sessionId :=
      hall (p := fun hook => s.resolves key hook.payload.sessionId) hresolves
    exact effect_handleAll (hall hordinary) hresolves' htracked
      fun item hitem => .inl (hheld item hitem)
  have heffect := hrun (List.Perm.refl _)
  have hpairwise : (hooks.map Prod.snd).Pairwise fun a b => a.time ≠ b.time :=
    List.pairwise_map.mpr hdistinct
  have hpositive : ∀ item ∈ itemsOf s key.1 (hooks.map Prod.snd), 0 < item.observedAt :=
    itemsOf_positive htime
  refine ⟨view_perm hperm hpairwise hpositive hdanger heffect (hrun hperm), fun hook hhook hrecorded hgreatest => ?_,
    fun hnone => ?_, fun process => ⟨fun hook hhook haccepted hprocess hgreatest hstored => ?_,
      fun hstored => ?_⟩⟩
  · -- the newest of the observations is that of the hook
    have hmem : hook.2.item key.1 ∈ itemsOf s key.1 (hooks.map Prod.snd) :=
      mem_itemsOf.mpr ⟨hook, hhook, hrecorded, rfl⟩
    have hnewest : newest StatusObservation.observedAt (s.lifecycle key)
        (itemsOf s key.1 (hooks.map Prod.snd)) = some (hook.2.item key.1) := by
      refine newest_eq_some hmem (fun item hitem => ?_) (pairwise_itemsOf hpairwise)
        fun stored hstored => ?_
      · obtain ⟨other, hother, hrecorded', rfl⟩ := mem_itemsOf.mp hitem
        rw [item_observedAt, item_observedAt]
        exact hgreatest other hother hrecorded'
      · rw [item_observedAt]
        exact (holder hook hhook stored hstored).le
    obtain ⟨shown, hshown⟩ : ∃ shown, s.shown key = some shown := shown_of_isWatched hwatched
    refine ⟨heffect.lifecycle.trans hnewest, heffect.shown.trans ?_,
      (heffect.lastEventAt hpositive hdanger).trans ?_⟩
    · simp only [hshown, Option.map_some, Shown.after, if_neg (List.ne_nil_of_mem hmem), hnewest,
        Option.elim_some]
    · refine congrArg (Option.map · (s.lastEventAt key)) (funext fun time => ?_)
      simp only [lastAfter, if_neg (List.ne_nil_of_mem hmem), hnewest, Option.elim_some]
  · have hnil : itemsOf s key.1 (hooks.map Prod.snd) = [] := by
      rw [List.eq_nil_iff_forall_not_mem]
      intro item hitem
      obtain ⟨other, hother, hrecorded, -⟩ := mem_itemsOf.mp hitem
      rw [hnone other hother] at hrecorded
      cases hrecorded
    rw [hnil] at heffect hpositive
    refine ⟨heffect.lifecycle, heffect.shown.trans ?_,
      (heffect.lastEventAt hpositive hdanger).trans ?_⟩ <;> simp
  · refine (heffect.owner process).trans (newest_eq_some ?_ (fun owner howner => ?_)
      (pairwise_seenBy hpairwise) hstored)
    · exact mem_seenBy.mpr ⟨hook, hhook, haccepted, hprocess, rfl⟩
    · obtain ⟨other, hother, haccepted', hprocess', rfl⟩ := mem_seenBy.mp howner
      exact hgreatest other hother haccepted' hprocess'
  · refine (heffect.owner process).trans (newest_eq_held fun owner howner => ?_)
    obtain ⟨other, hother, haccepted, hprocess, rfl⟩ := mem_seenBy.mp howner
    exact hstored other hother haccepted hprocess

end Runs

/-! ### Where the newest hook says nothing, or the order matters -/

def sampleKey (provider : Provider) : SessionKey := (provider, "a")

/-- A watched session. -/
def sampleLedger (provider : Provider) (lastEventAt : Int) : Ledger :=
  { sessions := ⟨[(sampleKey provider,
      { provider, sessionId := "a", name := some "work", createdAt := 1, updatedAt := 1, lastEventAt,
        lastActivityAt := 1 })], by simp⟩ }

/-- It is open twice. -/
def dangerousLedger : Ledger :=
  { sampleLedger .claude 1 with
    observations := ⟨[((sampleKey .claude, .safety),
      { kind := .safety, status := .openTwice, unread := true, observedAt := 5,
        source := "launch-conflict" })], by simp⟩ }

/-- A launch is pending in the pane. -/
def launchingLedger : Ledger :=
  { sampleLedger .claude 1 with
    pendingLaunches := ⟨[("token", { tmuxPane := some "%1", createdAt := 5 })], by simp⟩ }

/-- Its process was seen later. -/
def seenLedger : Ledger :=
  { sampleLedger .claude 1 with
    liveOwners := ⟨[((sampleKey .claude, 7, ""), { startTime := some 3, lastSeen := 100 })],
      by simp⟩ }

def sampleHook (event : String) (now : Int) : Hook where
  payload := { sessionId := "a", hookEventName := event }
  context := { now, ownerPid := some 7, paneId := some "%1" }

/-- A hook of `codex exec`. -/
def sampleWorker (now : Int) : Hook :=
  { sampleHook "Stop" now with
    payload := { sessionId := "a", hookEventName := "Stop", source := some "exec" } }

def sampleHost : Host where
  canonicalize := some
  lowercase value := String.ofList (value.toList.map Char.toLower)

def sampleView (provider : Provider) (hooks : List (Int × Hook)) (ledger : Ledger) : View :=
  (handleAll sampleHost provider hooks ledger).view (sampleKey provider)

def sampleRun : List (Int × Hook) :=
  [(20, sampleHook "Stop" 10), (21, sampleHook "PermissionRequest" 12)]

theorem hooks_commute_two :
    (handleAll sampleHost .claude sampleRun.reverse (sampleLedger .claude 1)).view
        (sampleKey .claude) =
      (handleAll sampleHost .claude sampleRun (sampleLedger .claude 1)).view
        (sampleKey .claude) := by
  have hordinary (event : String) (now : Int) (h : event ≠ "SessionEnd") :
      (sampleHook event now).Ordinary sampleHost .claude := ⟨h, rfl, rfl⟩
  have hrun {p : Hook → Prop} (hstop : p (sampleHook "Stop" 10))
      (hask : p (sampleHook "PermissionRequest" 12)) : ∀ hook ∈ sampleRun, p hook.2 := by
    simp [sampleRun, hstop, hask]
  exact (@hooks_commute sampleHost (sampleKey .claude) (sampleLedger .claude 1) sampleRun
    sampleRun.reverse (by decide +kernel)
    (hrun (hordinary "Stop" 10 (by decide)) (hordinary "PermissionRequest" 12 (by decide)))
    (hrun (p := fun hook => (sampleLedger .claude 1).resolves (sampleKey .claude)
      hook.payload.sessionId) rfl rfl)
    (by simp [sampleRun, sampleHook, Hook.time])
    (hrun (p := fun hook => hook.time ≠ 0) (by decide) (by decide))
    (by rintro hook - item ⟨⟩) (by rintro item ⟨⟩)
    (by rw [List.map_reverse]; exact (List.reverse_perm _).symm)).1

/-- The hook of a worker deletes the session, so that it matters whether it comes first.  A
heartbeat, a hook in the pane of a pending launch, and a hook under a danger do not show what they
say.  What was recorded later stays, and time zero is none. -/
theorem hooks_ordered :
    (∀ provider, (sampleLedger provider 1).isWatched (sampleKey provider) = true) ∧
      (sampleView .codex [(20, sampleHook "Stop" 10), (21, sampleWorker 11)]
        (sampleLedger .codex 1)).shown = none ∧
      (sampleView .codex [(20, sampleWorker 11), (21, sampleHook "Stop" 10)]
        (sampleLedger .codex 1)).shown.isSome = true ∧
      (sampleView .opencode [(20, sampleHook "Stop" 10), (21, sampleHook "SessionHeartbeat" 12)]
        (sampleLedger .opencode 1)).lastEventAt = some 10 ∧
      (sampleView .claude [(20, sampleHook "Stop" 10)] launchingLedger).lifecycle = none ∧
      (sampleView .claude [(20, sampleHook "Stop" 10)] dangerousLedger).shown.map Shown.status =
        some .openTwice ∧
      (sampleView .claude [(20, sampleHook "Stop" 10)] (sampleLedger .claude 50)).lastEventAt =
        some 50 ∧
      ((sampleView .claude [(20, sampleHook "Stop" 10)] seenLedger).owners (7, "")).map
        LiveOwner.lastSeen = some 100 ∧
      (sampleView .claude [(20, sampleHook "Stop" 0)] (sampleLedger .claude 0)).lastEventAt =
        some 20 := by
  refine ⟨fun provider => ?_, ?_⟩
  · cases provider <;> decide +kernel
  · decide +kernel

end Pikamux.Board
