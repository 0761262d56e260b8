import Pikamux.Launch.Pending

/-!
# Launch — Lifecycle

One launch as the calls see it: its row, its phase, its receipt and its owner.  Launches do not
meet, so a call is described by what it does to each of them alone (`Moved`).

* `perform_moved` — a call leaves a launch alone, reserves it, changes its phase, registers its
  owner, records its receipt or takes it away.
* `finalizePendingPane_stray` — of the calls only `finalize_pending_pane` writes for a launch that
  has no row.
* `launch_meta_scoped_iff` — so in a run the rows of `meta` stay with their launches exactly when
  `finalize_pending_pane` is called only for launches that are there.
-/

namespace Pikamux.Launch

open Support Timestamp

variable {τ : Type} [Timestamp τ]

/-- What the store has of one launch; of its row, what tells it from another launch with the
token. -/
structure Launch (τ : Type) where
  pending : Option (Provider × τ)
  phase : Option String
  exit : Option (ExitText τ)
  owner : Option (OwnerText τ)

def Launch.gone : Launch τ := ⟨none, none, none, none⟩

def PendingLaunch.identity (row : PendingLaunch τ) : Provider × τ := (row.provider, row.createdAt)

def Store.launch (store : Store τ) (token : String) : Launch τ where
  pending := (store.getPending token).map PendingLaunch.identity
  phase := store.launchPhase.get? token
  exit := store.pendingLaunchExit.get? token
  owner := store.pendingLaunchWrapperOwner.get? token

/-- What the rest of the program does between the calls: it leaves the rows of the launches, but
for what may change in one. -/
def Elsewhere (store store' : Store τ) : Prop := ∀ token, store'.launch token = store.launch token

abbrev Happened (τ : Type) := Entry (Store τ) (Call τ) Outcome

/-- The calls that end a launch, the one that reserves its token again among them. -/
def Ends (token : String) (e : Happened τ) : Prop :=
  match e.call, e.result with
  | .addPending pending _, .flag true => pending.launchToken = token
  | .deletePending launchToken, .flag true => launchToken = token
  | .deletePendingIfCreated launchToken _, .flag true => launchToken = token
  | .retirePendingIfUnchanged snapshot _ _, .flag true => snapshot.pending.launchToken = token
  | .certifyLaunch launchToken _ _ _ _ _, .flag true => launchToken = token
  | .recoverConfirmedLaunch launchToken _ _ _ _, .flag true => launchToken = token
  | .prunePending (some pendingBefore) _, _ =>
      ∃ row, e.before.getPending token = some row ∧ row.createdAt < pendingBefore
  | _, _ => False

/-- The call that registered `owner` for the launch. -/
structure Registered (token owner : String) (launch : Provider × τ) (e : Happened τ) : Prop where
  call : e.call = .registerPendingWrapperOwner token owner
  result : e.result = .flag true
  pending : (e.before.launch token).pending = some launch

/-- The call that recorded the receipt, and what it found. -/
structure Recorded (token owner : String) (receipt : PendingLaunchExit τ) (e : Happened τ) :
    Prop where
  call : ∃ reported, e.call = .recordPendingLaunchExit token receipt.provider reported (some owner)
    receipt.code (some receipt.observedAt)
  result : e.result = .flag true
  pending : (e.before.launch token).pending = some (receipt.provider, receipt.pendingCreatedAt)
  phase : running (e.before.launch token).phase = true
  owner : (e.before.launch token).owner.bind PendingLaunchWrapperOwner.decode =
    some ⟨receipt.provider, receipt.pendingCreatedAt, owner⟩
  finite : finite receipt.observedAt = true
  le : receipt.pendingCreatedAt ≤ receipt.observedAt

/-- What a call can make of a launch. -/
inductive Moved (token : String) (e : Happened τ) : Launch τ → Prop where
  | stay : Moved token e (e.before.launch token)
  | reserve (launch : Provider × τ) (hends : Ends token e) :
      Moved token e ⟨some launch, some LaunchPhase.reserved.asStr, none, none⟩
  | phase (phase : LaunchPhase) (hrow : (e.before.launch token).pending.isSome = true) :
      Moved token e { e.before.launch token with phase := some phase.asStr }
  | finalize {tmuxSession tmuxPane : String} {rootPid rootPidStart : Option Int}
      (hcall : e.call = .finalizePendingPane token tmuxSession tmuxPane rootPid rootPidStart) :
      Moved token e { e.before.launch token with phase := some LaunchPhase.paneAllocated.asStr }
  | own (owner : PendingLaunchWrapperOwner τ)
      (hreg : Registered token owner.ownerToken (owner.provider, owner.pendingCreatedAt) e)
      (hnone : (e.before.launch token).owner = none) :
      Moved token e { e.before.launch token with owner := some owner.encode }
  | exit (owner : String) (receipt : PendingLaunchExit τ) (hrec : Recorded token owner receipt e)
      (hnone : (e.before.launch token).exit = none) :
      Moved token e { e.before.launch token with exit := some receipt.encode }
  | leave (h : Ends token e ∨ (e.before.launch token).pending = none) : Moved token e .gone

/-! ### What the writes do to a launch -/

section Writes

variable {store : Store τ} {launchToken token : String}

omit [Timestamp τ] in
theorem launch_forget (store : Store τ) (launchToken token : String) :
    ({ store with
        pendingLaunches := store.pendingLaunches.erase launchToken }.deleteLaunchMeta
          launchToken).launch token =
      if token = launchToken then .gone else store.launch token := by
  simp only [Store.launch, Store.getPending, Store.deleteLaunchMeta, Table.get?_erase]
  split
  · rfl
  · rfl

omit [Timestamp τ] in
theorem launch_putLaunchPhase (store : Store τ) (launchToken token : String) (phase : LaunchPhase) :
    (store.putLaunchPhase launchToken phase).launch token =
      if token = launchToken then { store.launch token with phase := some phase.asStr }
      else store.launch token := by
  simp only [Store.launch, Store.getPending, Store.putLaunchPhase, Table.get?_upsert]
  split
  · rfl
  · rfl

omit [Timestamp τ] in
/-- A change of a row that is still the same launch. -/
theorem launch_modify (store : Store τ) (launchToken token : String)
    (f : PendingLaunch τ → PendingLaunch τ) (hf : ∀ row, (f row).identity = row.identity) :
    { store with pendingLaunches := store.pendingLaunches.modify launchToken f }.launch token =
      store.launch token := by
  have hpending : ((store.pendingLaunches.modify launchToken f).get? token).map
      PendingLaunch.identity = (store.pendingLaunches.get? token).map PendingLaunch.identity := by
    rw [Table.get?_modify]
    split
    · cases store.pendingLaunches.get? token with
      | none => rfl
      | some row => exact congrArg some (hf row)
    · rfl
  simp only [Store.launch, Store.getPending, hpending]

omit [Timestamp τ] in
theorem launch_putRoot (store : Store τ) (launchToken token : String) (pid startTime : Int) :
    (store.putRoot launchToken pid startTime).launch token = store.launch token :=
  launch_modify store launchToken token _ fun _ => rfl

omit [Timestamp τ] in
theorem launch_pending_isSome :
    (store.launch token).pending.isSome = (store.getPending token).isSome := by
  simp [Store.launch]

omit [Timestamp τ] in
theorem launch_pending_of_getPending {row : PendingLaunch τ}
    (h : store.getPending token = some row) :
    (store.launch token).pending = some (row.provider, row.createdAt) := by
  rw [Store.launch, h, Option.map_some, PendingLaunch.identity]

omit [Timestamp τ] in
theorem launch_foldl_deleteLaunchMeta (tokens : List String) (store : Store τ) (token : String) :
    (tokens.foldl Store.deleteLaunchMeta store).launch token =
      if token ∈ tokens then ⟨(store.launch token).pending, none, none, none⟩
      else store.launch token := by
  induction tokens generalizing store with
  | nil => simp
  | cons other tokens ih =>
      rw [List.foldl_cons, ih]
      have hother : (store.deleteLaunchMeta other).launch token =
          if token = other then ⟨(store.launch token).pending, none, none, none⟩
          else store.launch token := by
        simp only [Store.launch, Store.getPending, Store.deleteLaunchMeta, Table.get?_erase]
        split
        · rfl
        · rfl
      rw [hother]
      by_cases hmem : token ∈ tokens <;> by_cases htoken : token = other <;> simp [hmem, htoken]

/-- A sweep takes away the launches whose rows it drops. -/
theorem launch_sweep (stale : PendingLaunch τ → Bool) (store : Store τ) (token : String) :
    (((store.pendingLaunches.rows.filter fun row => stale row.2).map Prod.fst).foldl
      Store.deleteLaunchMeta { store with
        pendingLaunches := store.pendingLaunches.delete fun _ row => stale row }).launch token =
      if (store.pendingLaunches.get? token).any stale then .gone else store.launch token := by
  have hmem : token ∈ (store.pendingLaunches.rows.filter fun row => stale row.2).map Prod.fst ↔
      (store.pendingLaunches.get? token).any stale = true := by
    simp [Option.any_eq_true, ← Table.mem_rows_iff]
  have hpending : (store.pendingLaunches.delete fun _ row => stale row).get? token =
      if (store.pendingLaunches.get? token).any stale then none
        else store.pendingLaunches.get? token := by
    refine Option.ext fun row => ?_
    rw [Table.get?_delete]
    cases store.pendingLaunches.get? token with
    | none => simp
    | some other =>
        by_cases h : stale other
        · simp only [Option.some.injEq, Option.any_some, h, if_true, reduceCtorEq, iff_false]
          rintro ⟨rfl, hrow⟩
          simp [h] at hrow
        · simp only [Option.some.injEq, Option.any_some, h, if_false, Bool.false_eq_true]
          constructor
          · exact And.left
          · rintro rfl
            exact ⟨rfl, by simpa using h⟩
  rw [launch_foldl_deleteLaunchMeta]
  simp only [hmem]
  by_cases h : (store.pendingLaunches.get? token).any stale = true
  · rw [if_pos h] at hpending
    simp only [Store.launch, Store.getPending, hpending, h, if_true]
    rfl
  · rw [if_neg h] at hpending
    simp only [Store.launch, Store.getPending, hpending, h]
    rfl

end Writes

/-! ### The calls one by one -/

section Calls

variable {store : Store τ} (token : String)

theorem moved_addPending (pending : PendingLaunch (Option τ)) (now : τ) :
    Moved token ⟨store, .addPending pending now, (perform (.addPending pending now) store).1⟩
      ((perform (.addPending pending now) store).2.launch token) := by
  cases h : addPending pending now store with
  | none =>
      simp only [perform, h, Option.elim_none]
      exact .stay
  | some answer =>
      simp only [perform, h, Option.elim_some]
      simp only [addPending] at h
      split at h
      · cases h
        exact .stay
      · obtain ⟨createdAt, -, h⟩ := Option.bind_eq_some_iff.mp h
        cases h
        rw [launch_putLaunchPhase]
        by_cases htoken : token = pending.launchToken
        · subst htoken
          simp only [Store.launch, Store.getPending, Store.deleteLaunchMeta, Table.get?_erase,
            Table.get?_upsert, if_pos, Option.map_some]
          exact .reserve _ rfl
        · simp only [Store.launch, Store.getPending, Store.deleteLaunchMeta, Table.get?_erase,
            Table.get?_upsert, if_neg htoken]
          exact .stay

theorem moved_finalizePendingPane (launchToken tmuxSession tmuxPane : String)
    (rootPid rootPidStart : Option Int) :
    Moved token ⟨store, .finalizePendingPane launchToken tmuxSession tmuxPane rootPid rootPidStart,
        (perform (.finalizePendingPane launchToken tmuxSession tmuxPane rootPid rootPidStart)
          store).1⟩
      ((perform (.finalizePendingPane launchToken tmuxSession tmuxPane rootPid rootPidStart)
        store).2.launch token) := by
  simp only [perform, finalizePendingPane]
  rw [launch_putLaunchPhase, launch_modify]
  · split
    case isTrue h =>
      subst h
      exact .finalize rfl
    case isFalse => exact .stay
  · intro row
    rfl

theorem moved_setLaunchPhase (launchToken : String) (phase : LaunchPhase) :
    Moved token ⟨store, .setLaunchPhase launchToken phase,
        (perform (.setLaunchPhase launchToken phase) store).1⟩
      ((perform (.setLaunchPhase launchToken phase) store).2.launch token) := by
  simp only [perform, setLaunchPhase]
  split
  case isTrue hrow =>
    rw [launch_putLaunchPhase]
    split
    case isTrue h =>
      subst h
      exact .phase phase (launch_pending_isSome.trans hrow)
    case isFalse => exact .stay
  case isFalse => exact .stay

theorem moved_observeLaunchedGeneration (launchToken : String) (pid startTime : Int) :
    Moved token ⟨store, .observeLaunchedGeneration launchToken pid startTime,
        (perform (.observeLaunchedGeneration launchToken pid startTime) store).1⟩
      ((perform (.observeLaunchedGeneration launchToken pid startTime) store).2.launch token) := by
  simp only [perform, observeLaunchedGeneration]
  split
  case isTrue hrow =>
    rw [launch_putLaunchPhase, launch_putRoot]
    split
    case isTrue h =>
      subst h
      exact .phase .providerObserved (launch_pending_isSome.trans hrow)
    case isFalse => exact .stay
  case isFalse => exact .stay

theorem moved_registerPendingWrapperOwner (launchToken ownerToken : String) :
    Moved token ⟨store, .registerPendingWrapperOwner launchToken ownerToken,
        (perform (.registerPendingWrapperOwner launchToken ownerToken) store).1⟩
      ((perform (.registerPendingWrapperOwner launchToken ownerToken) store).2.launch token) := by
  simp only [perform]
  cases hrow : store.getPending launchToken with
  | none =>
      simp only [registerPendingWrapperOwner, hrow]
      exact .stay
  | some row =>
      simp only [registerPendingWrapperOwner, hrow]
      split
      · exact .stay
      · cases howner : store.pendingLaunchWrapperOwner.get? launchToken with
        | some existing =>
            simp only
            split
            · exact .stay
            · exact .stay
        | none =>
            by_cases h : token = launchToken
            · subst h
              simp only [Store.launch, Store.getPending, Table.get?_upsert, if_pos]
              exact .own ⟨row.provider, row.createdAt, ownerToken⟩
                ⟨rfl, rfl, launch_pending_of_getPending hrow⟩ howner
            · simp only [Store.launch, Store.getPending, Table.get?_upsert, if_neg h]
              exact .stay

/-- The checks before a receipt is written. -/
theorem recorded {row : PendingLaunch τ} {provider : Provider}
    {reportedSessionId ownerToken : Option String} {code : Int} {observedAt : τ}
    {owner : PendingLaunchWrapperOwner τ} (hrow : store.getPending token = some row)
    (hrequest : pendingExitRequestMatches token row provider reportedSessionId observedAt store =
      true)
    (howner : (store.pendingLaunchWrapperOwner.get? token).bind PendingLaunchWrapperOwner.decode =
      some owner)
    (hmatches : pendingExitOwnerMatches owner row provider ownerToken = true) :
    Recorded token owner.ownerToken ⟨provider, row.createdAt, code, observedAt⟩
      ⟨store, .recordPendingLaunchExit token provider reportedSessionId ownerToken code
        (some observedAt), .flag true⟩ := by
  simp only [pendingExitRequestMatches, Bool.and_eq_true, decide_eq_true_eq] at hrequest
  simp only [pendingExitOwnerMatches, Bool.and_eq_true, decide_eq_true_eq] at hmatches
  obtain ⟨⟨⟨⟨hprovider, -⟩, hfinite⟩, hle⟩, hphase⟩ := hrequest
  obtain ⟨⟨howned, hcreated⟩, htoken⟩ := hmatches
  subst hprovider htoken
  refine ⟨⟨_, rfl⟩, rfl, launch_pending_of_getPending hrow, hphase, ?_, hfinite, hle⟩
  rw [← howned, ← hcreated]
  exact howner

theorem moved_recordPendingLaunchExit (launchToken : String) (provider : Provider)
    (reportedSessionId ownerToken : Option String) (code : Int) (observedAt : Option τ) :
    Moved token ⟨store, .recordPendingLaunchExit launchToken provider reportedSessionId ownerToken
        code observedAt, (perform (.recordPendingLaunchExit launchToken provider reportedSessionId
          ownerToken code observedAt) store).1⟩
      ((perform (.recordPendingLaunchExit launchToken provider reportedSessionId ownerToken code
        observedAt) store).2.launch token) := by
  simp only [perform]
  cases hrow : store.getPending launchToken with
  | none =>
      simp only [recordPendingLaunchExit, hrow]
      exact .stay
  | some row =>
      cases observedAt with
      | none =>
          simp only [recordPendingLaunchExit, hrow]
          exact .stay
      | some observedAt =>
          simp only [recordPendingLaunchExit, hrow]
          split
          · exact .stay
          case isFalse hrequest =>
            cases howner : (store.pendingLaunchWrapperOwner.get? launchToken).bind
                PendingLaunchWrapperOwner.decode with
            | none =>
                simp only
                exact .stay
            | some owner =>
                simp only
                split
                · exact .stay
                case isFalse hmatches =>
                  cases hexit : store.pendingLaunchExit.get? launchToken with
                  | some existing =>
                      simp only [pendingExitReplayMatches, hexit, Option.map_some]
                      exact .stay
                  | none =>
                      simp only [pendingExitReplayMatches, hexit, Option.map_none]
                      by_cases h : token = launchToken
                      · subst h
                        simp only [Store.launch, Store.getPending, Table.get?_upsert, if_pos]
                        refine .exit owner.ownerToken
                          ⟨provider, row.createdAt, code, observedAt⟩ ?_ hexit
                        exact recorded token hrow (by simpa using hrequest) howner (by simp_all)
                      · simp only [Store.launch, Store.getPending, Table.get?_upsert, if_neg h]
                        exact .stay

theorem moved_forget (call : Call τ) (result : Outcome) (launchToken : String)
    (h : token = launchToken →
      Ends token ⟨store, call, result⟩ ∨ (store.launch token).pending = none) :
    Moved token ⟨store, call, result⟩
      ({ store with
        pendingLaunches := store.pendingLaunches.erase launchToken }.deleteLaunchMeta
          launchToken |>.launch token) := by
  rw [launch_forget]
  split
  case isTrue htoken => exact .leave (h htoken)
  case isFalse => exact .stay

theorem moved_deletePending (launchToken : String) :
    Moved token ⟨store, .deletePending launchToken,
        (perform (.deletePending launchToken) store).1⟩
      ((perform (.deletePending launchToken) store).2.launch token) := by
  simp only [perform, deletePending]
  refine moved_forget token _ _ launchToken fun htoken => ?_
  subst htoken
  cases hrow : store.getPending token with
  | none => exact .inr (by simp [Store.launch, hrow])
  | some row => exact .inl rfl

theorem moved_deletePendingIfCreated (launchToken : String) (createdAt : Option τ) :
    Moved token ⟨store, .deletePendingIfCreated launchToken createdAt,
        (perform (.deletePendingIfCreated launchToken createdAt) store).1⟩
      ((perform (.deletePendingIfCreated launchToken createdAt) store).2.launch token) := by
  simp only [perform, deletePendingIfCreated]
  split
  · exact moved_forget token _ _ launchToken fun htoken => .inl htoken.symm
  · exact .stay

theorem moved_retirePendingIfUnchanged (snapshot : PendingLaunchRetirementSnapshot τ)
    (reason : String) (now : τ) :
    Moved token ⟨store, .retirePendingIfUnchanged snapshot reason now,
        (perform (.retirePendingIfUnchanged snapshot reason now) store).1⟩
      ((perform (.retirePendingIfUnchanged snapshot reason now) store).2.launch token) := by
  simp only [perform, retirePendingIfUnchanged]
  split
  · exact .stay
  · simp only [deletePendingIfCreated]
    split
    · exact moved_forget token _ _ snapshot.pending.launchToken fun htoken => .inl htoken.symm
    · exact .stay

/-- A certification changes nothing, or ends the launch. -/
theorem certifyLaunch_cases (store : Store τ) (launchToken : String) (provider : Provider)
    (sessionId : String) (pid startTime : Int) (now : τ) :
    certifyLaunch launchToken provider sessionId pid startTime now store = (false, store) ∨
      (certifyLaunch launchToken provider sessionId pid startTime now store).1 = true ∧
        (certifyLaunch launchToken provider sessionId pid startTime now store).2.launch token =
          if token = launchToken then .gone else store.launch token := by
  simp only [certifyLaunch]
  split
  · exact .inl rfl
  · split
    · exact .inl rfl
    · exact .inr ⟨rfl, launch_forget _ launchToken token⟩

theorem moved_certifyLaunch (launchToken : String) (provider : Provider) (sessionId : String)
    (pid startTime : Int) (now : τ) :
    Moved token ⟨store, .certifyLaunch launchToken provider sessionId pid startTime now,
        (perform (.certifyLaunch launchToken provider sessionId pid startTime now) store).1⟩
      ((perform (.certifyLaunch launchToken provider sessionId pid startTime now) store).2.launch
        token) := by
  simp only [perform]
  rcases certifyLaunch_cases token store launchToken provider sessionId pid startTime now with
    hcert | ⟨hresult, hlaunch⟩
  · rw [hcert]
    exact .stay
  · rw [hresult, hlaunch]
    split
    case isTrue htoken => exact .leave (.inl htoken.symm)
    case isFalse => exact .stay

theorem moved_recoverConfirmedLaunch (launchToken : String) (session : Session)
    (pid startTime : Int) (now : τ) :
    Moved token ⟨store, .recoverConfirmedLaunch launchToken session pid startTime now,
        (perform (.recoverConfirmedLaunch launchToken session pid startTime now) store).1⟩
      ((perform (.recoverConfirmedLaunch launchToken session pid startTime now) store).2.launch
        token) := by
  simp only [perform, recoverConfirmedLaunch]
  split
  · exact .stay
  · split
    · exact .stay
    · rcases certifyLaunch_cases token (store.putRoot launchToken pid startTime) launchToken
        session.provider session.sessionId pid startTime now
        with hcert | ⟨hresult, hlaunch⟩
      · rw [hcert, launch_putRoot]
        exact .stay
      · rw [hresult, hlaunch, launch_putRoot]
        split
        case isTrue htoken => exact .leave (.inl htoken.symm)
        case isFalse => exact .stay

theorem moved_prunePending (pendingBefore bindingBefore : Option τ) :
    Moved token ⟨store, .prunePending pendingBefore bindingBefore,
        (perform (.prunePending pendingBefore bindingBefore) store).1⟩
      ((perform (.prunePending pendingBefore bindingBefore) store).2.launch token) := by
  simp only [perform, prunePending]
  have hlaunch := launch_sweep (fun row => pendingBefore.any (row.createdAt < ·)) store token
  split at hlaunch
  case isTrue hstale =>
    obtain ⟨row, hrow, hbefore⟩ := (Option.any_eq_true ..).mp hstale
    obtain ⟨before, rfl, hlt⟩ := (Option.any_eq_true ..).mp hbefore
    exact hlaunch ▸ .leave (.inl ⟨row, hrow, by simpa using hlt⟩)
  case isFalse => exact hlaunch ▸ .stay

end Calls

theorem perform_moved (call : Call τ) (store : Store τ) (token : String) :
    Moved token ⟨store, call, (perform call store).1⟩ ((perform call store).2.launch token) := by
  cases call with
  | addPending pending now => exact moved_addPending token pending now
  | finalizePendingPane launchToken session pane rootPid rootPidStart =>
      exact moved_finalizePendingPane token launchToken session pane rootPid rootPidStart
  | setLaunchPhase launchToken phase => exact moved_setLaunchPhase token launchToken phase
  | observeLaunchedGeneration launchToken pid startTime =>
      exact moved_observeLaunchedGeneration token launchToken pid startTime
  | registerPendingWrapperOwner launchToken owner =>
      exact moved_registerPendingWrapperOwner token launchToken owner
  | recordPendingLaunchExit launchToken provider reported owner code observedAt =>
      exact moved_recordPendingLaunchExit token launchToken provider reported owner code observedAt
  | deletePending launchToken => exact moved_deletePending token launchToken
  | deletePendingIfCreated launchToken createdAt =>
      exact moved_deletePendingIfCreated token launchToken createdAt
  | retirePendingIfUnchanged snapshot reason now =>
      exact moved_retirePendingIfUnchanged token snapshot reason now
  | certifyLaunch launchToken provider sessionId pid startTime now =>
      exact moved_certifyLaunch token launchToken provider sessionId pid startTime now
  | recoverConfirmedLaunch launchToken session pid startTime now =>
      exact moved_recoverConfirmedLaunch token launchToken session pid startTime now
  | prunePending pendingBefore bindingBefore =>
      exact moved_prunePending token pendingBefore bindingBefore

/-! ### The rows in `meta` and their launch -/

/-- Rows of `meta` are there only for launches that are. -/
def Scoped (store : Store τ) : Prop :=
  ∀ token, store.launchPhase.contains token = true ∨
    store.pendingLaunchExit.contains token = true ∨
    store.pendingLaunchWrapperOwner.contains token = true →
      store.pendingLaunches.contains token = true

/-- The launch whose pane the call finalizes. -/
def Call.finalizes : Call τ → Option String
  | .finalizePendingPane launchToken _ _ _ _ => some launchToken
  | _ => none

section Scoped

variable {store store' : Store τ} {call : Call τ} {token : String}

/-- Nothing is left of the launch that has no row. -/
def Launch.Scoped (launch : Launch τ) : Prop := launch.pending = none → launch = .gone

omit [Timestamp τ] in
theorem scoped_iff_launch : Scoped store ↔ ∀ token, (store.launch token).Scoped := by
  refine forall_congr' fun token => ?_
  simp only [Launch.Scoped, Launch.gone, Store.launch, Store.getPending, Table.contains,
    Launch.mk.injEq, Option.map_eq_none_iff]
  cases store.pendingLaunches.get? token <;> cases store.launchPhase.get? token <;>
    cases store.pendingLaunchExit.get? token <;>
    cases store.pendingLaunchWrapperOwner.get? token <;> simp

omit [Timestamp τ] in
theorem Elsewhere.scoped_iff (h : Elsewhere store store') : Scoped store' ↔ Scoped store := by
  rw [scoped_iff_launch, scoped_iff_launch]
  exact forall_congr' fun token => by rw [h token]

/-- Only `finalize_pending_pane` can leave a row of `meta` behind, at a launch without a row. -/
theorem Moved.scoped {launch : Launch τ} {result : Outcome}
    (h : Moved token ⟨store, call, result⟩ launch) (hscoped : (store.launch token).Scoped)
    (hfinal : call.finalizes = some token → store.pendingLaunches.contains token = true) :
    launch.Scoped := by
  -- where the row is there, it stays
  have hthere : (store.launch token).pending.isSome = true → (store.launch token).pending ≠ none :=
    fun hrow hnone => by simp [hnone] at hrow
  cases h with
  | stay => exact hscoped
  | reserve launch =>
      intro hnone
      cases hnone
  | phase _ hrow => exact fun hnone => absurd hnone (hthere hrow)
  | finalize hcall =>
      have hrow := hfinal (congrArg Call.finalizes hcall)
      exact fun hnone => absurd hnone (hthere (launch_pending_isSome.trans hrow))
  | own _ hreg => exact fun hnone => absurd hnone (hthere (Option.isSome_of_mem hreg.pending))
  | exit _ _ hrec => exact fun hnone => absurd hnone (hthere (Option.isSome_of_mem hrec.pending))
  | leave => exact fun _ => rfl

/-- It does there. -/
theorem finalizePendingPane_stray (hcall : call.finalizes = some token)
    (hrow : store.pendingLaunches.contains token = false) : ¬ Scoped (perform call store).2 := by
  cases call with
  | finalizePendingPane launchToken session pane rootPid rootPidStart =>
      cases hcall
      intro hscoped
      have hphase : (perform (.finalizePendingPane token session pane rootPid rootPidStart)
          store).2.launchPhase.contains token = true := by
        simp [perform, finalizePendingPane, Store.putLaunchPhase, Table.contains,
          Table.get?_upsert]
      have hpending := hscoped token (.inl hphase)
      simp only [perform, finalizePendingPane, Store.putLaunchPhase, Table.contains,
        Table.get?_modify, if_pos, Option.isSome_map] at hpending
      rw [Table.contains, hpending] at hrow
      cases hrow
  | _ => cases hcall

/-- One call. -/
theorem perform_scoped_iff (call : Call τ) (hscoped : Scoped store) :
    Scoped (perform call store).2 ↔
      ∀ token, call.finalizes = some token → store.pendingLaunches.contains token = true := by
  constructor
  · intro h token hcall
    by_contra hrow
    exact finalizePendingPane_stray hcall (Bool.eq_false_iff.mpr hrow) h
  · intro h
    rw [scoped_iff_launch] at hscoped ⊢
    exact fun token => (perform_moved call store token).scoped (hscoped token) (h token)

end Scoped

/-- Along a run from the empty store. -/
theorem launch_meta_scoped_iff {entries : List (Happened τ)} {store : Store τ}
    (h : History perform Elsewhere {} entries store) :
    ((∀ e ∈ entries, Scoped e.before) ∧ Scoped store) ↔
      ∀ e ∈ entries, ∀ token, e.call.finalizes = some token →
        e.before.pendingLaunches.contains token = true := by
  induction h with
  | nil => simp [Scoped, Table.contains]
  | drift _ hd ih => rw [hd.scoped_iff, ih]
  | @call es u _ call ih =>
      simp only [List.forall_mem_append, List.forall_mem_singleton]
      rw [← ih]
      constructor
      · rintro ⟨⟨hes, hu⟩, hnext⟩
        exact ⟨⟨hes, hu⟩, (perform_scoped_iff call hu).mp hnext⟩
      · rintro ⟨⟨hes, hu⟩, hcond⟩
        exact ⟨⟨hes, hu⟩, (perform_scoped_iff call hu).mpr hcond⟩

/-- Whole seconds. -/
instance timestampInt : Timestamp Int where
  toLinearOrder := Int.instLinearOrder
  toZero := ⟨0⟩
  finite _ := true

def sampleLaunch : PendingLaunch (Option Int) where
  launchToken := "t"
  provider := .claude
  name := "work"
  cwd := "/work"
  tmuxSession := none
  tmuxPane := none
  expectedSessionId := none
  rootPid := none
  rootPidStart := none
  preexistingSessionIds := none
  candidateSessionId := none
  candidateObservedAt := none
  createdAt := some 10

theorem launch_meta_scoped_reserved :
    Scoped (replay perform ({} : Store Int)
      [.addPending sampleLaunch 10, .finalizePendingPane "t" "s" "%1" none none]).2 := by
  refine ((launch_meta_scoped_iff (History.replay _ _)).mpr ?_).2
  intro e he token hcall
  simp only [replay, List.mem_cons, List.not_mem_nil, or_false] at he
  rcases he with rfl | rfl
  · cases hcall
  · cases hcall
    rfl

/-- The pane of a launch that is not there, or not there any more. -/
theorem launch_meta_stray : ¬ ∀ (entries : List (Happened Int)) (store : Store Int),
    History perform Elsewhere {} entries store → Scoped store := by
  intro h
  have hstray := h _ _ (History.replay _ [Call.finalizePendingPane "t" "s" "%1" none none])
  exact finalizePendingPane_stray rfl rfl hstray

end Pikamux.Launch
