import Pikamux.Support.History
import Pikamux.Assistant.Lifecycle

/-!
# Assistant — Allowance

What the calls of `assistant_lifecycle.rs` keep over every run of the owner, restarts included.

* `effect_of_run` — everything a successful call found and did.
* `Kept` — what no call changes of a root.
* `allowance_kept` — roots are reserved and dispatched once, within the allowance in force, and a
  charge is lowered once.
-/

namespace Pikamux.Lifecycle

open Support Memory

/-! ### What a call does -/

/-- Everything a successful call found in `owner`, and the owner after it. -/
inductive Effect (owner : Owner) : Call → Owner → Prop where
  | opened : Effect owner .open (Lifecycle.open owner)
  | approved {origin config scope executable calls now} (saved : Saved) :
      Effect owner (.approve origin config scope executable calls now) (save saved true owner)
  | paused {origin} (saved : Saved) : Effect owner (.pause origin) (save saved true owner)
  | resumed {origin now} (saved : Saved) (hconfig : saved.config = (loadSaved owner).config) :
      Effect owner (.resume origin now) (save saved false owner)
  | disabled {origin} (saved : Saved) : Effect owner (.disable origin) (save saved true owner)
  | reserved {id calls now revision roots} {config : BackgroundConfig}
      (hconfig : (loadSaved owner).config = some config)
      (hcharge : owner.charged + calls ≤ config.maxCalls)
      (hinsert : owner.roots.insert? id ⟨calls,
        min (now + asInt config.jobTimeoutSecs) config.expiresAt, .reserved, revision, none⟩ =
          some roots) :
      Effect owner (.reserve id calls now) { owner with roots }
  | dispatched {id now} {r : Reservation} {config : BackgroundConfig}
      (hid : owner.roots.get? id = some r) (hstate : r.state = .reserved)
      (hdeadline : now < r.deadline) (hconfig : (loadSaved owner).config = some config)
      (hexpires : now < config.expiresAt) :
      Effect owner (.beginDispatch id now)
        { owner with roots := owner.roots.modify id fun r => { r with state := .dispatched } }
  | finished {id outcome confirmedCalls} {r : Reservation} (hid : owner.roots.get? id = some r)
      (hstate : r.state = .dispatched ∨ r.state = outcome.state)
      (hmeasured : ∀ m, measurement outcome confirmedCalls = some m → m ≤ r.calls) :
      Effect owner (.finishMeasured id outcome confirmedCalls)
        { owner with roots := owner.roots.modify id fun r => { r with
            state := outcome.state
            confirmedCalls := r.confirmedCalls.or (measurement outcome confirmedCalls) } }

theorem dispatchConfig_eq_ok {saved : Saved} {now : Int} {config : BackgroundConfig}
    (h : dispatchConfig saved now = .ok config) :
    saved.config = some config ∧ now < config.expiresAt := by
  obtain ⟨config', hconfig, h⟩ := bind_eq_ok.mp h
  obtain ⟨_, hactive, h⟩ := bind_eq_ok.mp h
  cases pure_eq_ok.mp h
  rw [context_eq_ok] at hconfig
  rw [ensure_eq_ok] at hactive
  simp only [Bool.and_eq_true, decide_eq_true_eq] at hactive
  exact ⟨hconfig, hactive.2⟩

theorem reserve_eq_ok {id : String} {calls : Nat} {now : Int} {owner owner' : Owner}
    {row : Reservation} (h : reserve id calls now owner = .ok (row, owner')) :
    ∃ config revision roots, (loadSaved owner).config = some config ∧
      owner.charged + calls ≤ config.maxCalls ∧
      owner.roots.insert? id ⟨calls, min (now + asInt config.jobTimeoutSecs) config.expiresAt,
        .reserved, revision, none⟩ = some roots ∧ owner' = { owner with roots } := by
  obtain ⟨_, hvalid, h⟩ := bind_eq_ok.mp h
  obtain ⟨config, hconfig, h⟩ := bind_eq_ok.mp h
  obtain ⟨latest, hlatest, h⟩ := bind_eq_ok.mp h
  obtain ⟨total, htotal, h⟩ := bind_eq_ok.mp h
  obtain ⟨_, hcharge, h⟩ := bind_eq_ok.mp h
  obtain ⟨_, -, h⟩ := bind_eq_ok.mp h
  obtain ⟨_, -, h⟩ := bind_eq_ok.mp h
  obtain ⟨roots, hinsert, h⟩ := bind_eq_ok.mp h
  cases pure_eq_ok.mp h
  rw [context_eq_ok] at hlatest hinsert
  obtain rfl := checkedAdd_eq_some hlatest
  refine ⟨config, _, roots, (dispatchConfig_eq_ok hconfig).1, ?_, hinsert, rfl⟩
  rw [validateReservation, ensure_eq_ok] at hvalid
  simp only [Bool.and_eq_true, decide_eq_true_eq] at hvalid
  rw [ensure_eq_ok, decide_eq_true_eq] at hcharge
  unfold spent at htotal
  split at htotal
  · cases htotal
    have hpos := hvalid.1.2
    -- a positive number of calls that fits in what is left
    omega
  · cases htotal

theorem effect_of_run {call : Call} {owner owner' : Owner} {reply : Option Reservation}
    (h : call.run owner = .ok (reply, owner')) : Effect owner call owner' := by
  cases call with
  | «open» =>
      cases h
      exact .opened
  | approve origin config scope executable calls now =>
      obtain ⟨_, hrun, ⟨⟩⟩ := map_eq_ok.mp h
      obtain ⟨_, -, hrun⟩ := bind_eq_ok.mp hrun
      obtain ⟨_, -, hrun⟩ := bind_eq_ok.mp hrun
      obtain ⟨_, -, hrun⟩ := bind_eq_ok.mp hrun
      obtain ⟨_, -, hrun⟩ := bind_eq_ok.mp hrun
      cases pure_eq_ok.mp hrun
      exact .approved _
  | pause origin =>
      obtain ⟨_, hrun, ⟨⟩⟩ := map_eq_ok.mp h
      obtain ⟨_, -, hrun⟩ := bind_eq_ok.mp hrun
      cases pure_eq_ok.mp hrun
      exact .paused _
  | resume origin now =>
      obtain ⟨_, hrun, ⟨⟩⟩ := map_eq_ok.mp h
      obtain ⟨_, -, hrun⟩ := bind_eq_ok.mp hrun
      obtain ⟨_, -, hrun⟩ := bind_eq_ok.mp hrun
      cases pure_eq_ok.mp hrun
      exact .resumed _ rfl
  | disable origin =>
      obtain ⟨_, hrun, ⟨⟩⟩ := map_eq_ok.mp h
      obtain ⟨_, -, hrun⟩ := bind_eq_ok.mp hrun
      cases pure_eq_ok.mp hrun
      exact .disabled _
  | reserve id calls now =>
      obtain ⟨_, hrun, ⟨⟩⟩ := map_eq_ok.mp h
      obtain ⟨config, revision, roots, hconfig, hcharge, hinsert, heq⟩ := reserve_eq_ok hrun
      rw [heq]
      exact .reserved hconfig hcharge hinsert
  | beginDispatch id now =>
      obtain ⟨_, hrun, ⟨⟩⟩ := map_eq_ok.mp h
      obtain ⟨config, hconfig, hrun⟩ := bind_eq_ok.mp hrun
      obtain ⟨r, hid, hrun⟩ := bind_eq_ok.mp hrun
      obtain ⟨_, hready, hrun⟩ := bind_eq_ok.mp hrun
      cases pure_eq_ok.mp hrun
      rw [context_eq_ok] at hid
      rw [ensure_eq_ok] at hready
      simp only [Bool.and_eq_true, decide_eq_true_eq] at hready
      obtain ⟨hconfig, hexpires⟩ := dispatchConfig_eq_ok hconfig
      exact .dispatched hid hready.1.1 hready.2 hconfig hexpires
  | finishMeasured id outcome confirmedCalls =>
      obtain ⟨_, hrun, ⟨⟩⟩ := map_eq_ok.mp h
      obtain ⟨r, hid, hrun⟩ := bind_eq_ok.mp hrun
      obtain ⟨_, hmeasured, hrun⟩ := bind_eq_ok.mp hrun
      obtain ⟨_, -, hrun⟩ := bind_eq_ok.mp hrun
      obtain ⟨_, hstate, hrun⟩ := bind_eq_ok.mp hrun
      cases pure_eq_ok.mp hrun
      rw [context_eq_ok] at hid
      rw [ensure_eq_ok] at hmeasured hstate
      refine .finished hid (by simpa using hstate) ?_
      intro m hm
      simpa [hm] using hmeasured

/-! ### What becomes of a root -/

/-- What a successful call does to the root `id`. -/
inductive Change (id : String) : Call → Reservation → Reservation → Prop where
  | same (call : Call) (r : Reservation) : Change id call r r
  /-- A restart, or the cancellation of what is queued. -/
  | stopped {call r} (state : RootState)
      (h : state = .abandoned ∨ state = .unknown ∨ state = .cancelled) :
      Change id call r { r with state }
  | dispatched {now r} : Change id (.beginDispatch id now) r { r with state := .dispatched }
  | finished {outcome confirmedCalls} {r : Reservation}
      (hstate : r.state = .dispatched ∨ r.state = outcome.state)
      (hmeasured : ∀ m, measurement outcome confirmedCalls = some m → m ≤ r.calls) :
      Change id (.finishMeasured id outcome confirmedCalls) r { r with
        state := outcome.state
        confirmedCalls := r.confirmedCalls.or (measurement outcome confirmedCalls) }

/-- A call that changes the row of one key. -/
theorem modify_row {owner : Owner} {call : Call} {id j : String} {r₀ r : Reservation}
    {f : Reservation → Reservation} (hid : owner.roots.get? id = some r₀)
    (hj : owner.roots.get? j = some r) (h : Change id call r₀ (f r₀)) :
    ∃ r', (owner.roots.modify id f).get? j = some r' ∧ Change j call r r' := by
  rw [Table.get?_modify, hj]
  split
  case isTrue e =>
    subst e
    cases hid.symm.trans hj
    exact ⟨_, rfl, h⟩
  case isFalse e => exact ⟨_, rfl, .same _ _⟩

theorem cancel_row {saved : Saved} {owner : Owner} {call : Call} {j : String} {r : Reservation}
    (hj : owner.roots.get? j = some r) :
    ∃ r', (save saved true owner).roots.get? j = some r' ∧ Change j call r r' := by
  rw [save, if_pos rfl, Table.get?_update, hj]
  refine ⟨_, rfl, ?_⟩
  dsimp only
  split
  · exact .stopped _ (by simp)
  · exact .same _ _

theorem Effect.row {call : Call} {owner owner' : Owner} (h : Effect owner call owner') {j : String}
    {r : Reservation} (hj : owner.roots.get? j = some r) :
    ∃ r', owner'.roots.get? j = some r' ∧ Change j call r r' := by
  cases h with
  | opened =>
      refine ⟨_, (Table.get?_update _ _ _).trans (congrArg _ hj), ?_⟩
      dsimp only
      split
      · exact .stopped _ (by simp)
      · split
        · exact .stopped _ (by simp)
        · exact .same _ _
  | approved saved | paused saved | disabled saved => exact cancel_row hj
  | resumed saved => exact ⟨r, hj, .same _ _⟩
  | @reserved id _ _ _ _ _ _ _ hinsert =>
      have hne : j ≠ id := by
        rintro rfl
        rw [(Table.insert?_eq_some.mp hinsert).1] at hj
        cases hj
      exact ⟨r, by rw [Table.get?_insert? hinsert, if_neg hne, hj], .same _ _⟩
  | dispatched hid => exact modify_row hid hj .dispatched
  | finished hid hstate hmeasured => exact modify_row hid hj (.finished hstate hmeasured)

/-- A root that is there after a call and was not before was reserved by it. -/
theorem Effect.fresh {call : Call} {owner owner' : Owner} (h : Effect owner call owner')
    {j : String} (hj : owner.roots.get? j = none) (hj' : owner'.roots.get? j ≠ none) :
    ∃ calls now, call = .reserve j calls now := by
  cases h with
  | opened => simp [Lifecycle.open, Table.get?_update, hj] at hj'
  | approved saved | paused saved | disabled saved =>
      simp [save, Table.get?_update, hj] at hj'
  | resumed saved => exact absurd hj hj'
  | @reserved id _ _ _ _ _ _ _ hinsert =>
      rw [Table.get?_insert? hinsert] at hj'
      split at hj'
      case isTrue e =>
        subst e
        exact ⟨_, _, rfl⟩
      case isFalse e => exact absurd hj hj'
  | dispatched => simp [Table.get?_modify, hj] at hj'
  | finished => simp [Table.get?_modify, hj] at hj'

section Change

variable {id : String} {call : Call} {r r' : Reservation} (h : Change id call r r')
include h

/-- A root is never reserved again; until it moves on it stays as it is. -/
theorem Change.reserved (hs : r'.state = .reserved) : r' = r := by
  cases h with
  | same => rfl
  | stopped state h => rcases h with rfl | rfl | rfl <;> cases hs
  | dispatched => cases hs
  | @finished outcome => cases outcome <;> cases hs

/-- A root that is under way or completed was so before, or is dispatched by the call. -/
theorem Change.underWay (hs : r'.state = .dispatched ∨ r'.state = .completed) :
    (r.state = .dispatched ∨ r.state = .completed) ∨ ∃ now, call = .beginDispatch id now := by
  cases h with
  | same => exact .inl hs
  | stopped state h =>
      rcases h with rfl | rfl | rfl <;> rcases hs with hs | hs <;> cases hs
  | dispatched => exact .inr ⟨_, rfl⟩
  | @finished outcome _ _ hstate =>
      refine .inl (hstate.imp_right fun e => e.trans ?_)
      cases outcome with
      | completed => rfl
      | failed | unknown => rcases hs with hs | hs <;> cases hs

theorem Change.confirmed (hc : r.confirmedCalls.isSome) : r'.confirmedCalls = r.confirmedCalls := by
  cases h with
  | same | stopped | dispatched => rfl
  | finished => exact Option.or_of_isSome hc

theorem Change.calls : r'.calls = r.calls := by
  cases h <;> rfl

/-- A charge that changes: its root completes with fewer calls than it reserved. -/
theorem Change.recharged (hne : r'.charge ≠ r.charge) :
    (∃ m, call = .finishMeasured id .completed (some m)) ∧ r'.charge < r.charge ∧
      (r.state = .dispatched ∨ r.state = .completed) ∧ r'.confirmedCalls.isSome := by
  cases h with
  | same | stopped | dispatched => exact absurd rfl hne
  | @finished outcome confirmedCalls _ hstate hmeasured =>
      have hnone : r.confirmedCalls = none := by
        by_contra hc
        rw [← Ne, Option.ne_none_iff_isSome] at hc
        simp [Reservation.charge, Option.or_of_isSome hc] at hne
      obtain ⟨m, hm⟩ : ∃ m, measurement outcome confirmedCalls = some m := by
        cases hm : measurement outcome confirmedCalls with
        | none => simp [Reservation.charge, hm] at hne
        | some m => exact ⟨m, rfl⟩
      have hle := hmeasured m hm
      simp only [Reservation.charge, hm, hnone, Option.none_or, Option.getD_some,
        Option.getD_none] at hne ⊢
      unfold measurement at hm
      split at hm
      case isTrue ho =>
        subst ho hm
        exact ⟨⟨m, rfl⟩, by omega, hstate, rfl⟩
      case isFalse ho => cases hm

end Change

/-! ### Runs -/

/-- A call that was made. -/
abbrev Made := Entry Owner Call (Except String (Option Reservation))

/-- The owner after a call. -/
def after (e : Made) : Owner := (e.call.perform e.before).2

def Reserves (e : Made) (id : String) : Prop :=
  succeeds e.result = true ∧ ∃ calls now, e.call = .reserve id calls now

def Dispatches (e : Made) (id : String) : Prop :=
  succeeds e.result = true ∧ ∃ now, e.call = .beginDispatch id now

/-- The charge of a root changes. -/
def Recharges (e : Made) (id : String) : Prop :=
  ∃ r r', e.before.roots.get? id = some r ∧ (after e).roots.get? id = some r' ∧
    r'.charge ≠ r.charge

/-- A restart, a new approval, a pause or the end of background work. -/
def Call.interrupts : Call → Bool
  | «open» | approve .. | pause _ | disable _ => true
  | _ => false

def Interrupts (e : Made) : Prop := succeeds e.result = true ∧ e.call.interrupts = true

theorem perform_cases (call : Call) (owner : Owner) :
    (succeeds (call.perform owner).1 = true ∧ Effect owner call (call.perform owner).2) ∨
      (succeeds (call.perform owner).1 = false ∧ (call.perform owner).2 = owner) := by
  rcases atomically_eq call.run owner with ⟨reply, owner', hrun, heq⟩ | ⟨e, -, heq⟩
  · rw [Call.perform, heq]
    exact .inl ⟨rfl, effect_of_run hrun⟩
  · rw [Call.perform, heq]
    exact .inr ⟨rfl, rfl⟩

theorem effect_of_succeeds {call : Call} {owner : Owner}
    (h : succeeds (call.perform owner).1 = true) : Effect owner call (call.perform owner).2 := by
  rcases perform_cases call owner with ⟨-, he⟩ | ⟨hf, -⟩
  · exact he
  · rw [h] at hf
    cases hf

theorem row_perform (call : Call) {owner : Owner} {id : String} {r : Reservation}
    (hid : owner.roots.get? id = some r) :
    ∃ r', (call.perform owner).2.roots.get? id = some r' ∧ Change id call r r' := by
  rcases perform_cases call owner with ⟨-, he⟩ | ⟨-, heq⟩
  · exact he.row hid
  · exact ⟨r, by rw [heq, hid], .same _ _⟩

variable {entries : List Made} {start owner : Owner}

/-- What every change of a root keeps, a run keeps. -/
theorem row_kept (h : History Call.perform NoDrift start entries owner) {id : String}
    (P : Reservation → Prop) (hstep : ∀ call r r', Change id call r r' → P r → P r')
    (hstart : ∃ r, start.roots.get? id = some r ∧ P r) :
    ∃ r, owner.roots.get? id = some r ∧ P r := by
  refine h.invariant (fun u => ∃ r, u.roots.get? id = some r ∧ P r) hstart ?_ (NoDrift.keeps _)
  rintro c u ⟨r, hid, hr⟩
  obtain ⟨r', hid', hc⟩ := row_perform c hid
  exact ⟨r', hid', hstep c r r' hc hr⟩

theorem Effect.reserves {id : String} {calls : Nat} {now : Int} {owner owner' : Owner}
    (h : Effect owner (.reserve id calls now) owner') :
    owner.roots.get? id = none ∧ ∃ config r, (loadSaved owner).config = some config ∧
      (loadSaved owner').config = some config ∧ owner'.roots.get? id = some r ∧
      r.state = .reserved ∧
      r.deadline = min (now + asInt config.jobTimeoutSecs) config.expiresAt ∧
      owner'.charged ≤ config.maxCalls := by
  cases h with
  | reserved hconfig hcharge hinsert =>
      have hget := Table.get?_insert? hinsert id
      rw [if_pos rfl] at hget
      refine ⟨(Table.insert?_eq_some.mp hinsert).1, _, _, hconfig, hconfig, hget, rfl, rfl, ?_⟩
      exact Nat.le_trans (Nat.le_of_eq (Table.sum_insert? hinsert _)) hcharge

theorem Effect.dispatches {id : String} {now : Int} {owner owner' : Owner}
    (h : Effect owner (.beginDispatch id now) owner') :
    ∃ r config, owner.roots.get? id = some r ∧ r.state = .reserved ∧ now < r.deadline ∧
      (loadSaved owner).config = some config ∧ now < config.expiresAt ∧
      owner'.roots.get? id = some { r with state := .dispatched } := by
  cases h with
  | dispatched hid hstate hdeadline hconfig hexpires =>
      refine ⟨_, _, hid, hstate, hdeadline, hconfig, hexpires, ?_⟩
      rw [Table.get?_modify, if_pos rfl, hid, Option.map_some]

/-- Nothing happens to a root twice. -/
theorem once (h : History Call.perform NoDrift start entries owner) :
    entries.Pairwise fun a b => ∀ id, (Reserves a id → ¬ Reserves b id) ∧
      (Dispatches a id → ¬ Dispatches b id) ∧ (Recharges a id → ¬ Recharges b id) := by
  refine pairwise_of_split fun pre b post hsplit a ha id => ?_
  subst hsplit
  obtain ⟨har, hbr, mid, hmid⟩ := h.between ha
  refine ⟨?_, ?_, ?_⟩
  · rintro ⟨hoka, calls, now, hcalla⟩ ⟨hokb, calls', now', hcallb⟩
    rw [har] at hoka
    rw [hbr] at hokb
    have hea := effect_of_succeeds hoka
    have heb := effect_of_succeeds hokb
    rw [hcalla] at hea
    rw [hcallb] at heb
    obtain ⟨-, config, r, -, -, hr, -⟩ := hea.reserves
    obtain ⟨r', hr', -⟩ := row_kept hmid (fun _ => True) (fun _ _ _ _ _ => trivial)
      ⟨r, hcalla ▸ hr, trivial⟩
    rw [heb.reserves.1] at hr'
    cases hr'
  · rintro ⟨hoka, now, hcalla⟩ ⟨hokb, now', hcallb⟩
    rw [har] at hoka
    rw [hbr] at hokb
    have hea := effect_of_succeeds hoka
    have heb := effect_of_succeeds hokb
    rw [hcalla] at hea
    rw [hcallb] at heb
    obtain ⟨r, -, -, -, -, -, -, hr⟩ := hea.dispatches
    obtain ⟨r', hr', hne⟩ := row_kept hmid (fun r => r.state ≠ .reserved)
      (fun _ r r' hc hs hs' => hs (hc.reserved hs' ▸ hs')) ⟨_, hcalla ▸ hr, by simp⟩
    obtain ⟨r'', -, hr'', hs, -⟩ := heb.dispatches
    cases hr'.symm.trans hr''
    exact hne hs
  · rintro ⟨r, r', hr, hr', hne⟩ ⟨q, q', hq, hq', hne'⟩
    obtain ⟨r'', hr'', hchange⟩ := row_perform a.call hr
    cases hr'.symm.trans hr''
    obtain ⟨p, hp, hconfirmed⟩ := row_kept hmid (fun r => r.confirmedCalls.isSome)
      (fun _ r r' hc hs => hc.confirmed hs ▸ hs) ⟨_, hr', (hchange.recharged hne).2.2.2⟩
    cases hp.symm.trans hq
    obtain ⟨q'', hq'', hchange'⟩ := row_perform b.call hq
    cases hq'.symm.trans hq''
    have hsome := hchange'.confirmed hconfirmed
    have hcalls := hchange'.calls
    exact hne' (by rw [Reservation.charge, Reservation.charge, hsome, hcalls])

/-! ### What a dispatch goes back to -/

theorem Effect.keeps_config {call : Call} {owner owner' : Owner} (h : Effect owner call owner')
    (hcall : call.interrupts = false) : (loadSaved owner').config = (loadSaved owner).config := by
  cases h with
  | opened | approved | paused | disabled => cases hcall
  | resumed saved hconfig => exact hconfig
  | reserved | dispatched | finished => rfl

theorem save_not_reserved {saved : Saved} {owner : Owner} {j : String} {r : Reservation}
    (hj : (save saved true owner).roots.get? j = some r) : r.state ≠ .reserved := by
  rw [save, if_pos rfl, Table.get?_update] at hj
  obtain ⟨r₀, -, rfl⟩ := Option.map_eq_some_iff.mp hj
  split
  · nofun
  · assumption

/-- An interruption leaves nothing queued. -/
theorem Effect.interrupted {call : Call} {owner owner' : Owner} (h : Effect owner call owner')
    (hcall : call.interrupts = true) {j : String} {r : Reservation}
    (hj : owner'.roots.get? j = some r) : r.state ≠ .reserved := by
  cases h with
  | opened =>
      rw [Lifecycle.open, Table.get?_update] at hj
      obtain ⟨r₀, -, rfl⟩ := Option.map_eq_some_iff.mp hj
      split
      · nofun
      · split
        · nofun
        · assumption
  | approved saved | paused saved | disabled saved => exact save_not_reserved hj
  | resumed | reserved | dispatched | finished => cases hcall

/-- A queued root was reserved under the approval in force, and nothing interrupted it since. -/
def Queued (es : List Made) (owner : Owner) (id : String) (r : Reservation) : Prop :=
  ∃ (first : List Made) (e : Made) (mid : List Made) (calls : Nat) (now : Int)
    (config : BackgroundConfig), es = first ++ e :: mid ∧ Support.succeeds e.result = true ∧
    e.call = .reserve id calls now ∧ (∀ m ∈ mid, ¬ Interrupts m) ∧
    (loadSaved e.before).config = some config ∧ (loadSaved owner).config = some config ∧
    r.deadline = min (now + asInt config.jobTimeoutSecs) config.expiresAt

/-- A root under way or completed was dispatched. -/
structure Traced (es : List Made) (owner : Owner) : Prop where
  reserved : ∀ id, owner.roots.get? id ≠ none ↔ ∃ e ∈ es, Reserves e id
  queued : ∀ id r, owner.roots.get? id = some r → r.state = .reserved → Queued es owner id r
  underWay : ∀ id r, owner.roots.get? id = some r → r.state = .dispatched ∨ r.state = .completed →
    ∃ e ∈ es, Dispatches e id

theorem Queued.push {es : List Made} {id : String} {r : Reservation} (h : Queued es owner id r)
    (e : Made) (hi : ¬ Interrupts e) {owner' : Owner}
    (hconfig : (loadSaved owner').config = (loadSaved owner).config) :
    Queued (es ++ [e]) owner' id r := by
  obtain ⟨first, made, mid, calls, now, config, rfl, hok, hcall, hmid, hbefore, hin, hd⟩ := h
  refine ⟨first, made, mid ++ [e], calls, now, config, by simp, hok, hcall, ?_, hbefore,
    hconfig.trans hin, hd⟩
  intro m hm
  rcases List.mem_append.mp hm with hm | hm
  · exact hmid m hm
  · rw [List.mem_singleton.mp hm]
    exact hi

theorem reserved_perform (c : Call) (u : Owner) (id : String) :
    (c.perform u).2.roots.get? id ≠ none ↔ u.roots.get? id ≠ none ∨
      Reserves ⟨u, c, (c.perform u).1⟩ id := by
  constructor
  · intro hid
    by_cases hu : u.roots.get? id = none
    · rcases perform_cases c u with ⟨hok, he⟩ | ⟨-, heq⟩
      · exact .inr ⟨hok, he.fresh hu hid⟩
      · rw [heq] at hid
        exact absurd hu hid
    · exact .inl hu
  · rintro (hu | ⟨hok, calls, now, hcall⟩)
    · obtain ⟨r, hr⟩ := Option.ne_none_iff_exists'.mp hu
      obtain ⟨r', hr', -⟩ := row_perform c hr
      simp [hr']
    · have he := effect_of_succeeds hok
      dsimp only at hcall
      subst hcall
      obtain ⟨-, config, r, -, -, hr, -⟩ := he.reserves
      simp [hr]

/-- A root after a call: it was reserved by it, or it was there and the call changed it. -/
theorem row_before {c : Call} {u : Owner} {id : String} {r : Reservation}
    (hid : (c.perform u).2.roots.get? id = some r) :
    Reserves ⟨u, c, (c.perform u).1⟩ id ∨ ∃ r₀, u.roots.get? id = some r₀ ∧ Change id c r₀ r := by
  rcases (reserved_perform c u id).mp (by simp [hid]) with hu | hres
  · obtain ⟨r₀, hr₀⟩ := Option.ne_none_iff_exists'.mp hu
    obtain ⟨r', hr', hchange⟩ := row_perform c hr₀
    cases hid.symm.trans hr'
    exact .inr ⟨r₀, hr₀, hchange⟩
  · exact .inl hres

theorem traced (h : History Call.perform NoDrift {} entries owner) : Traced entries owner := by
  refine h.invariant_entries Traced ⟨by simp, by simp, by simp⟩ ?_ (fun _ _ _ _ hd => hd.elim)
  intro es u c _ ih
  refine ⟨?_, ?_, ?_⟩
  · intro id
    rw [reserved_perform, ih.reserved]
    simp [or_and_right, exists_or]
  · intro id r hid hs
    rcases row_before hid with ⟨hok, calls, now, hcall⟩ | ⟨r₀, hr₀, hchange⟩
    · have he := effect_of_succeeds hok
      dsimp only at hcall
      subst hcall
      obtain ⟨-, config, r', hconfig, hconfig', hr', -, hdeadline, -⟩ := he.reserves
      cases hid.symm.trans hr'
      exact ⟨es, _, [], calls, now, config, rfl, hok, rfl, by simp, hconfig, hconfig',
        hdeadline⟩
    · cases hchange.reserved hs
      have hqueued := ih.queued id r hr₀ hs
      rcases perform_cases c u with ⟨-, he⟩ | ⟨hfail, heq⟩
      · have hi : c.interrupts = false := by
          cases hi : c.interrupts with
          | true => exact absurd hs (he.interrupted hi hid)
          | false => rfl
        exact hqueued.push _ (fun hint => by simp [Interrupts, hi] at hint) (he.keeps_config hi)
      · refine hqueued.push _ (fun hint => ?_) (by rw [heq])
        rw [Interrupts, hfail] at hint
        cases hint.1
  · intro id r hid hs
    rcases row_before hid with ⟨hok, calls, now, hcall⟩ | ⟨r₀, hr₀, hchange⟩
    · have he := effect_of_succeeds hok
      dsimp only at hcall
      subst hcall
      obtain ⟨-, config, r', -, -, hr', hstate, -⟩ := he.reserves
      cases hid.symm.trans hr'
      rw [hstate] at hs
      rcases hs with hs | hs <;> cases hs
    · rcases perform_cases c u with ⟨hok, -⟩ | ⟨-, heq⟩
      · rcases hchange.underWay hs with hs₀ | hcall
        · obtain ⟨e, he, hd⟩ := ih.underWay id r₀ hr₀ hs₀
          exact ⟨e, List.mem_append_left _ he, hd⟩
        · exact ⟨_, List.mem_append_right _ List.mem_cons_self, hok, hcall⟩
      · rw [heq] at hid
        obtain ⟨e, he, hd⟩ := ih.underWay id r hid hs
        exact ⟨e, List.mem_append_left _ he, hd⟩

/-- A dispatch, traced back to its reservation: nothing interrupted the root since, and it is before
its deadline and before the expiry of the approval, which is still in force. -/
def DispatchTraced (pre : List Made) (d : Made) : Prop :=
  ∀ id now, succeeds d.result = true → d.call = .beginDispatch id now →
    ∃ (first : List Made) (e : Made) (mid : List Made) (calls : Nat) (start : Int)
      (config : BackgroundConfig), pre = first ++ e :: mid ∧ succeeds e.result = true ∧
      e.call = .reserve id calls start ∧ (∀ m ∈ mid, ¬ Interrupts m) ∧
      (loadSaved e.before).config = some config ∧ (loadSaved d.before).config = some config ∧
      now < start + asInt config.jobTimeoutSecs ∧ now < config.expiresAt

/-- A charge that changes is lowered, when a root that was dispatched completes. -/
def RechargeTraced (pre : List Made) (e : Made) : Prop :=
  ∀ id r r', e.before.roots.get? id = some r → (after e).roots.get? id = some r' →
    r'.charge ≠ r.charge → r'.charge < r.charge ∧ succeeds e.result = true ∧
      (∃ m, e.call = .finishMeasured id .completed (some m)) ∧ ∃ d ∈ pre, Dispatches d id

theorem dispatch_traced {pre post : List Made} {d : Made}
    (h : History Call.perform NoDrift {} (pre ++ d :: post) owner) : DispatchTraced pre d := by
  intro id now hok hcall
  obtain ⟨hpre, hres, -⟩ := h.split
  rw [hres] at hok
  have he := effect_of_succeeds hok
  rw [hcall] at he
  obtain ⟨r, config, hid, hstate, hdeadline, hconfig, -, -⟩ := he.dispatches
  obtain ⟨first, e, mid, calls, start, config', hsplit, hoke, hcalle, hmid, hbefore, hin, hd⟩ :=
    (traced hpre).queued id r hid hstate
  rw [hd] at hdeadline
  exact ⟨first, e, mid, calls, start, config', hsplit, hoke, hcalle, hmid, hbefore, hin,
    lt_of_lt_of_le hdeadline (min_le_left _ _), lt_of_lt_of_le hdeadline (min_le_right _ _)⟩

theorem recharge_traced {pre post : List Made} {e : Made}
    (h : History Call.perform NoDrift {} (pre ++ e :: post) owner) : RechargeTraced pre e := by
  intro id r r' hr hr' hne
  obtain ⟨hpre, hres, -⟩ := h.split
  obtain ⟨r'', hr'', hchange⟩ := row_perform e.call hr
  cases hr'.symm.trans hr''
  obtain ⟨hcall, hlt, hstate, -⟩ := hchange.recharged hne
  refine ⟨hlt, ?_, hcall, (traced hpre).underWay id r hr hstate⟩
  rcases perform_cases e.call e.before with ⟨hok, -⟩ | ⟨-, heq⟩
  · exact hres ▸ hok
  · rw [after, heq] at hr'
    cases hr.symm.trans hr'
    exact absurd rfl hne

/-- **The background allowance.**  In every run from a new database, restarts included: the table
holds exactly the roots ever reserved; none is reserved, dispatched or recharged twice; every
dispatch and every change of a charge is traced back; and after a reservation all charges together
are within the approval in force. -/
theorem allowance_kept (h : History Call.perform NoDrift {} entries owner) :
    (∀ id, owner.roots.get? id ≠ none ↔ ∃ e ∈ entries, Reserves e id) ∧
      (entries.Pairwise fun a b => ∀ id, (Reserves a id → ¬ Reserves b id) ∧
        (Dispatches a id → ¬ Dispatches b id) ∧ (Recharges a id → ¬ Recharges b id)) ∧
      (∀ pre e post, entries = pre ++ e :: post → DispatchTraced pre e ∧ RechargeTraced pre e) ∧
      ∀ e ∈ entries, ∀ id, Reserves e id → ∃ config, (loadSaved (after e)).config = some config ∧
        (after e).charged ≤ config.maxCalls := by
  refine ⟨(traced h).reserved, once h, ?_, ?_⟩
  · rintro pre e post rfl
    exact ⟨dispatch_traced h, recharge_traced h⟩
  · rintro e he id ⟨hok, calls, now, hcall⟩
    rw [h.performed e he] at hok
    have heffect := effect_of_succeeds hok
    rw [hcall] at heffect
    obtain ⟨-, config, -, -, hconfig, -, -, -, hcharged⟩ := heffect.reserves
    rw [after, hcall]
    exact ⟨config, hconfig, hcharged⟩

/-- A root that is approved, reserved, dispatched and completed with one of its two calls. -/
def measuredCalls : List Call :=
  let config : BackgroundConfig := ⟨{ project := some "alpha" }, "/codex", 3, 1000, 60⟩
  [.approve .human config config.scope "/codex" 3 1, .reserve "root" 2 2, .beginDispatch "root" 3,
    .finishMeasured "root" .completed (some 1)]

theorem allowance_kept_measured :
    ∃ entries owner, History Call.perform NoDrift {} entries owner ∧ owner.charged = 1 ∧
      ∃ e ∈ entries, Reserves e "root" := by
  have h : History Call.perform NoDrift {} (replay Call.perform {} measuredCalls).1
      (replay Call.perform {} measuredCalls).2 := History.replay _ _
  refine ⟨_, _, h, by decide +kernel, ((allowance_kept h).1 "root").mp ?_⟩
  exact Option.isSome_iff_ne_none.mp (by decide +kernel)

end Pikamux.Lifecycle
