import Pikamux.Support.History
import Pikamux.Assistant.Policy

/-!
# Assistant — Budget

What the calls of `assistant_policy.rs` keep over every run.

* `effect_of_run` — everything a successful call found and did.
* `Sound` — the invariant: the tree of reservations has two levels, the unreleased children of a
  root stay within it, only roots without children are dispatched, and receipts match states.
* `budget_kept` — the budget holds in every state of a run, as long as no child is reserved whose
  calls saturate the sum of its root's children.
-/

namespace Pikamux.Policy

open Support

/-! ### What a call does -/

/-- What the budget asks of a dispatch. -/
structure Admitted (ledger : Ledger) (r : Reservation) (now : Int) : Prop where
  deadline : now < r.deadlineAt
  parent : ∀ p q, r.parentId = some p → ledger.reservation p = some q →
    q.state = .reserved ∧ now < q.deadlineAt
  positive : 0 < ledger.config.maxTotalCalls
  total : ledger.callsOf (·.isRoot) ≤ ledger.config.maxTotalCalls
  background : r.background = true → 0 < ledger.config.backgroundCalls ∧
    ledger.callsOf (·.isBackgroundRoot) ≤ ledger.config.backgroundCalls

/-- Everything a successful call found in `ledger`, and the ledger after it. -/
inductive Effect (ledger : Ledger) : Call → Ledger → Prop where
  | configured (config : PolicyConfig) : Effect ledger (.configure config) { ledger with config }
  | rootReserved {cfg id calls background now deadline native d reservations}
      (hinsert : ledger.reservations.insert? id
        ⟨id, none, calls, d, background, .reserved, now, none, none, none⟩ = some reservations) :
      Effect ledger (.reserveRoot cfg id calls background now deadline native)
        { ledger with reservations }
  | childReserved {cfg stale id parentId calls now deadline native d background reservations}
      {parent : Reservation} (hparent : ledger.reservation parentId = some parent)
      (hroot : parent.parentId = none) (hstate : parent.state = .reserved)
      (hbudget : saturatingAdd (ledger.callsOf (unreleasedChild parent.rootId)) calls ≤
        parent.calls)
      (hinsert : ledger.reservations.insert? id ⟨parent.rootId, some parentId, calls, d, background,
        .reserved, now, none, none, none⟩ = some reservations) :
      Effect ledger (.reserveChild cfg stale id parentId calls now deadline native)
        { ledger with reservations }
  | extended {cfg id additional now} {root : Reservation}
      (hid : ledger.reservation id = some root) (hroot : root.parentId = none)
      (hstate : root.state = .reserved) :
      Effect ledger (.extendRoot cfg id additional now) { ledger with
        reservations :=
          ledger.reservations.modify id fun r => { r with calls := r.calls + additional } }
  | dispatched {id now} {r : Reservation} (hid : ledger.reservation id = some r)
      (hstate : r.state = .reserved) (hchild : hasChild ledger id = false)
      (hadmitted : Admitted ledger r now) :
      Effect ledger (.markDispatched id now) { ledger with
        reservations := ledger.reservations.modify id fun r => r.moved .dispatched now none }
  | finalised {id outcome now receipts} {r : Reservation} (hid : ledger.reservation id = some r)
      (hstate : r.state = .reserved ∨ r.state = .dispatched)
      (hreceipt : ledger.receipts.insert? id ⟨outcome, now⟩ = some receipts) :
      Effect ledger (.recordOutcome id outcome now) { ledger with
        reservations := ledger.reservations.modify id fun r =>
          r.moved outcome.state now (some outcome)
        receipts := receipts }
  | released {id now} {r : Reservation} (hid : ledger.reservation id = some r)
      (hstate : r.state = .reserved)
      (hchild : ∀ j c, ledger.reservation j = some c → c.parentId = some id → c.state = .released) :
      Effect ledger (.releaseBeforeDispatch id now) { ledger with
        reservations := ledger.reservations.modify id fun r => r.moved .released now none }

theorem hasChild_iff {ledger : Ledger} {id : String} :
    hasChild ledger id = true ↔ ∃ j c, ledger.reservation j = some c ∧ c.parentId = some id := by
  simp [hasChild, Table.any_iff, Ledger.reservation]

theorem sumCalls_eq_ok {ledger : Ledger} {p : Reservation → Bool} {n : Nat}
    (h : sumCalls ledger p = .ok n) : n = ledger.callsOf p := by
  unfold sumCalls at h
  split at h
  · exact (Except.ok.inj h).symm
  · cases h

/-- What the insertion at the end of every reservation does. -/
theorem reserve_eq_ok {cfg : PolicyConfig} {id : String} {parentId : Option String}
    {rootId : String} {calls : Nat} {background : Bool} {now : Int} {deadline : Option Int}
    {native : Except PolicyError Nat} {ledger ledger' : Ledger}
    (h : reserve cfg id parentId rootId calls background now deadline native ledger =
      .ok ((), ledger')) :
    ∃ d reservations, validateChildBudget ledger parentId rootId calls now d = .ok () ∧
      ledger.reservations.insert? id ⟨rootId, parentId, calls, d, background, .reserved, now, none,
        none, none⟩ = some reservations ∧ ledger' = { ledger with reservations } := by
  obtain ⟨-, -, h⟩ := bind_eq_ok.mp h
  obtain ⟨d, -, h⟩ := bind_eq_ok.mp h
  obtain ⟨-, -, h⟩ := bind_eq_ok.mp h
  obtain ⟨_, hchild, h⟩ := bind_eq_ok.mp h
  obtain ⟨-, -, h⟩ := bind_eq_ok.mp h
  obtain ⟨-, -, h⟩ := bind_eq_ok.mp h
  obtain ⟨reservations, hinsert, h⟩ := bind_eq_ok.mp h
  rw [context_eq_ok] at hinsert
  exact ⟨d, reservations, hchild, hinsert, (congrArg Prod.snd (pure_eq_ok.mp h)).symm⟩

theorem validateChildBudget_eq_ok {ledger : Ledger} {parentId rootId : String} {calls : Nat}
    {now deadline : Int}
    (h : validateChildBudget ledger (some parentId) rootId calls now deadline = .ok ()) :
    ∃ parent, ledger.reservation parentId = some parent ∧ parent.parentId = none ∧
      parent.rootId = rootId ∧ parent.state = .reserved ∧
      saturatingAdd (ledger.callsOf (unreleasedChild rootId)) calls ≤ parent.calls := by
  obtain ⟨parent, hparent, h⟩ := bind_eq_ok.mp h
  rw [context_eq_ok, Option.filter_eq_some_iff] at hparent
  obtain ⟨_, hactive, h⟩ := bind_eq_ok.mp h
  obtain ⟨children, hsum, h⟩ := bind_eq_ok.mp h
  rw [ensure_eq_ok] at hactive h
  rw [sumCalls_eq_ok hsum] at h
  simp only [Bool.and_eq_true, decide_eq_true_eq] at hactive h
  exact ⟨parent, hparent.1, by simpa using hparent.2, hactive.1.1.1, hactive.1.1.2, h⟩

theorem validateDispatchBudget_eq_ok {ledger : Ledger} {r : Reservation} {now : Int}
    (h : validateDispatchBudget ledger r now = .ok ()) (hnow : now < r.deadlineAt) :
    Admitted ledger r now := by
  obtain ⟨_, hparent, h⟩ := bind_eq_ok.mp h
  obtain ⟨total, hsum, h⟩ := bind_eq_ok.mp h
  obtain ⟨_, htotal, h⟩ := bind_eq_ok.mp h
  rw [ensure_eq_ok] at hparent htotal
  rw [sumCalls_eq_ok hsum] at htotal
  simp only [Bool.and_eq_true, decide_eq_true_eq] at htotal
  refine ⟨hnow, ?_, Nat.pos_of_ne_zero htotal.1, htotal.2, ?_⟩
  · intro p q hp hq
    simpa [parentActive, hp, hq] using hparent
  · intro hb
    rw [validateDispatchedBackgroundBudget, if_pos hb] at h
    obtain ⟨charged, hsum, h⟩ := bind_eq_ok.mp h
    rw [ensure_eq_ok, sumCalls_eq_ok hsum] at h
    simpa using h

/-- What a transition found and did. -/
theorem transition_eq_ok {id : String} {state : ReservationState} {now : Int}
    {outcome : Option DeliveryOutcome} {receipt : Bool} {ledger ledger' : Ledger}
    (h : transition id state now outcome receipt ledger = .ok ((), ledger')) :
    ∃ old, ledger.reservation id = some old ∧
      validateDelegatedRootTransition ledger id state = .ok () ∧
      (state = .dispatched → validateDispatchBudget ledger old now = .ok ()) ∧
      validateTransitionState state now receipt old.state old.deadlineAt = .ok () ∧
      applyTransition ledger id state now outcome = .ok ledger' := by
  obtain ⟨old, hold, h⟩ := bind_eq_ok.mp h
  rw [context_eq_ok] at hold
  obtain ⟨_, hroot, h⟩ := bind_eq_ok.mp h
  refine ⟨old, hold, hroot, ?_⟩
  dsimp only at h
  split at h
  case isTrue hs =>
    obtain ⟨_, hbudget, h⟩ := bind_eq_ok.mp h
    obtain ⟨_, hstate, h⟩ := bind_eq_ok.mp h
    obtain ⟨ledger'', happly, h⟩ := bind_eq_ok.mp h
    cases pure_eq_ok.mp h
    exact ⟨fun _ => hbudget, hstate, happly⟩
  case isFalse hs =>
    obtain ⟨_, hstate, h⟩ := bind_eq_ok.mp h
    obtain ⟨ledger'', happly, h⟩ := bind_eq_ok.mp h
    cases pure_eq_ok.mp h
    exact ⟨fun hs' => absurd hs' hs, hstate, happly⟩

theorem validateTransitionState_eq_ok {state old : ReservationState} {now deadline : Int}
    {receipt : Bool} (h : validateTransitionState state now receipt old deadline = .ok ()) :
    (state = .released → old = .reserved) ∧ (state = .dispatched → old = .reserved) ∧
      (state = .dispatched → now < deadline) ∧
      (receipt = true → old = .reserved ∨ old = .dispatched) := by
  obtain ⟨_, h₁, h⟩ := bind_eq_ok.mp h
  obtain ⟨_, h₂, h⟩ := bind_eq_ok.mp h
  obtain ⟨_, h₃, h⟩ := bind_eq_ok.mp h
  rw [ensure_eq_ok] at h₁ h₂ h₃ h
  simp only [Bool.or_eq_true, Bool.not_eq_true', decide_eq_true_eq, ne_eq, List.mem_cons,
    List.not_mem_nil, or_false] at h₁ h₂ h₃ h
  refine ⟨?_, ?_, ?_, ?_⟩
  · intro hs
    exact h₁.resolve_left fun hne => hne hs
  · intro hs
    exact h₂.resolve_left fun hne => hne hs
  · intro hs
    exact h₃.resolve_left fun hne => hne hs
  · intro hr
    exact h.resolve_left (by simp [hr])

theorem validateDelegatedRootTransition_eq_ok {ledger : Ledger} {id : String}
    {state : ReservationState} (h : validateDelegatedRootTransition ledger id state = .ok ()) :
    (state = .dispatched → hasChild ledger id = false) ∧
      (state = .released → ∀ j c, ledger.reservation j = some c → c.parentId = some id →
        c.state = .released) := by
  rw [validateDelegatedRootTransition, ensure_eq_ok] at h
  constructor
  · rintro rfl
    simpa using h
  · rintro rfl j c hj hc
    have hchild : hasChild ledger id = true := hasChild_iff.mpr ⟨j, c, hj, hc⟩
    by_contra hne
    have hany : (ledger.reservations.any fun _ r => r.parentId = some id && r.state ≠ .released)
        = true := Table.any_iff.mpr ⟨j, c, hj, by simp [hc, hne]⟩
    rw [hchild, hany] at h
    cases h

theorem effect_of_run {call : Call} {ledger ledger' : Ledger}
    (h : call.run ledger = .ok ((), ledger')) : Effect ledger call ledger' := by
  cases call with
  | configure config =>
      obtain ⟨_, -, h⟩ := bind_eq_ok.mp h
      obtain ⟨_, -, h⟩ := bind_eq_ok.mp h
      cases pure_eq_ok.mp h
      exact .configured config
  | reserveRoot cfg id calls background now deadline native =>
      obtain ⟨d, reservations, -, hinsert, rfl⟩ := reserve_eq_ok h
      exact .rootReserved hinsert
  | reserveChild cfg stale id parentId calls now deadline native =>
      obtain ⟨stale', -, h⟩ := bind_eq_ok.mp h
      obtain ⟨_, -, h⟩ := bind_eq_ok.mp h
      obtain ⟨d, reservations, hchild, hinsert, rfl⟩ := reserve_eq_ok h
      obtain ⟨parent, hparent, hroot, hid, hstate, hbudget⟩ := validateChildBudget_eq_ok hchild
      rw [← hid] at hinsert hbudget
      exact .childReserved hparent hroot hstate hbudget hinsert
  | extendRoot cfg id additional now =>
      obtain ⟨_, -, h⟩ := bind_eq_ok.mp h
      obtain ⟨background, hext, h⟩ := bind_eq_ok.mp h
      obtain ⟨_, -, h⟩ := bind_eq_ok.mp h
      cases pure_eq_ok.mp h
      obtain ⟨root, hroot, hext⟩ := bind_eq_ok.mp hext
      rw [context_eq_ok, Option.filter_eq_some_iff] at hroot
      obtain ⟨_, hactive, -⟩ := bind_eq_ok.mp hext
      rw [ensure_eq_ok] at hactive
      simp only [Bool.and_eq_true, decide_eq_true_eq] at hactive
      exact .extended hroot.1 (by simpa using hroot.2) hactive.1.1.1
  | markDispatched id now =>
      obtain ⟨r, hid, hroot, hbudget, hstate, happly⟩ := transition_eq_ok h
      cases happly
      obtain ⟨-, hreserved, hnow, -⟩ := validateTransitionState_eq_ok hstate
      exact .dispatched hid (hreserved rfl) ((validateDelegatedRootTransition_eq_ok hroot).1 rfl)
        (validateDispatchBudget_eq_ok (hbudget rfl) (hnow rfl))
  | recordOutcome id outcome now =>
      obtain ⟨r, hid, hroot, hbudget, hstate, happly⟩ := transition_eq_ok h
      obtain ⟨receipts, hreceipt, happly⟩ := bind_eq_ok.mp happly
      cases pure_eq_ok.mp happly
      rw [context_eq_ok] at hreceipt
      exact .finalised hid ((validateTransitionState_eq_ok hstate).2.2.2 rfl) hreceipt
  | releaseBeforeDispatch id now =>
      obtain ⟨r, hid, hroot, -, hstate, happly⟩ := transition_eq_ok h
      cases happly
      exact .released hid ((validateTransitionState_eq_ok hstate).1 rfl)
        ((validateDelegatedRootTransition_eq_ok hroot).2 rfl)

/-! ### The invariant -/

/-- The outcome a final state stands for. -/
def ReservationState.outcome? : ReservationState → Option DeliveryOutcome
  | completed => some .completed
  | failed => some .failed
  | unknown => some .unknown
  | _ => none

@[simp] theorem DeliveryOutcome.state_outcome? (o : DeliveryOutcome) : o.state.outcome? = some o := by
  cases o <;> rfl

theorem DeliveryOutcome.state_ne (o : DeliveryOutcome) :
    o.state ≠ .reserved ∧ o.state ≠ .dispatched ∧ o.state ≠ .released := by
  cases o <;> decide

/-- The children of a root whose calls are not given back. -/
def unreleasedUnder (id : String) (r : Reservation) : Bool :=
  r.parentId = some id && r.state ≠ .released

structure Sound (ledger : Ledger) : Prop where
  root : ∀ {id r}, ledger.reservation id = some r → r.parentId = none → r.rootId = id
  /-- A child's parent is a root that was not dispatched; it is released after its children. -/
  child : ∀ {id r p}, ledger.reservation id = some r → r.parentId = some p → r.rootId = p ∧
    ∃ q, ledger.reservation p = some q ∧ q.parentId = none ∧ q.dispatchedAt = none ∧
      (q.state = .released → r.state = .released)
  budget : ∀ {id q}, ledger.reservation id = some q →
    ledger.callsOf (unreleasedUnder id) ≤ q.calls
  undispatched : ∀ {id r}, ledger.reservation id = some r →
    r.state = .reserved ∨ r.state = .released → r.dispatchedAt = none
  receipts : ∀ id, (ledger.receipts.get? id).map Receipt.outcome =
    (ledger.reservation id).bind fun r => r.state.outcome?

section Moved

variable (r : Reservation) (state : ReservationState) (now : Int)
  (outcome : Option DeliveryOutcome)

@[simp] theorem moved_state : (r.moved state now outcome).state = state := rfl

theorem moved_dispatchedAt (h : state ≠ .dispatched) :
    (r.moved state now outcome).dispatchedAt = r.dispatchedAt := if_neg h

end Moved

/-- The children of a root, as the check finds them. -/
theorem Sound.unreleasedChild {ledger : Ledger} (h : Sound ledger) (id : String) :
    ledger.callsOf (unreleasedChild id) = ledger.callsOf (unreleasedUnder id) := by
  refine Table.sum_congr fun j r hj => ?_
  cases hp : r.parentId with
  | none => simp [Policy.unreleasedChild, unreleasedUnder, hp]
  | some p =>
      have hroot := (h.child hj hp).1
      simp [Policy.unreleasedChild, unreleasedUnder, hp, hroot]

/-- A reservation that is not there has no children. -/
theorem Sound.callsOf_missing {ledger : Ledger} (h : Sound ledger) {id : String}
    (hid : ledger.reservation id = none) : ledger.callsOf (unreleasedUnder id) = 0 := by
  refine Table.sum_eq_zero fun j r hj => if_neg ?_
  intro hp
  simp only [unreleasedUnder, Bool.and_eq_true, decide_eq_true_eq] at hp
  obtain ⟨-, q, hq, -⟩ := h.child hj hp.1
  rw [hid] at hq
  cases hq

/-- A new reservation, a root or a child within its root's calls. -/
theorem Sound.insert {ledger : Ledger} (h : Sound ledger) {id : String} {row : Reservation}
    {reservations : Table String Reservation}
    (hinsert : ledger.reservations.insert? id row = some reservations)
    (hstate : row.state = .reserved) (hfresh : row.dispatchedAt = none)
    (hroot : row.parentId = none → row.rootId = id)
    (hchild : ∀ p, row.parentId = some p → row.rootId = p ∧ ∃ q, ledger.reservation p = some q ∧
      q.parentId = none ∧ q.state = .reserved ∧
      ledger.callsOf (unreleasedUnder p) + row.calls ≤ q.calls) :
    Sound { ledger with reservations } := by
  have hid : ledger.reservation id = none := (Table.insert?_eq_some.mp hinsert).1
  have hget : ∀ j, Ledger.reservation { ledger with reservations } j =
      if j = id then some row else ledger.reservation j := Table.get?_insert? hinsert
  have hsum : ∀ p, Ledger.callsOf { ledger with reservations } p =
      ledger.callsOf p + if p row then row.calls else 0 := fun p => Table.sum_insert? hinsert _
  have hold : ∀ {j r}, ledger.reservation j = some r → j ≠ id := by
    rintro j r hj rfl
    rw [hid] at hj
    cases hj
  refine ⟨?_, ?_, ?_, ?_, ?_⟩
  · intro j r hj hp
    rw [hget] at hj
    split at hj
    case isTrue e =>
      cases hj
      exact (hroot hp).trans e.symm
    case isFalse e => exact h.root hj hp
  · intro j r p hj hp
    rw [hget] at hj
    split at hj
    case isTrue e =>
      cases hj
      obtain ⟨hrp, q, hq, hqp, hqs, -⟩ := hchild p hp
      refine ⟨hrp, q, ?_, hqp, h.undispatched hq (.inl hqs), ?_⟩
      · rw [hget, if_neg (hold hq), hq]
      · intro hrel
        rw [hqs] at hrel
        cases hrel
    case isFalse e =>
      obtain ⟨hrp, q, hq, hqs⟩ := h.child hj hp
      exact ⟨hrp, q, by rw [hget, if_neg (hold hq), hq], hqs⟩
  · intro j q hj
    rw [hget] at hj
    rw [hsum]
    split at hj
    case isTrue e =>
      subst e
      rw [h.callsOf_missing hid]
      split <;> simp_all [unreleasedUnder]
    case isFalse e =>
      split
      case isTrue hu =>
        simp only [unreleasedUnder, Bool.and_eq_true, decide_eq_true_eq] at hu
        obtain ⟨-, q', hq', -, -, hb⟩ := hchild j hu.1
        rw [hj] at hq'
        cases hq'
        exact hb
      case isFalse hu => exact h.budget hj
  · intro j r hj hs
    rw [hget] at hj
    split at hj
    case isTrue e =>
      cases hj
      exact hfresh
    case isFalse e => exact h.undispatched hj hs
  · intro j
    rw [hget]
    have hr := h.receipts j
    split
    case isTrue e =>
      subst e
      rw [hid] at hr
      simpa [hstate, ReservationState.outcome?] using hr
    case isFalse e => exact hr

/-- What a lookup finds after a row was changed. -/
theorem reservation_modify {ledger : Ledger} {id : String} {r : Reservation}
    (hid : ledger.reservation id = some r) (f : Reservation → Reservation)
    {receipts : Table String Receipt} (j : String) :
    Ledger.reservation ⟨ledger.config, ledger.reservations.modify id f, receipts⟩ j =
      if j = id then some (f r) else ledger.reservation j := by
  refine (Table.get?_modify _ _ _ _).trans ?_
  split
  case isTrue e =>
    subst e
    exact congrArg (Option.map f) hid
  case isFalse e => rfl

/-- A row that moves on in its place of the tree. -/
theorem Sound.modify {ledger : Ledger} (h : Sound ledger) {id : String} {r : Reservation}
    (hid : ledger.reservation id = some r) {f : Reservation → Reservation}
    {receipts : Table String Receipt} (hroot : (f r).rootId = r.rootId)
    (hparent : (f r).parentId = r.parentId) (hcalls : r.calls ≤ (f r).calls)
    (hsame : r.parentId ≠ none → (f r).calls = r.calls) (hlive : r.state ≠ .released)
    (hundispatched : (f r).state = .reserved ∨ (f r).state = .released → (f r).dispatchedAt = none)
    (hchild : ∀ j c, ledger.reservation j = some c → c.parentId = some id →
      (f r).dispatchedAt = none ∧ ((f r).state = .released → c.state = .released))
    (hreceipts : ∀ j, (receipts.get? j).map Receipt.outcome =
      if j = id then (f r).state.outcome? else (ledger.receipts.get? j).map Receipt.outcome) :
    Sound ⟨ledger.config, ledger.reservations.modify id f, receipts⟩ := by
  have hget : ∀ j, Ledger.reservation ⟨ledger.config, ledger.reservations.modify id f, receipts⟩ j =
      if j = id then some (f r) else ledger.reservation j := reservation_modify hid f
  -- no child's calls grow
  have hsum : ∀ p, Ledger.callsOf ⟨ledger.config, ledger.reservations.modify id f, receipts⟩
      (unreleasedUnder p) ≤ ledger.callsOf (unreleasedUnder p) := by
    intro p
    rw [Ledger.callsOf, Table.modify, Table.sum_update]
    refine Table.sum_le_sum fun j b hj => ?_
    split
    case isTrue e =>
      subst e
      cases hid.symm.trans hj
      by_cases hp : unreleasedUnder p (f r) = true
      · have hr : r.parentId = some p := by
          simp only [unreleasedUnder, Bool.and_eq_true, decide_eq_true_eq] at hp
          exact hparent ▸ hp.1
        rw [if_pos hp, if_pos (by simp [unreleasedUnder, hr, hlive]), hsame (by simp [hr])]
      · rw [if_neg hp]
        exact Nat.zero_le _
    case isFalse e => exact Nat.le_refl _
  refine ⟨?_, ?_, ?_, ?_, ?_⟩
  · intro j r' hj hp
    rw [hget] at hj
    split at hj
    case isTrue e =>
      subst e
      cases hj
      rw [hroot]
      exact h.root hid (hparent ▸ hp)
    case isFalse e => exact h.root hj hp
  · intro j r' p hj hp
    -- the row as it was: it was not released, or it is another one
    have hold : ∃ b, ledger.reservation j = some b ∧ b.parentId = some p ∧ r'.rootId = b.rootId ∧
        (b.state = .released → r'.state = .released) := by
      rw [hget] at hj
      split at hj
      case isTrue e =>
        subst e
        cases hj
        exact ⟨r, hid, hparent ▸ hp, hroot, fun hs => absurd hs hlive⟩
      case isFalse e => exact ⟨r', hj, hp, rfl, fun hs => hs⟩
    obtain ⟨b, hb, hbp, hbr, hbs⟩ := hold
    obtain ⟨hrp, q, hq, hqp, hqd, hqs⟩ := h.child hb hbp
    refine ⟨hbr.trans hrp, ?_⟩
    by_cases e : p = id
    · subst e
      rw [hid] at hq
      cases hq
      obtain ⟨hd, hrel⟩ := hchild j b hb hbp
      exact ⟨f r, by rw [hget, if_pos rfl], hparent.trans hqp, hd, fun hs => hbs (hrel hs)⟩
    · exact ⟨q, by rw [hget, if_neg e, hq], hqp, hqd, fun hs => hbs (hqs hs)⟩
  · intro j q hj
    refine Nat.le_trans (hsum j) ?_
    rw [hget] at hj
    split at hj
    case isTrue e =>
      subst e
      cases hj
      exact Nat.le_trans (h.budget hid) hcalls
    case isFalse e => exact h.budget hj
  · intro j r' hj hs
    rw [hget] at hj
    split at hj
    case isTrue e =>
      cases hj
      exact hundispatched hs
    case isFalse e => exact h.undispatched hj hs
  · intro j
    rw [hget, hreceipts]
    split
    case isTrue e => rfl
    case isFalse e => exact h.receipts j

/-- The receipt of a row that has not reached a final state. -/
theorem Sound.receipts_live {ledger : Ledger} (h : Sound ledger) {id : String} {r : Reservation}
    (hid : ledger.reservation id = some r) (hlive : r.state = .reserved ∨ r.state = .dispatched) :
    (ledger.receipts.get? id).map Receipt.outcome = none := by
  rw [h.receipts, hid]
  rcases hlive with hs | hs <;> simp [hs, ReservationState.outcome?]

/-- Whether the calls of a new child stay within `i64` when added to those of its root's
children; only the sum under a root of `i64::MAX` calls can go wrong. -/
def unsaturated (ledger : Ledger) : Call → Bool
  | .reserveChild _ _ id parentId calls _ _ _ =>
      (ledger.reservation id).isSome || (ledger.reservation parentId).all fun root =>
        root.parentId.isSome || root.state ≠ .reserved || root.calls < maxInt ||
          ledger.callsOf (unreleasedUnder parentId) + calls ≤ maxInt
  | _ => true

theorem add_le_of_unsaturated {ledger : Ledger} {cfg : PolicyConfig} {stale : Option Reservation}
    {id parentId : String} {calls : Nat} {now : Int} {deadline : Option Int}
    {native : Except PolicyError Nat} {root : Reservation}
    (h : unsaturated ledger (.reserveChild cfg stale id parentId calls now deadline native) = true)
    (hid : ledger.reservation id = none) (hroot : ledger.reservation parentId = some root)
    (hparent : root.parentId = none) (hstate : root.state = .reserved)
    (hmax : maxInt ≤ root.calls) :
    ledger.callsOf (unreleasedUnder parentId) + calls ≤ maxInt := by
  simpa [unsaturated, hid, hroot, hparent, hstate, Nat.not_lt.mpr hmax] using h

theorem Sound.effect {call : Call} {ledger ledger' : Ledger} (h : Sound ledger)
    (he : Effect ledger call ledger') (hu : unsaturated ledger call = true) : Sound ledger' := by
  cases he with
  | configured config => exact ⟨h.root, h.child, h.budget, h.undispatched, h.receipts⟩
  | rootReserved hinsert => exact h.insert hinsert rfl rfl (fun _ => rfl) nofun
  | @childReserved _ _ id parentId calls _ _ _ _ _ _ parent hparent hroot hstate hbudget hinsert =>
      refine h.insert hinsert rfl rfl nofun ?_
      rintro p ⟨⟩
      have hid : ledger.reservation id = none := (Table.insert?_eq_some.mp hinsert).1
      have hself : parent.rootId = parentId := h.root hparent hroot
      rw [hself, h.unreleasedChild] at hbudget
      exact ⟨hself, parent, hparent, hroot, hstate,
        saturatingAdd_le hbudget (add_le_of_unsaturated hu hid hparent hroot hstate)⟩
  | @extended _ id _ _ root hid hroot hstate =>
      have hd : root.dispatchedAt = none := h.undispatched hid (.inl hstate)
      refine h.modify hid rfl rfl (Nat.le_add_right _ _) (absurd hroot) ?_ ?_ ?_ ?_
      · simp [hstate]
      · intro _
        exact hd
      · intro j c hj hc
        exact ⟨hd, fun hs => by simp [hstate] at hs⟩
      · intro j
        split
        case isTrue e =>
          subst e
          rw [h.receipts_live hid (.inl hstate), hstate]
          rfl
        case isFalse e => rfl
  | @dispatched id now r hid hstate hchild hadmitted =>
      refine h.modify hid rfl rfl (Nat.le_refl _) (fun _ => rfl) (by simp [hstate]) ?_ ?_ ?_
      · simp
      · intro j c hj hc
        rw [hasChild_iff.mpr ⟨j, c, hj, hc⟩] at hchild
        cases hchild
      · intro j
        split
        case isTrue e =>
          subst e
          exact h.receipts_live hid (.inl hstate)
        case isFalse e => rfl
  | @finalised id outcome now receipts r hid hstate hreceipt =>
      obtain ⟨hne, hnd, hnr⟩ := outcome.state_ne
      refine h.modify hid rfl rfl (Nat.le_refl _) (fun _ => rfl) ?_ ?_ ?_ ?_
      · rcases hstate with hs | hs <;> simp [hs]
      · simp [hne, hnr]
      · intro j c hj hc
        obtain ⟨-, q, hq, -, hqd, -⟩ := h.child hj hc
        rw [hid] at hq
        cases hq
        exact ⟨(moved_dispatchedAt _ _ _ _ hnd).trans hqd, fun hs => absurd hs hnr⟩
      · intro j
        rw [Table.get?_insert? hreceipt]
        split <;> simp
  | @released id now r hid hstate hchild =>
      have hd : (r.moved .released now none).dispatchedAt = none :=
        (moved_dispatchedAt r .released now none (by decide)).trans (h.undispatched hid (.inl hstate))
      refine h.modify hid rfl rfl (Nat.le_refl _) (fun _ => rfl) (by simp [hstate]) ?_ ?_ ?_
      · intro _
        exact hd
      · intro j c hj hc
        exact ⟨hd, fun _ => hchild j c hj hc⟩
      · intro j
        split
        case isTrue e =>
          subst e
          exact h.receipts_live hid (.inl hstate)
        case isFalse e => rfl

theorem Sound.perform {call : Call} {ledger : Ledger} (h : Sound ledger)
    (hu : unsaturated ledger call = true) : Sound (call.perform ledger).2 := by
  rcases atomically_eq call.run ledger with ⟨⟨⟩, ledger', hrun, heq⟩ | ⟨e, -, heq⟩
  · rw [Call.perform, heq]
    exact h.effect (effect_of_run hrun) hu
  · rw [Call.perform, heq]
    exact h

theorem Sound.empty : Sound {} := ⟨nofun, nofun, nofun, nofun, fun _ => rfl⟩

/-! ### Reservations move forward -/

def ReservationState.stage : ReservationState → Nat
  | reserved => 1
  | dispatched => 2
  | _ => 3

/-- How far a reservation has come; 0 when it is not there. -/
def Ledger.stage (ledger : Ledger) (id : String) : Nat :=
  ((ledger.reservation id).map fun r => r.state.stage).getD 0

/-- The reservation a call moves, and the stage it moves it to. -/
def Call.goal? : Call → Option (String × Nat)
  | markDispatched id _ => some (id, 2)
  | recordOutcome id _ _ | releaseBeforeDispatch id _ => some (id, 3)
  | _ => none

theorem stage_of_some {ledger : Ledger} {id : String} {r : Reservation}
    (h : ledger.reservation id = some r) : ledger.stage id = r.state.stage := by
  simp [Ledger.stage, h]

theorem DeliveryOutcome.stage_state (o : DeliveryOutcome) : o.state.stage = 3 := by
  cases o <;> rfl

/-- The stage of a reservation after another row, or it, was changed. -/
theorem stage_modify {ledger : Ledger} {id : String} {r : Reservation}
    (hid : ledger.reservation id = some r) (f : Reservation → Reservation)
    {receipts : Table String Receipt} (j : String) :
    Ledger.stage ⟨ledger.config, ledger.reservations.modify id f, receipts⟩ j =
      if j = id then (f r).state.stage else ledger.stage j := by
  rw [Ledger.stage, reservation_modify hid]
  split <;> rfl

theorem stage_insert {ledger : Ledger} {id : String} {row : Reservation}
    {reservations : Table String Reservation}
    (h : ledger.reservations.insert? id row = some reservations) (j : String) :
    ledger.stage j ≤ Ledger.stage { ledger with reservations } j := by
  have hid : ledger.reservation id = none := (Table.insert?_eq_some.mp h).1
  have hget : Ledger.reservation { ledger with reservations } j =
      if j = id then some row else ledger.reservation j := Table.get?_insert? h j
  rw [Ledger.stage, Ledger.stage, hget]
  split
  case isTrue e => simp [e, hid]
  case isFalse e => exact Nat.le_refl _

theorem Effect.stage_le {call : Call} {ledger ledger' : Ledger} (h : Effect ledger call ledger')
    (j : String) : ledger.stage j ≤ ledger'.stage j := by
  cases h with
  | configured config => exact Nat.le_refl _
  | rootReserved hinsert => exact stage_insert hinsert j
  | childReserved _ _ _ _ hinsert => exact stage_insert hinsert j
  | extended hid _ hstate =>
      rw [stage_modify hid]
      split
      case isTrue e => simp [e, stage_of_some hid]
      case isFalse e => exact Nat.le_refl _
  | dispatched hid hstate _ _ =>
      rw [stage_modify hid]
      split
      case isTrue e => simp [e, stage_of_some hid, hstate, ReservationState.stage]
      case isFalse e => exact Nat.le_refl _
  | @finalised _ outcome _ _ _ hid hstate _ =>
      rw [stage_modify hid]
      split
      case isTrue e =>
        rw [e, stage_of_some hid, moved_state, outcome.stage_state]
        rcases hstate with hs | hs <;> simp [hs, ReservationState.stage]
      case isFalse e => exact Nat.le_refl _
  | released hid hstate _ =>
      rw [stage_modify hid]
      split
      case isTrue e => simp [e, stage_of_some hid, hstate, ReservationState.stage]
      case isFalse e => exact Nat.le_refl _

/-- A call that moves a reservation moves it forward, to its goal. -/
theorem Effect.stage_goal {call : Call} {ledger ledger' : Ledger} (h : Effect ledger call ledger')
    {id : String} {n : Nat} (hgoal : call.goal? = some (id, n)) :
    ledger.stage id < n ∧ ledger'.stage id = n := by
  cases h with
  | configured | rootReserved | childReserved | extended => cases hgoal
  | dispatched hid hstate _ _ =>
      cases hgoal
      rw [stage_modify hid, if_pos rfl, stage_of_some hid, hstate]
      exact ⟨by decide, rfl⟩
  | @finalised _ outcome _ _ _ hid hstate _ =>
      cases hgoal
      rw [stage_modify hid, if_pos rfl, stage_of_some hid, moved_state, outcome.stage_state]
      refine ⟨?_, rfl⟩
      rcases hstate with hs | hs <;> simp [hs, ReservationState.stage]
  | released hid hstate _ =>
      cases hgoal
      rw [stage_modify hid, if_pos rfl, stage_of_some hid, hstate]
      exact ⟨by decide, rfl⟩

theorem stage_perform (call : Call) (ledger : Ledger) (j : String) :
    ledger.stage j ≤ (call.perform ledger).2.stage j := by
  rcases atomically_eq call.run ledger with ⟨⟨⟩, ledger', hrun, heq⟩ | ⟨e, -, heq⟩
  · rw [Call.perform, heq]
    exact (effect_of_run hrun).stage_le j
  · rw [Call.perform, heq]

/-- The effect of an entry that succeeded. -/
theorem effect_of_ok {call : Call} {ledger : Ledger} (h : (call.perform ledger).1 = .ok ()) :
    Effect ledger call (call.perform ledger).2 :=
  effect_of_run (run_of_atomically h)

/-- Two calls that succeeded, the first before the second, move a reservation to later and later
stages. -/
theorem goal_lt {entries : List (Entry Ledger Call (Except PolicyError Unit))} {start ledger : Ledger}
    (h : History Call.perform NoDrift start entries ledger) :
    entries.Pairwise fun a b => a.result = .ok () → b.result = .ok () → ∀ id m n,
      a.call.goal? = some (id, m) → b.call.goal? = some (id, n) → m < n := by
  refine pairwise_of_split fun pre b post hsplit a ha hra hrb id m n hm hn => ?_
  subst hsplit
  obtain ⟨har, hbr, mid, hmid⟩ := h.between ha
  have hpast : m ≤ b.before.stage id := by
    refine hmid.invariant (fun u => m ≤ u.stage id) ?_ ?_ nofun
    · exact Nat.le_of_eq ((effect_of_ok (har ▸ hra)).stage_goal hm).2.symm
    · intro c u hu
      exact Nat.le_trans hu (stage_perform c u id)
  exact Nat.lt_of_le_of_lt hpast ((effect_of_ok (hbr ▸ hrb)).stage_goal hn).1

/-! ### The budget over a run -/

/-- Whether the row of a reservation says it was dispatched. -/
def Ledger.wasDispatched (ledger : Ledger) (id : String) : Bool :=
  (ledger.reservation id).any fun r => r.dispatchedAt.isSome

/-- The calls dispatched under a root: its own and those of its children. -/
def Ledger.dispatchedUnder (ledger : Ledger) (id : String) : Nat :=
  ledger.reservations.sum fun j r =>
    if (j = id || r.parentId = some id) && r.dispatchedAt.isSome then r.calls else 0

/-- What holds of the reservations in every state of a run. -/
structure Budgeted (ledger : Ledger) : Prop where
  children : ∀ id root, ledger.reservation id = some root →
    ledger.callsOf (unreleasedUnder id) ≤ root.calls
  delegated : ∀ id, hasChild ledger id = true → ledger.wasDispatched id = false
  dispatched : ∀ id root, ledger.reservation id = some root → ledger.dispatchedUnder id ≤ root.calls
  receipt : ∀ id, (ledger.receipts.get? id).map Receipt.outcome =
    (ledger.reservation id).bind fun r => r.state.outcome?
  released : ∀ id r, ledger.reservation id = some r → r.state = .released →
    ledger.wasDispatched id = false ∧
      ∀ j c, ledger.reservation j = some c → c.parentId = some id → ledger.wasDispatched j = false

theorem Sound.not_dispatched {ledger : Ledger} (h : Sound ledger) {id : String} {r : Reservation}
    (hid : ledger.reservation id = some r) (hs : r.state = .reserved ∨ r.state = .released) :
    ledger.wasDispatched id = false := by
  simp [Ledger.wasDispatched, hid, h.undispatched hid hs]

theorem Sound.delegated {ledger : Ledger} (h : Sound ledger) {id : String}
    (hc : hasChild ledger id = true) : ledger.wasDispatched id = false := by
  obtain ⟨j, c, hj, hp⟩ := hasChild_iff.mp hc
  obtain ⟨-, q, hq, -, hd, -⟩ := h.child hj hp
  simp [Ledger.wasDispatched, hq, hd]

/-- The calls dispatched under a root are its own, or unreleased calls of its children. -/
theorem Sound.dispatched {ledger : Ledger} (h : Sound ledger) {id : String} {root : Reservation}
    (hid : ledger.reservation id = some root) : ledger.dispatchedUnder id ≤ root.calls := by
  cases hc : hasChild ledger id with
  | true =>
      have hd := h.delegated hc
      rw [Ledger.wasDispatched, hid, Option.any_some] at hd
      refine Nat.le_trans (Table.sum_le_sum fun j r hj => ?_) (h.budget hid)
      by_cases e : j = id
      · subst e
        cases hid.symm.trans hj
        simp [hd]
      · by_cases hp : r.parentId = some id ∧ r.dispatchedAt.isSome
        · have hs : r.state ≠ .released := by
            intro hs
            simp [h.undispatched hj (.inr hs)] at hp
          simp [unreleasedUnder, e, hp.1, hp.2, hs]
        · rw [if_neg (by simpa [e] using hp)]
          exact Nat.zero_le _
  | false =>
      have hother : ∀ j r, ledger.reservations.get? j = some r → j ≠ id →
          (if (j = id || r.parentId = some id) && r.dispatchedAt.isSome then r.calls else 0) = 0 := by
        intro j r hj hne
        have hp : r.parentId ≠ some id := by
          intro hp
          rw [hasChild_iff.mpr ⟨j, r, hj, hp⟩] at hc
          cases hc
        simp [hne, hp]
      have hsum := Table.sum_exchange hid (g := fun _ _ => 0) hother
      rw [Table.sum_eq_zero (f := fun _ _ => 0) (fun _ _ _ => rfl)] at hsum
      rw [Ledger.dispatchedUnder]
      split at hsum <;> omega

theorem Sound.budgeted {ledger : Ledger} (h : Sound ledger) : Budgeted ledger where
  children _ _ hid := h.budget hid
  delegated _ hc := h.delegated hc
  dispatched _ _ hid := h.dispatched hid
  receipt := h.receipts
  released id r hid hs := by
    refine ⟨h.not_dispatched hid (.inr hs), fun j c hj hc => ?_⟩
    obtain ⟨-, q, hq, -, -, hrel⟩ := h.child hj hc
    rw [hid] at hq
    cases hq
    exact h.not_dispatched hj (.inr (hrel hs))

theorem wasDispatched_modify {ledger : Ledger} {id : String} {r : Reservation}
    (hid : ledger.reservation id = some r) {f : Reservation → Reservation}
    {receipts : Table String Receipt} (hf : (f r).dispatchedAt = r.dispatchedAt) (j : String) :
    Ledger.wasDispatched ⟨ledger.config, ledger.reservations.modify id f, receipts⟩ j =
      ledger.wasDispatched j := by
  rw [Ledger.wasDispatched, reservation_modify hid]
  split
  case isTrue e => simp [Ledger.wasDispatched, e, hid, hf]
  case isFalse e => rfl

theorem wasDispatched_insert {ledger : Ledger} {id : String} {row : Reservation}
    {reservations : Table String Reservation}
    (h : ledger.reservations.insert? id row = some reservations) (hrow : row.dispatchedAt = none)
    (j : String) :
    Ledger.wasDispatched { ledger with reservations } j = ledger.wasDispatched j := by
  have hid : ledger.reservation id = none := (Table.insert?_eq_some.mp h).1
  have hget : Ledger.reservation { ledger with reservations } j =
      if j = id then some row else ledger.reservation j := Table.get?_insert? h j
  rw [Ledger.wasDispatched, hget]
  split
  case isTrue e => simp [Ledger.wasDispatched, e, hid, hrow]
  case isFalse e => rfl

/-- A row comes to say it was dispatched by `mark_dispatched` alone. -/
theorem Effect.wasDispatched {call : Call} {ledger ledger' : Ledger}
    (h : Effect ledger call ledger') (j : String) :
    ledger'.wasDispatched j = true ↔
      ledger.wasDispatched j = true ∨ ∃ now, call = .markDispatched j now := by
  cases h with
  | configured config => simp; rfl
  | rootReserved hinsert => simp [wasDispatched_insert hinsert rfl]
  | childReserved _ _ _ _ hinsert => simp [wasDispatched_insert hinsert rfl]
  | extended hid =>
      rw [wasDispatched_modify hid]
      · simp
      · rfl
  | @dispatched id now r hid =>
      rw [Ledger.wasDispatched, reservation_modify hid]
      split
      case isTrue e => simp [e, Reservation.moved]
      case isFalse e => simp [Ledger.wasDispatched, Ne.symm e]
  | @finalised _ outcome _ _ _ hid =>
      rw [wasDispatched_modify hid]
      · simp
      · exact moved_dispatchedAt _ _ _ _ outcome.state_ne.2.1
  | released hid =>
      rw [wasDispatched_modify hid]
      · simp
      · exact moved_dispatchedAt _ _ _ _ (by decide)

theorem Effect.admitted {id : String} {now : Int} {ledger ledger' : Ledger}
    (h : Effect ledger (.markDispatched id now) ledger') :
    ∃ r, ledger.reservation id = some r ∧ r.state = .reserved ∧ Admitted ledger r now := by
  cases h with
  | dispatched hid hstate _ hadmitted => exact ⟨_, hid, hstate, hadmitted⟩

/-- A reservation says it was dispatched exactly when a `mark_dispatched` of it succeeded. -/
theorem wasDispatched_iff {entries : List (Entry Ledger Call (Except PolicyError Unit))}
    {ledger : Ledger} (h : History Call.perform NoDrift {} entries ledger) (id : String) :
    ledger.wasDispatched id = true ↔
      ∃ e ∈ entries, e.result = .ok () ∧ ∃ now, e.call = .markDispatched id now := by
  refine h.invariant_entries (fun es u => u.wasDispatched id = true ↔
    ∃ e ∈ es, e.result = .ok () ∧ ∃ now, e.call = .markDispatched id now) ?_ ?_ nofun
  · simp [Ledger.wasDispatched, Ledger.reservation]
  · intro es u c _ ih
    simp only [List.mem_append, List.mem_singleton, or_and_right, exists_or, exists_eq_left, ← ih]
    rcases atomically_eq c.run u with ⟨⟨⟩, u', hrun, heq⟩ | ⟨e, -, heq⟩
    · rw [Call.perform, heq, (effect_of_run hrun).wasDispatched id]
      simp
    · rw [Call.perform, heq]
      simp

/-- **The call budget.**  In a run in which no child is reserved whose calls saturate the sum of
its root's children: every state is budgeted, rows say truly what was dispatched, every dispatch was
admitted, and a reservation is dispatched at most once, finalised or released at most once, and not
dispatched after that. -/
theorem budget_kept {entries : List (Entry Ledger Call (Except PolicyError Unit))}
    {ledger : Ledger} (h : History Call.perform NoDrift {} entries ledger)
    (hu : ∀ e ∈ entries, unsaturated e.before e.call = true) :
    Budgeted ledger ∧
      (∀ id, ledger.wasDispatched id = true ↔
        ∃ e ∈ entries, e.result = .ok () ∧ ∃ now, e.call = .markDispatched id now) ∧
      (∀ e ∈ entries, e.result = .ok () → ∀ id now, e.call = .markDispatched id now →
        ∃ r, e.before.reservation id = some r ∧ r.state = .reserved ∧ Admitted e.before r now) ∧
      entries.Pairwise fun a b => a.result = .ok () → b.result = .ok () → ∀ id m n,
        a.call.goal? = some (id, m) → b.call.goal? = some (id, n) → m < n := by
  refine ⟨Sound.budgeted ?_, wasDispatched_iff h, ?_, goal_lt h⟩
  · refine h.invariant_entries (fun es u => (∀ e ∈ es, unsaturated e.before e.call = true) → Sound u)
      (fun _ => .empty) ?_ nofun hu
    intro es u c _ ih hes
    have hlast := hes ⟨u, c, (c.perform u).1⟩ (by simp)
    exact (ih fun e he => hes e (List.mem_append_left _ he)).perform hlast
  · intro e he hok id now hcall
    have heffect := effect_of_ok (h.performed e he ▸ hok)
    rw [hcall] at heffect
    exact heffect.admitted

/-- A root with one child, which is dispatched and completes. -/
def delegatedCalls : List Call :=
  [.configure ⟨0, 2, 4, 120⟩, .reserveRoot ⟨0, 2, 4, 120⟩ "root" 2 false 0 none (.ok 0),
    .reserveChild ⟨0, 2, 4, 120⟩
      (some ⟨"root", none, 2, 120, false, .reserved, 0, none, none, none⟩) "child" "root" 1 0 none
      (.ok 0),
    .markDispatched "child" 1, .recordOutcome "child" .completed 2]

theorem budget_kept_delegated :
    ∃ entries ledger, History Call.perform NoDrift {} entries ledger ∧
      (∃ e ∈ entries, e.result = .ok () ∧ ∃ now, e.call = .markDispatched "child" now) ∧
      Budgeted ledger := by
  have hu : (replay Call.perform {} delegatedCalls).1.all
      (fun e => unsaturated e.before e.call) = true := by decide +kernel
  have h := budget_kept (History.replay ({} : Ledger) delegatedCalls) (List.all_eq_true.mp hu)
  exact ⟨_, _, History.replay ({} : Ledger) delegatedCalls, (h.2.1 "child").mp (by decide +kernel), h.1⟩

/-- Two children of a root of `i64::MAX` calls: the sum of the second check saturates. -/
def saturatingCalls : List Call :=
  [.configure ⟨0, 2, maxInt, 120⟩,
    .reserveRoot ⟨0, 2, maxInt, 120⟩ "root" maxInt false 0 none (.ok 0),
    .reserveChild ⟨0, 2, maxInt, 120⟩
      (some ⟨"root", none, maxInt, 120, false, .reserved, 0, none, none, none⟩) "first" "root"
      (maxInt - 1) 0 none (.ok 0),
    .reserveChild ⟨0, 2, maxInt, 120⟩
      (some ⟨"root", none, maxInt, 120, false, .reserved, 0, none, none, none⟩) "second" "root"
      maxInt 0 none (.ok 0)]

theorem children_exceed_root :
    ∃ entries ledger, History Call.perform NoDrift {} entries ledger ∧
      ∃ root, ledger.reservation "root" = some root ∧
        root.calls < ledger.callsOf (unreleasedUnder "root") := by
  refine ⟨_, _, History.replay ({} : Ledger) saturatingCalls, ?_⟩
  have h : ((replay Call.perform {} saturatingCalls).2.reservation "root").any fun root =>
      root.calls < (replay Call.perform {} saturatingCalls).2.callsOf (unreleasedUnder "root") := by
    decide +kernel
  obtain ⟨root, hroot, hlt⟩ := (Option.any_eq_true ..).mp h
  exact ⟨root, hroot, of_decide_eq_true hlt⟩

end Pikamux.Policy
