import Pikamux.Launch.Lifecycle

/-!
# Launch — Receipts

The receipt of a launch's exit: who wrote it, and how long it is there.

* `owner_registered`, `exit_recorded` — where the rows of the owner and of the receipt come from, in
  any run from the empty store.
* `Moved.receipt` — a receipt that is read is read again after every call that does not end the
  launch, for the first receipt is never written over.
* `pending_exit_authentic` — both together: a receipt that is read was recorded for this launch by
  the owner that was registered for it, and it stays until the launch ends.
-/

namespace Pikamux.Launch

open Support Timestamp

variable {τ : Type} [Timestamp τ] {entries : List (Happened τ)} {store : Store τ} {token : String}

/-! ### Where the rows come from -/

/-- An entry of a run. -/
def Past (entries : List (Happened τ)) (P : List (Happened τ) → Happened τ → Prop) : Prop :=
  ∃ before e after, entries = before ++ e :: after ∧ P before e

omit [Timestamp τ] in
theorem Past.snoc {P : List (Happened τ) → Happened τ → Prop} (h : Past entries P)
    (last : Happened τ) : Past (entries ++ [last]) P := by
  obtain ⟨before, e, after, rfl, he⟩ := h
  exact ⟨before, e, after ++ [last], by simp, he⟩

omit [Timestamp τ] in
theorem Past.last {P : List (Happened τ) → Happened τ → Prop} {e : Happened τ} (h : P entries e) :
    Past (entries ++ [e]) P :=
  ⟨entries, e, [], rfl, h⟩

/-- An owner that is stored was registered. -/
theorem owner_registered (h : History perform Elsewhere {} entries store) {text : OwnerText τ}
    (howner : (store.launch token).owner = some text) :
    ∃ owner : PendingLaunchWrapperOwner τ, text = owner.encode ∧ Past entries fun _ e =>
      Registered token owner.ownerToken (owner.provider, owner.pendingCreatedAt) e := by
  induction h with
  | nil => cases howner
  | drift _ hd ih => exact ih (hd token ▸ howner)
  | @call es u _ call ih =>
      have hkeep : (u.launch token).owner = some text → ∃ owner : PendingLaunchWrapperOwner τ,
          text = owner.encode ∧ Past (es ++ [⟨u, call, (perform call u).1⟩]) fun _ e =>
            Registered token owner.ownerToken (owner.provider, owner.pendingCreatedAt) e := by
        intro hu
        obtain ⟨owner, htext, hpast⟩ := ih hu
        exact ⟨owner, htext, hpast.snoc _⟩
      have hmoved := perform_moved call u token
      generalize (perform call u).2.launch token = launch at hmoved howner
      cases hmoved with
      | stay => exact hkeep howner
      | reserve => cases howner
      | phase => exact hkeep howner
      | finalize => exact hkeep howner
      | own owner hreg =>
          cases howner
          exact ⟨owner, rfl, Past.last hreg⟩
      | exit => exact hkeep howner
      | leave => cases howner

/-- A receipt that is stored was recorded, by an owner that had been registered. -/
theorem exit_recorded (h : History perform Elsewhere {} entries store) {text : ExitText τ}
    (hexit : (store.launch token).exit = some text) :
    ∃ receipt : PendingLaunchExit τ, text = receipt.encode ∧ Past entries fun before e =>
      ∃ owner, Recorded token owner receipt e ∧
        ∃ r ∈ before, Registered token owner (receipt.provider, receipt.pendingCreatedAt) r := by
  induction h with
  | nil => cases hexit
  | drift _ hd ih => exact ih (hd token ▸ hexit)
  | @call es u hes call ih =>
      have hkeep : (u.launch token).exit = some text → ∃ receipt : PendingLaunchExit τ,
          text = receipt.encode ∧ Past (es ++ [⟨u, call, (perform call u).1⟩]) fun before e =>
            ∃ owner, Recorded token owner receipt e ∧ ∃ r ∈ before,
              Registered token owner (receipt.provider, receipt.pendingCreatedAt) r := by
        intro hu
        obtain ⟨receipt, htext, hpast⟩ := ih hu
        exact ⟨receipt, htext, hpast.snoc _⟩
      have hmoved := perform_moved call u token
      generalize (perform call u).2.launch token = launch at hmoved hexit
      cases hmoved with
      | stay => exact hkeep hexit
      | reserve => cases hexit
      | phase => exact hkeep hexit
      | finalize => exact hkeep hexit
      | own => exact hkeep hexit
      | exit owner receipt hrec =>
          cases hexit
          refine ⟨receipt, rfl, Past.last ⟨owner, hrec, ?_⟩⟩
          -- the owner it presented is the one that is stored
          obtain ⟨text, howner, hdecode⟩ := Option.bind_eq_some_iff.mp hrec.owner
          obtain ⟨stored, rfl, before, r, after, rfl, hreg⟩ := owner_registered hes howner
          obtain ⟨-, rfl⟩ := PendingLaunchWrapperOwner.decode_encode.mp hdecode
          exact ⟨r, by simp, hreg⟩
      | leave => cases hexit

/-! ### How long a receipt is there -/

/-- The receipt of one launch. -/
def Launch.receipt (launch : Launch τ) : Option (PendingLaunchExit τ) := do
  let (provider, createdAt) ← launch.pending
  let encoded ← launch.exit
  let receipt ← PendingLaunchExit.decode encoded
  if receipt.provider = provider ∧ receipt.pendingCreatedAt = createdAt ∧
      finite receipt.observedAt ∧ createdAt ≤ receipt.observedAt then some receipt else none

theorem getPendingExit_eq (store : Store τ) (token : String) :
    store.getPendingExit token = (store.launch token).receipt := by
  simp only [Store.getPendingExit, Launch.receipt, Store.launch]
  cases store.getPending token with
  | none => rfl
  | some row => rfl

theorem Launch.receipt_eq_some {launch : Launch τ} {receipt : PendingLaunchExit τ} :
    launch.receipt = some receipt ↔
      (∃ text, launch.exit = some text ∧ PendingLaunchExit.decode text = some receipt) ∧
        launch.pending = some (receipt.provider, receipt.pendingCreatedAt) ∧
        finite receipt.observedAt = true ∧ receipt.pendingCreatedAt ≤ receipt.observedAt := by
  constructor
  · intro h
    obtain ⟨⟨provider, createdAt⟩, hpending, hread⟩ := Option.bind_eq_some_iff.mp h
    obtain ⟨text, hexit, htext⟩ := Option.bind_eq_some_iff.mp hread
    obtain ⟨read, hdecode, hchecked⟩ := Option.bind_eq_some_iff.mp htext
    obtain ⟨⟨rfl, rfl, hfinite, hle⟩, rfl⟩ := Option.ite_some_none_eq_some.mp hchecked
    exact ⟨⟨text, hexit, hdecode⟩, hpending, hfinite, hle⟩
  · rintro ⟨⟨text, hexit, hdecode⟩, hpending, hfinite, hle⟩
    simp [Launch.receipt, hexit, hdecode, hpending, hfinite, hle]

/-- A call that does not end the launch keeps its receipt. -/
theorem Moved.receipt {e : Happened τ} {launch : Launch τ} {receipt : PendingLaunchExit τ}
    (h : Moved token e launch) (hreceipt : (e.before.launch token).receipt = some receipt)
    (hends : ¬ Ends token e) : launch.receipt = some receipt := by
  obtain ⟨⟨text, hexit, -⟩, hpending, -⟩ := Launch.receipt_eq_some.mp hreceipt
  cases h with
  | stay => exact hreceipt
  | reserve _ hends' => exact absurd hends' hends
  | phase => exact hreceipt
  | finalize => exact hreceipt
  | own => exact hreceipt
  | exit _ _ _ hnone =>
      -- the first receipt wins
      rw [hexit] at hnone
      cases hnone
  | leave hleave =>
      rcases hleave with hends' | hnone
      · exact absurd hends' hends
      · rw [hpending] at hnone
        cases hnone

theorem receipt_kept {later : List (Happened τ)} {store' : Store τ}
    {receipt : PendingLaunchExit τ} (h : History perform Elsewhere store later store')
    (hreceipt : store.getPendingExit token = some receipt) (hends : ∀ e ∈ later, ¬ Ends token e) :
    store'.getPendingExit token = some receipt := by
  rw [getPendingExit_eq] at hreceipt ⊢
  induction h with
  | nil => exact hreceipt
  | drift _ hd ih => exact hd token ▸ ih hends
  | call _ c ih =>
      rw [List.forall_mem_append, List.forall_mem_singleton] at hends
      exact (perform_moved c _ token).receipt (ih hends.1) hends.2

/-- A receipt that is read was recorded in a phase in which the provider ran, at a finite time not
before the launch, by a call that presented the owner registered for this launch; and whatever
happens to it and elsewhere, it is read until the launch ends. -/
theorem pending_exit_authentic {receipt : PendingLaunchExit τ}
    (h : History perform Elsewhere {} entries store)
    (hreceipt : store.getPendingExit token = some receipt) :
    (∃ before e after owner, entries = before ++ e :: after ∧ Recorded token owner receipt e ∧
      ∃ r ∈ before, Registered token owner (receipt.provider, receipt.pendingCreatedAt) r) ∧
    ∀ later store', History perform Elsewhere store later store' → (∀ e ∈ later, ¬ Ends token e) →
      store'.getPendingExit token = some receipt := by
  constructor
  · rw [getPendingExit_eq] at hreceipt
    obtain ⟨⟨text, hexit, hdecode⟩, -⟩ := Launch.receipt_eq_some.mp hreceipt
    obtain ⟨stored, rfl, before, e, after, hes, owner, hrec, hreg⟩ := exit_recorded h hexit
    obtain ⟨-, -, rfl⟩ := PendingLaunchExit.decode_encode.mp hdecode
    exact ⟨before, e, after, owner, hes, hrec, hreg⟩
  · intro later store' hlater hends
    exact receipt_kept hlater hreceipt hends

/-- A wrapper that exits with code 3 two seconds after its launch, and a later callback. -/
def exitCalls : List (Call Int) :=
  [.addPending sampleLaunch 10, .registerPendingWrapperOwner "t" "owner",
    .setLaunchPhase "t" .providerStarting,
    .recordPendingLaunchExit "t" .claude none (some "owner") 3 (some 12),
    .recordPendingLaunchExit "t" .claude none (some "owner") 4 (some 13)]

theorem pending_exit_authentic_sample :
    ∃ e ∈ (replay perform ({} : Store Int) exitCalls).1, ∃ owner,
      Recorded "t" owner (⟨.claude, 10, 3, 12⟩ : PendingLaunchExit Int) e := by
  have hread : (replay perform ({} : Store Int) exitCalls).2.getPendingExit "t" =
      some ⟨.claude, 10, 3, 12⟩ := by decide
  obtain ⟨⟨before, e, after, owner, hes, hrec, -⟩, -⟩ :=
    pending_exit_authentic (History.replay ({} : Store Int) exitCalls) hread
  exact ⟨e, hes ▸ by simp, owner, hrec⟩

end Pikamux.Launch
