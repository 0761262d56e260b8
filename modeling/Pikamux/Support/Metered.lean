import Mathlib.Algebra.Order.Ring.Nat
import Mathlib.Control.Lawful

/-!
# Support — Metered

Computations that are given some fuel, and may refuse to go on.

* `Meters` — a computation that succeeds yields what its meaning is and has spent so much; one that
  fails has refused, unless it has no meaning.
* `Guards` — a computation that does nothing but spend and refuse.

There is a rule for each way to build a computation.
-/

namespace Support

variable {σ ε α β : Type} (fuel : σ → Nat) (refusal : ε → Prop)

/-- What it spends is `work`, and each of its failures is a refusal. -/
def Guards (m : StateT σ (Except ε) α) (work : Nat) : Prop :=
  ∀ s, (∀ a t, m s = .ok (a, t) → fuel s = fuel t + work) ∧ ∀ e, m s = .error e → refusal e

/-- It yields what `meaning` says and spends `work`.  If it fails, it refuses or has no meaning. -/
def Meters (m : StateT σ (Except ε) α) (meaning : Option α) (work : Nat) : Prop :=
  ∀ s, (∀ a t, m s = .ok (a, t) → meaning = some a ∧ fuel s = fuel t + work) ∧
    ∀ e, m s = .error e → refusal e ∨ meaning = none

variable {fuel refusal} {m : StateT σ (Except ε) α} {f : α → StateT σ (Except ε) β}
  {meaning : Option α} {work : Nat}

/-- How a sequence ends. -/
theorem bind_run (m : StateT σ (Except ε) α) (f : α → StateT σ (Except ε) β) (s : σ) :
    (∃ a t, m s = .ok (a, t) ∧ (m >>= f) s = f a t) ∨
      ∃ e, m s = .error e ∧ (m >>= f) s = .error e := by
  have hrun : (m >>= f) s = m s >>= fun next => f next.1 next.2 := rfl
  cases h : m s with
  | ok next => exact .inl ⟨next.1, next.2, rfl, by rw [hrun, h]; rfl⟩
  | error e => exact .inr ⟨e, rfl, by rw [hrun, h]; rfl⟩

/-- The steps of a sequence that succeeds. -/
theorem ok_of_bind {s u : σ} {b : β} (h : (m >>= f) s = .ok (b, u)) :
    ∃ a t, m s = .ok (a, t) ∧ f a t = .ok (b, u) := by
  rcases bind_run m f s with ⟨a, t, hstep, hrun⟩ | ⟨e, -, hrun⟩
  · exact ⟨a, t, hstep, hrun ▸ h⟩
  · rw [hrun] at h
    cases h

theorem ok_of_lift {x : Except ε α} {s t : σ} {a : α}
    (h : (liftM x : StateT σ (Except ε) α) s = .ok (a, t)) : x = .ok a := by
  cases x with
  | ok b =>
      cases h
      rfl
  | error e => cases h

theorem Guards.bind {rest : Nat} (hm : Guards fuel refusal m work)
    (hf : ∀ a, Guards fuel refusal (f a) rest) : Guards fuel refusal (m >>= f) (work + rest) := by
  intro s
  rcases bind_run m f s with ⟨a, t, hstep, hrun⟩ | ⟨e, hstep, hrun⟩
  · have hspent := (hm s).1 a t hstep
    rw [hrun]
    refine ⟨fun b u hb => ?_, (hf a t).2⟩
    have hrest := (hf a t).1 b u hb
    omega
  · rw [hrun]
    exact ⟨nofun, fun e' he => by cases he; exact (hm s).2 e hstep⟩

theorem Guards.lift {x : Except ε α} (h : ∀ e, x = .error e → refusal e) :
    Guards fuel refusal (liftM x : StateT σ (Except ε) α) 0 := by
  intro s
  cases x with
  | ok a => exact ⟨fun b t hb => by cases hb; rfl, nofun⟩
  | error e => exact ⟨nofun, fun e' he => by cases he; exact h e rfl⟩

theorem Guards.pure (a : α) : Guards fuel refusal (pure a) 0 := by
  intro s
  refine ⟨fun b t h => ?_, fun e h => by cases h⟩
  cases h
  rfl

/-- A list of checks. -/
theorem Guards.forM {γ : Type} {f : γ → StateT σ (Except ε) PUnit} (l : List γ)
    (h : ∀ c ∈ l, Guards fuel refusal (f c) 0) : Guards fuel refusal (l.forM f) 0 := by
  induction l with
  | nil => exact Guards.pure PUnit.unit
  | cons c l ih =>
      obtain ⟨hc, hl⟩ := List.forall_mem_cons.mp h
      exact hc.bind fun _ => ih hl

/-- A check before a computation takes nothing from its meaning. -/
theorem Guards.before {meaning : Option β} {rest : Nat} (hm : Guards fuel refusal m work)
    (hf : ∀ a, Meters fuel refusal (f a) meaning rest) :
    Meters fuel refusal (m >>= f) meaning (work + rest) := by
  intro s
  rcases bind_run m f s with ⟨a, t, hstep, hrun⟩ | ⟨e, hstep, hrun⟩
  · have hspent := (hm s).1 a t hstep
    rw [hrun]
    refine ⟨fun b u hb => ?_, (hf a t).2⟩
    obtain ⟨hmeaning, hrest⟩ := (hf a t).1 b u hb
    exact ⟨hmeaning, by omega⟩
  · rw [hrun]
    exact ⟨nofun, fun e' he => by cases he; exact .inl ((hm s).2 e hstep)⟩

namespace Meters

protected theorem pure (a : α) : Meters fuel refusal (pure a) (some a) 0 := by
  intro s
  refine ⟨fun b t h => ?_, nofun⟩
  cases h
  exact ⟨rfl, rfl⟩

/-- What has no meaning may fail in any way. -/
protected theorem throw (e : ε) (work : Nat) :
    Meters fuel refusal (throw e : StateT σ (Except ε) α) none work :=
  fun _ => ⟨nofun, fun _ _ => .inr rfl⟩

theorem lift (x : Except ε α) :
    Meters fuel refusal (liftM x : StateT σ (Except ε) α) x.toOption 0 := by
  intro s
  cases x with
  | ok a => exact ⟨fun b t hb => by cases hb; exact ⟨rfl, rfl⟩, nofun⟩
  | error e => exact ⟨nofun, fun _ _ => .inr rfl⟩

protected theorem bind {next : α → Option β} {rest : α → Nat}
    (hm : Meters fuel refusal m meaning work)
    (hf : ∀ a, meaning = some a → Meters fuel refusal (f a) (next a) (rest a)) :
    Meters fuel refusal (m >>= f) (meaning.bind next) (work + meaning.elim 0 rest) := by
  intro s
  rcases bind_run m f s with ⟨a, t, hstep, hrun⟩ | ⟨e, hstep, hrun⟩
  · obtain ⟨hmeaning, hspent⟩ := (hm s).1 a t hstep
    rw [hrun, hmeaning]
    refine ⟨fun b u hb => ?_, (hf a hmeaning t).2⟩
    obtain ⟨hnext, hrest⟩ := (hf a hmeaning t).1 b u hb
    exact ⟨hnext, by rw [Option.elim_some]; omega⟩
  · rw [hrun]
    refine ⟨nofun, fun e' he => ?_⟩
    cases he
    rcases (hm s).2 e hstep with hrefused | hnone
    · exact .inl hrefused
    · exact .inr (by rw [hnone]; rfl)

/-- After a computation that has a meaning. -/
theorem andThen {a : α} {next : Option β} {rest : Nat} (hm : Meters fuel refusal m (some a) work)
    (hf : Meters fuel refusal (f a) next rest) :
    Meters fuel refusal (m >>= f) next (work + rest) :=
  @Meters.bind σ ε α β fuel refusal m f (some a) work (fun _ => next) (fun _ => rest) hm
    fun b hb => by cases hb; exact hf

/-- A computation that goes on to return something of its result. -/
theorem returning (hm : Meters fuel refusal m meaning work) (g : α → β) :
    Meters fuel refusal (m >>= fun a => pure (g a)) (meaning.map g) work := by
  have h := hm.bind fun a _ => Meters.pure (g a)
  cases meaning with
  | none => exact h
  | some a => exact h

theorem ite {c : Prop} [Decidable c] {m' : StateT σ (Except ε) α} {meaning' : Option α}
    {work' : Nat} (hm : Meters fuel refusal m meaning work)
    (hm' : Meters fuel refusal m' meaning' work') :
    Meters fuel refusal (if c then m else m') (if c then meaning else meaning')
      (if c then work else work') := by
  by_cases hc : c
  · rw [if_pos hc, if_pos hc, if_pos hc]
    exact hm
  · rw [if_neg hc, if_neg hc, if_neg hc]
    exact hm'

/-- The same meaning; the work counts where there is one. -/
theorem congr {meaning' : Option α} {work' : Nat} (hm : Meters fuel refusal m meaning work)
    (hmeaning : meaning = meaning') (hwork : ∀ a, meaning = some a → work = work') :
    Meters fuel refusal m meaning' work' := by
  subst hmeaning
  intro s
  refine ⟨fun a t h => ?_, (hm s).2⟩
  obtain ⟨hsome, hspent⟩ := (hm s).1 a t h
  exact ⟨hsome, hwork a hsome ▸ hspent⟩

/-- A check behind a computation. -/
theorem guarded {g : α → StateT σ (Except ε) β} {rest : Nat}
    (hm : Meters fuel refusal m meaning work) (hg : ∀ a, Guards fuel refusal (g a) rest) :
    Meters fuel refusal (m >>= fun a => g a >>= fun _ => pure a) meaning (work + rest) := by
  refine (hm.bind fun a _ => (hg a).before fun _ => Meters.pure a).congr ?_ ?_
  · cases meaning <;> rfl
  · intro a ha
    cases meaning with
    | none => cases ha
    | some b => rfl

/-- A list of computations, one after the other. -/
theorem mapM {γ : Type} {f : γ → StateT σ (Except ε) β} {next : γ → Option β} {rest : γ → Nat}
    (hf : ∀ c, Meters fuel refusal (f c) (next c) (rest c)) (l : List γ) :
    Meters fuel refusal (l.mapM f) (l.mapM next) (l.map rest).sum := by
  induction l with
  | nil =>
      rw [List.mapM_nil, List.mapM_nil]
      exact Meters.pure []
  | cons c l ih =>
      rw [List.mapM_cons, List.mapM_cons, List.map_cons, List.sum_cons]
      refine ((hf c).bind fun b _ => (ih.bind fun bs _ => Meters.pure (b :: bs))).congr rfl ?_
      intro bs hbs
      obtain ⟨b, hb, hrest⟩ := Option.bind_eq_some_iff.mp hbs
      obtain ⟨bs', hbs', -⟩ := Option.bind_eq_some_iff.mp hrest
      rw [hb, hbs']
      rfl

end Meters

end Support
