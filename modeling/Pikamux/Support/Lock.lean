import Pikamux.Support.Program

/-!
# Support — Lock

Programs that share a state and a lock.  A call that wants the lock is run with it when it is free,
and without it when another call has it; what ends or crashes gives it back.

* `Specified` — what the steps of a call guarantee and what it may rely on, with the lock and
  without it.  Everything is under the proviso that the steps of the run are `calm`.
* `Locked.Satisfied.move` — a move is one step of one call within its guarantee.
* `Locked.Satisfied.run` — what a whole run keeps.
-/

namespace Support

variable {ι σ ρ γ : Type}

/-- What is left of a call, and the state in which it was started. -/
structure Job (ι σ ρ γ : Type) where
  call : γ
  started : σ
  rest : Program ι σ ρ

structure Locked (ι σ ρ γ : Type) where
  shared : σ
  /-- The call that has the lock. -/
  holder : Option (Job ι σ ρ γ) := none
  others : List (Job ι σ ρ γ) := []

namespace Locked

/-- The holder of the lock, or the place of another call. -/
inductive Place where
  | holder
  | other (place : Nat)
  deriving DecidableEq, Repr

inductive Move (ι γ : Type) where
  | start (call : γ)
  | advance (place : Place) (input : ι)
  | crash (place : Place)
  deriving DecidableEq, Repr

structure Answer (σ ρ γ : Type) where
  call : γ
  started : σ
  result : ρ

/-- The call at a place. -/
def job (machine : Locked ι σ ρ γ) : Place → Option (Job ι σ ρ γ)
  | .holder => machine.holder
  | .other place => machine.others[place]?

/-- The call at a place has ended. -/
def drop (machine : Locked ι σ ρ γ) : Place → Locked ι σ ρ γ
  | .holder => { machine with holder := none }
  | .other place => { machine with others := machine.others.eraseIdx place }

/-- The call at a place goes on as `job`. -/
def resume (machine : Locked ι σ ρ γ) (job : Job ι σ ρ γ) : Place → Locked ι σ ρ γ
  | .holder => { machine with holder := some job }
  | .other place => { machine with others := machine.others.set place job }

def advance (machine : Locked ι σ ρ γ) (place : Place) (input : ι) :
    Option (Answer σ ρ γ) × Locked ι σ ρ γ :=
  match machine.job place with
  | none => (none, machine)
  | some ⟨call, started, .done r⟩ => (some ⟨call, started, r⟩, machine.drop place)
  | some ⟨call, started, .step effect next⟩ =>
      (none, { machine with shared := effect input machine.shared }.resume
        ⟨call, started, next input machine.shared⟩ place)

/-- A move; `code` runs a call, with the lock or without it. -/
def move (wants : γ → Bool) (code : γ → Bool → Program ι σ ρ) (m : Move ι γ)
    (machine : Locked ι σ ρ γ) : Option (Answer σ ρ γ) × Locked ι σ ρ γ :=
  match m with
  | .start call =>
      if wants call && machine.holder.isNone then
        (none, { machine with holder := some ⟨call, machine.shared, code call true⟩ })
      else
        (none, { machine with
          others := machine.others ++ [⟨call, machine.shared, code call false⟩] })
  | .advance place input => machine.advance place input
  | .crash place => (none, machine.drop place)

/-- Whether the call at a place has the lock. -/
def Place.held : Place → Bool
  | holder => true
  | other _ => false

section Satisfied

variable {wants : γ → Bool} {code : γ → Bool → Program ι σ ρ} {calm : σ → σ → Prop}
  {rely : Bool → σ → σ → Prop} {guar : Bool → γ → σ → σ → σ → Prop} {post : γ → σ → ρ → σ → Prop}
  {I : σ → Prop}

/-- What calls satisfy from the start on they satisfy next to each other. -/
structure Specified (code : γ → Bool → Program ι σ ρ) (calm : σ → σ → Prop)
    (rely : Bool → σ → σ → Prop) (guar : Bool → γ → σ → σ → σ → Prop)
    (post : γ → σ → ρ → σ → Prop) (I : σ → Prop) : Prop where
  refl : ∀ held s, rely held s s
  trans : ∀ held s t u, rely held s t → rely held t u → rely held s u
  /-- Two calls do not have the lock at the same time. -/
  relied : ∀ held held' call started s t, ¬ (held = true ∧ held' = true) →
    guar held call started s t → calm s t → rely held' s t
  stable : ∀ held call started r s t, post call started r s → rely held s t →
    post call started r t
  known : ∀ held call started s t, I s → guar held call started s t → calm s t → I t
  started : ∀ held call s, I s →
    Program.Sat (rely held) (guar held call s) (post call s) (code call held) s

/-- The invariant of such a machine. -/
structure Satisfied (rely : Bool → σ → σ → Prop) (guar : Bool → γ → σ → σ → σ → Prop)
    (post : γ → σ → ρ → σ → Prop) (I : σ → Prop) (machine : Locked ι σ ρ γ) : Prop where
  known : I machine.shared
  holder : ∀ job, machine.holder = some job →
    Program.Sat (rely true) (guar true job.call job.started) (post job.call job.started) job.rest
      machine.shared
  others : ∀ job ∈ machine.others,
    Program.Sat (rely false) (guar false job.call job.started) (post job.call job.started) job.rest
      machine.shared

theorem Satisfied.idle {s : σ} (hs : I s) :
    Satisfied rely guar post I ({ shared := s } : Locked ι σ ρ γ) := by
  refine ⟨hs, ?_, ?_⟩
  · rintro _ ⟨⟩
  · rintro _ ⟨⟩

variable {machine : Locked ι σ ρ γ}

theorem Satisfied.job (h : Satisfied rely guar post I machine) {place : Place} {job : Job ι σ ρ γ}
    (hjob : machine.job place = some job) :
    Program.Sat (rely place.held) (guar place.held job.call job.started)
      (post job.call job.started) job.rest machine.shared := by
  cases place with
  | holder => exact h.holder job hjob
  | other place => exact h.others job (List.mem_of_getElem? hjob)

theorem Satisfied.drop (h : Satisfied rely guar post I machine) (place : Place) :
    Satisfied rely guar post I (machine.drop place) := by
  cases place with
  | holder =>
      refine ⟨h.known, ?_, h.others⟩
      rintro _ ⟨⟩
  | other place =>
      exact ⟨h.known, h.holder, fun job hjob => h.others job (List.mem_of_mem_eraseIdx hjob)⟩

theorem shared_drop (machine : Locked ι σ ρ γ) (place : Place) :
    (machine.drop place).shared = machine.shared := by
  cases place <;> rfl

theorem shared_resume (machine : Locked ι σ ρ γ) (job : Job ι σ ρ γ) (place : Place) :
    (machine.resume job place).shared = machine.shared := by
  cases place <;> rfl

/-- One step of the call at a place; the others go on as before. -/
theorem Satisfied.resume (hspec : Specified code calm rely guar post I)
    (h : Satisfied rely guar post I machine) {place : Place} {call : γ} {started t : σ}
    {rest : Program ι σ ρ}
    (hguar : guar place.held call started machine.shared t) (hcalm : calm machine.shared t)
    (hrest : Program.Sat (rely place.held) (guar place.held call started) (post call started)
      rest t) :
    Satisfied rely guar post I
      ({ machine with shared := t }.resume ⟨call, started, rest⟩ place) := by
  have hknown := hspec.known _ _ _ _ _ h.known hguar hcalm
  cases place with
  | holder =>
      have hrely := hspec.relied true false call started _ _ (by simp) hguar hcalm
      refine ⟨hknown, ?_, fun job hjob => ?_⟩
      · rintro _ ⟨⟩
        exact hrest
      · exact (h.others job hjob).stable hrely (hspec.trans false) fun r a b =>
          hspec.stable false _ _ r a b
  | other place =>
      have hrely (held : Bool) : rely held machine.shared t :=
        hspec.relied false held call started _ _ (by simp) hguar hcalm
      refine ⟨hknown, fun job hjob => ?_, fun job hjob => ?_⟩
      · exact (h.holder job hjob).stable (hrely true) (hspec.trans true) fun r a b =>
          hspec.stable true _ _ r a b
      · rcases List.mem_or_eq_of_mem_set hjob with hjob | rfl
        · exact (h.others job hjob).stable (hrely false) (hspec.trans false) fun r a b =>
            hspec.stable false _ _ r a b
        · exact hrest

/-- What a move does to the shared state, and what it returns. -/
theorem Satisfied.move (wants : γ → Bool) (hspec : Specified code calm rely guar post I)
    (h : Satisfied rely guar post I machine) (m : Move ι γ)
    (hcalm : calm machine.shared (machine.move wants code m).2.shared) :
    Satisfied rely guar post I (machine.move wants code m).2 ∧
      ((machine.move wants code m).2.shared = machine.shared ∨
        ∃ place job, machine.job place = some job ∧
          guar place.held job.call job.started machine.shared
            (machine.move wants code m).2.shared) ∧
      ∀ answer, (machine.move wants code m).1 = some answer →
        post answer.call answer.started answer.result machine.shared := by
  cases m with
  | start call =>
      have hstarted (held : Bool) := hspec.started held call machine.shared h.known
      rw [Locked.move] at hcalm ⊢
      by_cases hfree : (wants call && machine.holder.isNone) = true
      · rw [if_pos hfree]
        refine ⟨⟨h.known, ?_, h.others⟩, .inl rfl, by simp⟩
        rintro _ ⟨⟩
        exact hstarted true
      · rw [if_neg hfree]
        refine ⟨⟨h.known, h.holder, fun job hjob => ?_⟩, .inl rfl, by simp⟩
        rcases List.mem_append.mp hjob with hjob | hjob
        · exact h.others job hjob
        · rw [List.mem_singleton.mp hjob]
          exact hstarted false
  | crash place => exact ⟨h.drop place, .inl (shared_drop machine place), by simp [Locked.move]⟩
  | advance place input =>
      rw [Locked.move] at hcalm ⊢
      cases hjob : machine.job place with
      | none =>
          have hmove : machine.advance place input = (none, machine) := by rw [advance, hjob]
          rw [hmove]
          exact ⟨h, .inl rfl, by simp⟩
      | some job =>
          obtain ⟨call, started, rest⟩ := job
          have hsat := h.job hjob
          cases rest with
          | done r =>
              have hmove : machine.advance place input =
                  (some ⟨call, started, r⟩, machine.drop place) := by
                rw [advance, hjob]
              rw [hmove]
              refine ⟨h.drop place, .inl (shared_drop machine place), fun answer hanswer => ?_⟩
              cases hanswer
              exact hsat
          | step effect next =>
              have hmove : machine.advance place input = (none,
                  { machine with shared := effect input machine.shared }.resume
                    ⟨call, started, next input machine.shared⟩ place) := by
                rw [advance, hjob]
              rw [hmove] at hcalm ⊢
              rw [shared_resume] at hcalm ⊢
              obtain ⟨hguar, hrest⟩ := hsat input machine.shared (hspec.refl _ _)
              exact ⟨h.resume hspec hguar hcalm hrest, .inr ⟨place, _, hjob, hguar⟩, by simp⟩

/-- The steps of a run are calm. -/
def Calm (wants : γ → Bool) (code : γ → Bool → Program ι σ ρ) (calm : σ → σ → Prop)
    (entries : List (Entry (Locked ι σ ρ γ) (Move ι γ) (Option (Answer σ ρ γ)))) : Prop :=
  ∀ e ∈ entries, calm e.before.shared (e.before.move wants code e.call).2.shared

/-- **Runs.**  What is kept by every step of every call holds at the end of a run. -/
theorem Satisfied.run (hspec : Specified code calm rely guar post I)
    (h : Satisfied rely guar post I machine) (P : σ → Prop) (hP : P machine.shared)
    (hstep : ∀ held call started s t, I s → P s → guar held call started s t → calm s t → P t)
    {entries : List (Entry (Locked ι σ ρ γ) (Move ι γ) (Option (Answer σ ρ γ)))}
    {later : Locked ι σ ρ γ}
    (hrun : History (fun m machine => machine.move wants code m) NoDrift machine entries later)
    (hcalm : Calm wants code calm entries) :
    Satisfied rely guar post I later ∧ P later.shared := by
  refine hrun.invariant_entries (fun es u => Calm wants code calm es →
    Satisfied rely guar post I u ∧ P u.shared) (fun _ => ⟨h, hP⟩) ?_
    (fun _ _ _ _ hdrift => hdrift.elim) hcalm
  intro es u m _ ih hes
  obtain ⟨hu, hPu⟩ := ih fun e he => hes e (List.mem_append_left _ he)
  have hlast := hes _ (List.mem_append_right es (List.mem_singleton_self _))
  obtain ⟨hnext, hshared, -⟩ := hu.move wants hspec m hlast
  refine ⟨hnext, ?_⟩
  rcases hshared with hshared | ⟨place, job, -, hguar⟩
  · exact hshared.symm ▸ hPu
  · exact hstep _ _ _ _ _ hu.known hPu hguar hlast

end Satisfied

end Locked

end Support
