import Pikamux.Support.Program

/-!
# Support — Sequential

Programs that are run from beginning to end, and programs over a part of the state.

* `rescue` — go on where a program fails.
* `zoom` — a program over a part of the state; `Sat.zoom` is what a specification of it says of the
  whole.
* `Executes` — what a program among others yields, and the state it leaves.
* `play` — the same without others and for given inputs; a program for which they do not suffice
  ends without a result.
-/

namespace Support.Program

variable {ι κ σ τ ε ρ α : Type} {rely guar : σ → σ → Prop} {post : ρ → σ → Prop} {s t u : σ}
  {r : ρ}

/-- Go on with `handler` where the program fails. -/
def rescue (p : Fallible ι σ ε α) (handler : ε → Fallible ι σ ε α) : Fallible ι σ ε α :=
  ExceptT.mk (p.run >>= fun r =>
    match r with
    | .ok a => pure (.ok a)
    | .error e => (handler e).run)

theorem sat_rescue {p : Fallible ι σ ε α} {handler : ε → Fallible ι σ ε α}
    {post : Except ε α → σ → Prop}
    (hp : Sat rely guar (fun r t => (∀ a, r = .ok a → post (.ok a) t) ∧
      ∀ e, r = .error e → Sat rely guar post (handler e).run t) p.run s) :
    Sat rely guar post (rescue p handler).run s := by
  refine Sat.bind hp fun r t hr => ?_
  cases r with
  | ok a => exact hr.1 a rfl
  | error e => exact hr.2 e rfl

/-- What every step does, all steps together do. -/
theorem Sat.reach {R : σ → σ → Prop} (hrefl : ∀ a, R a a)
    (htrans : ∀ a b c, R a b → R b c → R a c) (hrely : ∀ a b, rely a b → R a b)
    (hguar : ∀ a b, guar a b → R a b) {p : Program ι σ ρ} (h : Sat rely guar post p s) :
    Sat rely guar (fun r t => R s t ∧ post r t) p s := by
  induction p generalizing s with
  | done r => exact ⟨hrefl s, h⟩
  | step effect next ih =>
      intro i t ht
      obtain ⟨hstep, hnext⟩ := h i t ht
      refine ⟨hstep, (ih i t hnext).mono fun r u hr => ⟨?_, hr.2⟩⟩
      exact htrans s t u (hrely s t ht) (htrans t _ u (hguar t _ hstep) hr.1)

/-! ### A part of the state -/

/-- The program on the part `get` of a state, with the part `input` of what comes from outside. -/
def zoom (input : κ → ι) (get : τ → σ) (set : σ → τ → τ) : Program ι σ ρ → Program κ τ ρ
  | done r => done r
  | step effect next =>
      step (fun k t => set (effect (input k) (get t)) t) fun k t =>
        (next (input k) (get t)).zoom input get set

theorem Sat.zoom {input : κ → ι} {get : τ → σ} {set : σ → τ → τ} (hget : ∀ a t, get (set a t) = a)
    {rely' guar' : τ → τ → Prop} (hrely : ∀ t t', rely' t t' → rely (get t) (get t'))
    (hguar : ∀ t a, guar (get t) a → guar' t (set a t)) {p : Program ι σ ρ} {t : τ}
    (h : Sat rely guar post p (get t)) :
    Sat rely' guar' (fun r t => post r (get t)) (p.zoom input get set) t := by
  induction p generalizing t with
  | done r => exact h
  | step effect next ih =>
      intro k t' ht
      obtain ⟨hstep, hnext⟩ := h (input k) (get t') (hrely t t' ht)
      refine ⟨hguar t' _ hstep, ih (input k) (get t') ?_⟩
      rw [hget]
      exact hnext

/-! ### Execution -/

/-- Run among others, the program has the result `r` and leaves the state `u`. -/
inductive Executes (rely : σ → σ → Prop) : Program ι σ ρ → σ → ρ → σ → Prop where
  | done {r : ρ} {s : σ} : Executes rely (.done r) s r s
  | step {effect : ι → σ → σ} {next : ι → σ → Program ι σ ρ} {s t u : σ} {r : ρ} (i : ι)
      (ht : rely s t) (rest : Executes rely (next i t) (effect i t) r u) :
      Executes rely (.step effect next) s r u

theorem Sat.executes {p : Program ι σ ρ} (h : Sat rely guar post p s)
    (he : Executes rely p s r u) : post r u := by
  induction he with
  | done => exact h
  | step i ht _ ih => exact ih (h i _ ht).2

/-- The result and the last state for these inputs, when no one else acts. -/
def play : Program ι σ ρ → List ι → σ → Option ρ × σ
  | done r, _, s => (some r, s)
  | step _ _, [], s => (none, s)
  | step effect next, i :: inputs, s => (next i s).play inputs (effect i s)

theorem executes_of_play (hrefl : ∀ s, rely s s) {p : Program ι σ ρ} {inputs : List ι}
    (h : (p.play inputs s).1 = some r) : Executes rely p s r (p.play inputs s).2 := by
  induction p generalizing inputs s with
  | done r' =>
      cases h
      exact .done
  | step effect next ih =>
      cases inputs with
      | nil => cases h
      | cons i inputs => exact .step i (hrefl s) (ih i s h)

/-- What every step does, a program does that is played alone; wherever it ends. -/
theorem Sat.play {R : σ → σ → Prop} (hrefl : ∀ a, R a a) (htrans : ∀ a b c, R a b → R b c → R a c)
    {p : Program ι σ ρ} (h : Sat Eq R post p s) (inputs : List ι) :
    R s (p.play inputs s).2 ∧
      ∀ r, (p.play inputs s).1 = some r → post r (p.play inputs s).2 := by
  induction p generalizing inputs s with
  | done r' =>
      refine ⟨hrefl s, ?_⟩
      rintro r ⟨⟩
      exact h
  | step effect next ih =>
      cases inputs with
      | nil =>
          refine ⟨hrefl s, ?_⟩
          rintro r ⟨⟩
      | cons i inputs =>
          obtain ⟨hstep, hnext⟩ := h i s rfl
          obtain ⟨hrest, hpost⟩ := ih i s hnext inputs
          exact ⟨htrans s _ _ hstep hrest, hpost⟩

end Support.Program
