import Pikamux.Support.History
import Pikamux.Support.Result

/-!
# Support — Program

Programs that share a state.  A program is a tree of atomic steps; a step changes the state and
yields what the program goes on with.  Each step is given an input from outside, such as a fresh
identifier or a failure.  Other programs may run between two steps.

* `Sat` — a program that is run among others keeps a guarantee with each of its steps and ends in a
  postcondition, as long as the others keep to what it relies on.  There is a rule for each way to
  build a program.
* `Pool` — programs that run at the same time, one step after the other in any order.  A program
  that has its result may still end without returning it.
* `Pool.Satisfied.move`, `Pool.satisfied` — when each program satisfies its specification from the
  start, every step of a run is within the guarantee of its program and every result satisfies the
  postcondition.
-/

namespace Support

/-- A program over the state `σ` with inputs `ι`: it is done, or takes an atomic step. -/
inductive Program (ι σ ρ : Type) where
  | done (r : ρ)
  | step (effect : ι → σ → σ) (next : ι → σ → Program ι σ ρ)

namespace Program

variable {ι σ ρ α β ε : Type}

protected def bind : Program ι σ α → (α → Program ι σ β) → Program ι σ β
  | done a, k => k a
  | step effect next, k => step effect fun i s => (next i s).bind k

instance : Monad (Program ι σ) where
  pure := done
  bind := Program.bind

/-- One atomic step. -/
def act (f : ι → σ → α × σ) : Program ι σ α :=
  step (fun i s => (f i s).2) fun i s => done (f i s).1

/-- A program that may fail. -/
abbrev Fallible (ι σ ε α : Type) := ExceptT ε (Program ι σ) α

/-- A transaction; one that fails leaves the state as it was. -/
def transaction (f : ι → σ → Except ε (α × σ)) : Fallible ι σ ε α :=
  ExceptT.mk (act fun i => atomically (f i))

/-- Fail as `x` does. -/
def check (x : Except ε α) : Fallible ι σ ε α := ExceptT.mk (done x)

/-- Fail with `e` unless `c` holds. -/
abbrev require (c : Bool) (e : ε) : Fallible ι σ ε Unit := check (ensure c e)

/-- The value of an option, or the failure `e`. -/
abbrev expect (e : ε) (o : Option α) : Fallible ι σ ε α := check (context e o)

/-- Read the state. -/
def query (f : σ → Except ε α) : Fallible ι σ ε α := ExceptT.mk (act fun _ s => (f s, s))

/-! ### Specifications -/

/-- Started in a state among others that keep to `rely`, every step is in `guar` and the result and
the last state satisfy `post`. -/
def Sat (rely guar : σ → σ → Prop) (post : ρ → σ → Prop) : Program ι σ ρ → σ → Prop
  | done r, s => post r s
  | step effect next, s => ∀ i t, rely s t →
      guar t (effect i t) ∧ Sat rely guar post (next i t) (effect i t)

variable {rely guar : σ → σ → Prop} {post : ρ → σ → Prop} {s t : σ}

theorem Sat.mono {post' : ρ → σ → Prop} {p : Program ι σ ρ} (h : Sat rely guar post p s)
    (hpost : ∀ r t, post r t → post' r t) : Sat rely guar post' p s := by
  induction p generalizing s with
  | done r => exact hpost r s h
  | step effect next ih =>
      intro i t ht
      obtain ⟨hguar, hnext⟩ := h i t ht
      exact ⟨hguar, ih i t hnext⟩

/-- Less may happen in between, and more is allowed. -/
theorem Sat.weaken {rely' guar' : σ → σ → Prop} {p : Program ι σ ρ} (h : Sat rely guar post p s)
    (hrely : ∀ a b, rely' a b → rely a b) (hguar : ∀ a b, guar a b → guar' a b) :
    Sat rely' guar' post p s := by
  induction p generalizing s with
  | done r => exact h
  | step effect next ih =>
      intro i t ht
      obtain ⟨hg, hnext⟩ := h i t (hrely s t ht)
      exact ⟨hguar _ _ hg, ih i t hnext⟩

/-- What others do between two steps does not matter. -/
theorem Sat.stable {p : Program ι σ ρ} (h : Sat rely guar post p s) (ht : rely s t)
    (htrans : ∀ a b c, rely a b → rely b c → rely a c)
    (hpost : ∀ r a b, post r a → rely a b → post r b) : Sat rely guar post p t := by
  cases p with
  | done r => exact hpost r s t h ht
  | step effect next => exact fun i u hu => h i u (htrans s t u ht hu)

theorem Sat.bind {post' : α → σ → Prop} {p : Program ι σ α} {k : α → Program ι σ ρ}
    (h : Sat rely guar post' p s) (hk : ∀ a t, post' a t → Sat rely guar post (k a) t) :
    Sat rely guar post (p >>= k) s := by
  induction p generalizing s with
  | done a => exact hk a s h
  | step effect next ih =>
      intro i t ht
      obtain ⟨hguar, hnext⟩ := h i t ht
      exact ⟨hguar, ih i t hnext⟩

/-- A program that satisfies several postconditions. -/
theorem Sat.forall {J : Type} {guar' : σ → σ → Prop} {post' : J → ρ → σ → Prop}
    {p : Program ι σ ρ} (h : Sat rely guar post p s) (hall : ∀ j, Sat rely guar' (post' j) p s) :
    Sat rely guar (fun r t => post r t ∧ ∀ j, post' j r t) p s := by
  induction p generalizing s with
  | done r => exact ⟨h, hall⟩
  | step effect next ih =>
      intro i t ht
      obtain ⟨hguar, hnext⟩ := h i t ht
      exact ⟨hguar, ih i t hnext fun j => (hall j i t ht).2⟩

section Fallible

variable {post : Except ε β → σ → Prop} {k : α → Fallible ι σ ε β}

theorem sat_check {x : Except ε α} (hok : ∀ a, x = .ok a → Sat rely guar post (k a).run s)
    (herror : ∀ e, x = .error e → post (.error e) s) :
    Sat rely guar post ((check x : Fallible ι σ ε α) >>= k).run s := by
  cases x with
  | ok a => exact hok a rfl
  | error e => exact herror e rfl

theorem sat_query {f : σ → Except ε α}
    (hguar : ∀ t, rely s t → guar t t)
    (hok : ∀ t a, rely s t → f t = .ok a → Sat rely guar post (k a).run t)
    (herror : ∀ t e, rely s t → f t = .error e → post (.error e) t) :
    Sat rely guar post ((query f : Fallible ι σ ε α) >>= k).run s := by
  intro i t ht
  refine ⟨hguar t ht, ?_⟩
  change Sat rely guar post (ExceptT.bindCont k (f t)) t
  cases hf : f t with
  | ok a => exact hok t a ht hf
  | error e => exact herror t e ht hf

theorem sat_transaction {f : ι → σ → Except ε (α × σ)}
    (hok : ∀ i t a u, rely s t → f i t = .ok (a, u) →
      guar t u ∧ Sat rely guar post (k a).run u)
    (herror : ∀ i t e, rely s t → f i t = .error e → guar t t ∧ post (.error e) t) :
    Sat rely guar post ((transaction f : Fallible ι σ ε α) >>= k).run s := by
  intro i t ht
  change guar t (atomically (f i) t).2 ∧
    Sat rely guar post (ExceptT.bindCont k (atomically (f i) t).1) (atomically (f i) t).2
  rcases atomically_eq (f i) t with ⟨a, u, hf, heq⟩ | ⟨e, hf, heq⟩
  · rw [heq]
    exact hok i t a u ht hf
  · rw [heq]
    exact herror i t e ht hf

/-- A transaction at the end of a program. -/
theorem sat_transaction_last {post : Except ε α → σ → Prop} {f : ι → σ → Except ε (α × σ)}
    (hok : ∀ i t a u, rely s t → f i t = .ok (a, u) → guar t u ∧ post (.ok a) u)
    (herror : ∀ i t e, rely s t → f i t = .error e → guar t t ∧ post (.error e) t) :
    Sat rely guar post (transaction f : Fallible ι σ ε α).run s := by
  intro i t ht
  change guar t (atomically (f i) t).2 ∧ post (atomically (f i) t).1 (atomically (f i) t).2
  rcases atomically_eq (f i) t with ⟨a, u, hf, heq⟩ | ⟨e, hf, heq⟩
  · rw [heq]
    exact hok i t a u ht hf
  · rw [heq]
    exact herror i t e ht hf

end Fallible

/-! ### What success means -/

section Yields

variable {rely guar : σ → σ → Prop} {s t : σ} {k : α → Fallible ι σ ε β} {post : α → σ → Prop}
  {post' : β → σ → Prop}

/-- Every step is in `guar`; when it succeeds, the result and the last state satisfy `post`. -/
abbrev Yields (rely guar : σ → σ → Prop) (post : α → σ → Prop) (p : Fallible ι σ ε α) (s : σ) :
    Prop :=
  Sat rely guar (fun r t => ∀ a, r = .ok a → post a t) p.run s

theorem Yields.imp {post' : α → σ → Prop} {p : Fallible ι σ ε α} (h : Yields rely guar post p s)
    (hpost : ∀ a t, post a t → post' a t) : Yields rely guar post' p s :=
  h.mono fun _ t hr a ha => hpost a t (hr a ha)

theorem yields_pure {a : α} (h : post a s) :
    Yields rely guar post (pure a : Fallible ι σ ε α) s := by
  rintro _ ⟨⟩
  exact h

theorem yields_check {x : Except ε α} (h : ∀ a, x = .ok a → post a s) :
    Yields rely guar post (check x : Fallible ι σ ε α) s :=
  h

theorem yields_bind (post : α → σ → Prop) {p : Fallible ι σ ε α} (hp : Yields rely guar post p s)
    (hk : ∀ a t, post a t → Yields rely guar post' (k a) t) :
    Yields rely guar post' (p >>= k) s := by
  refine Sat.bind hp fun r t hr => ?_
  cases r with
  | ok a => exact hk a t (hr a rfl)
  | error e =>
      rintro _ ⟨⟩

theorem Yields.bind {p : Fallible ι σ ε α} (hp : Yields rely guar post p s)
    (hk : ∀ a t, post a t → Yields rely guar post' (k a) t) : Yields rely guar post' (p >>= k) s :=
  yields_bind post hp hk

theorem yields_query {f : σ → Except ε α} (hguar : ∀ s, guar s s)
    (h : ∀ t a, rely s t → f t = .ok a → post a t) :
    Yields rely guar post (query f : Fallible ι σ ε α) s :=
  fun _ t ht => ⟨hguar t, fun a ha => h t a ht ha⟩

theorem yields_transaction {f : ι → σ → Except ε (α × σ)} (hguar : ∀ s, guar s s)
    (h : ∀ i t a u, rely s t → f i t = .ok (a, u) → guar t u ∧ post a u) :
    Yields rely guar post (transaction f : Fallible ι σ ε α) s := by
  refine sat_transaction_last (fun i t a u ht hf => ?_) fun i t e _ _ => ⟨hguar t, ?_⟩
  · obtain ⟨hg, hpost⟩ := h i t a u ht hf
    refine ⟨hg, ?_⟩
    rintro _ ⟨⟩
    exact hpost
  · rintro _ ⟨⟩

/-- A loop whose iterations each lead to `P`. -/
theorem yields_forM {P : σ → Prop} {l : List α} {f : α → Fallible ι σ ε PUnit} (hl : l ≠ [])
    (hf : ∀ a ∈ l, ∀ t, Yields rely guar (fun _ => P) (f a) t) (s : σ) :
    Yields rely guar (fun _ => P) (l.forM f) s := by
  induction l generalizing s with
  | nil => exact absurd rfl hl
  | cons a l ih =>
      change Yields rely guar (fun _ => P) (f a >>= fun _ => l.forM f) s
      refine yields_bind (fun _ => P) (hf a (by simp) s) fun _ t ht => ?_
      cases l with
      | nil => exact yields_pure ht
      | cons b l => exact ih (by simp) (fun c hc => hf c (List.mem_cons_of_mem a hc)) t

end Yields

/-! ### Steps whatever the others do -/

section Within

variable {k : α → Fallible ι σ ε β} {f : ι → σ → Except ε (α × σ)}

/-- Every step is in `guar`, whatever the state it finds. -/
abbrev Within (guar : σ → σ → Prop) (p : Program ι σ ρ) : Prop :=
  ∀ s, Sat (fun _ _ => True) guar (fun _ _ => True) p s

theorem Within.yields {rely guar' : σ → σ → Prop} {p : Fallible ι σ ε α} {s : σ}
    (h : Within guar p.run) (hguar : ∀ a b, guar a b → guar' a b) :
    Yields rely guar' (fun _ _ => True) p s :=
  ((h s).weaken (fun _ _ _ => trivial) hguar).mono fun _ _ _ _ _ => trivial

theorem within_check {x : Except ε α} (hk : ∀ a, Within guar (k a).run) :
    Within guar ((check x : Fallible ι σ ε α) >>= k).run :=
  fun s => sat_check (fun a _ => hk a s) fun _ _ => trivial

theorem within_pure {a : α} : Within guar (pure a : Fallible ι σ ε α).run := fun _ => trivial

theorem within_bind {p : Fallible ι σ ε α} (hp : Within guar p.run)
    (hk : ∀ a, Within guar (k a).run) : Within guar (p >>= k).run := by
  intro s
  refine Sat.bind (hp s) fun r t _ => ?_
  cases r with
  | ok a => exact hk a t
  | error e => trivial

theorem within_query {f : σ → Except ε α} (hguar : ∀ s, guar s s) :
    Within guar (query f : Fallible ι σ ε α).run :=
  fun _ _ t _ => ⟨hguar t, trivial⟩

theorem within_transaction (hguar : ∀ s, guar s s)
    (hf : ∀ i s a t, f i s = .ok (a, t) → guar s t) :
    Within guar (transaction f : Fallible ι σ ε α).run :=
  fun _ => sat_transaction_last (fun i s a t _ h => ⟨hf i s a t h, trivial⟩)
    fun _ s _ _ _ => ⟨hguar s, trivial⟩

theorem within_forM {l : List α} {f : α → Fallible ι σ ε PUnit}
    (hf : ∀ a ∈ l, Within guar (f a).run) : Within guar (l.forM f).run := by
  induction l with
  | nil => exact within_pure
  | cons a l ih =>
      change Within guar (f a >>= fun _ => l.forM f).run
      exact within_bind (hf a (by simp)) fun _ => ih fun b hb => hf b (List.mem_cons_of_mem a hb)

end Within

/-! ### Last steps -/

section Closing

/-- What the last step does, with the result that it leaves. -/
def Closing (P : σ → σ → ρ → Prop) : Program ι σ ρ → Prop
  | done _ => True
  | step effect next => ∀ i s,
      (∀ r, next i s = done r → P s (effect i s) r) ∧ Closing P (next i s)

theorem Closing.bind {Q : σ → σ → α → Prop} {P : σ → σ → ρ → Prop} {p : Program ι σ α}
    {k : α → Program ι σ ρ} (hp : p.Closing Q) (hk : ∀ a, (k a).Closing P)
    (hlast : ∀ s t a r, Q s t a → k a = done r → P s t r) : (p >>= k).Closing P := by
  induction p with
  | done a => exact hk a
  | step effect next ih =>
      intro i s
      obtain ⟨hdone, hnext⟩ := hp i s
      refine ⟨fun r hr => ?_, ih i s hnext⟩
      change (next i s).bind k = done r at hr
      cases h : next i s with
      | done a =>
          rw [h] at hr
          exact hlast s _ a r (hdone a h) hr
      | step effect' next' =>
          rw [h] at hr
          cases hr

/-- It is not done yet, and succeeds only with a step that does `P`. -/
structure Ends (P : σ → σ → α → Prop) (p : Fallible ι σ ε α) : Prop where
  pending : ∀ a, p.run ≠ done (.ok a)
  closing : p.run.Closing fun s t r => ∀ a, r = .ok a → P s t a

theorem closing_trivial (p : Program ι σ ρ) : p.Closing fun _ _ _ => True := by
  induction p with
  | done r => trivial
  | step effect next ih => exact fun i s => ⟨fun _ _ => trivial, ih i s⟩

/-- Whatever comes before. -/
theorem Ends.after {P : σ → σ → β → Prop} (p : Fallible ι σ ε α) {k : α → Fallible ι σ ε β}
    (hk : ∀ a, Ends P (k a)) : Ends P (p >>= k) where
  pending b h := by
    change p.run >>= _ = done (Except.ok b) at h
    cases hp : p.run with
    | done r =>
        rw [hp] at h
        cases r with
        | ok a => exact (hk a).pending b h
        | error e => cases h
    | step effect next =>
        rw [hp] at h
        cases h
  closing := by
    refine Closing.bind (closing_trivial p.run) (fun r => ?_) fun s t r r' _ h b hb => ?_
    · cases r with
      | ok a => exact (hk a).closing
      | error e => trivial
    · cases r with
      | ok a => exact absurd (hb ▸ h) ((hk a).pending b)
      | error e =>
          subst hb
          cases h

/-- What is returned of the result. -/
theorem Ends.map {P : σ → σ → α → Prop} {P' : σ → σ → β → Prop} {p : Fallible ι σ ε α} {g : α → β}
    (hp : Ends P p) (hg : ∀ s t a, P s t a → P' s t (g a)) :
    Ends P' (p >>= fun a => pure (g a)) where
  pending b h := by
    change p.run >>= _ = done (Except.ok b) at h
    cases hr : p.run with
    | done r =>
        rw [hr] at h
        cases r with
        | ok a => exact hp.pending a hr
        | error e => cases h
    | step effect next =>
        rw [hr] at h
        cases h
  closing := by
    refine Closing.bind hp.closing (fun r => ?_) fun s t r r' hq h b hb => ?_
    · cases r <;> trivial
    · cases r with
      | ok a =>
          subst hb
          cases h
          exact hg s t a (hq a rfl)
      | error e =>
          subst hb
          cases h

/-- A transaction at the end. -/
theorem ends_transaction {P : σ → σ → α → Prop} {f : ι → σ → Except ε (α × σ)}
    (hf : ∀ i s a t, f i s = .ok (a, t) → P s t a) :
    Ends P (transaction f : Fallible ι σ ε α) where
  pending b h := by cases h
  closing := by
    refine fun i s => ⟨?_, trivial⟩
    rintro _ ⟨⟩ a ha
    change (atomically (f i) s).1 = .ok a at ha
    change P s (atomically (f i) s).2 a
    exact hf i s a _ (run_of_atomically ha)

/-- After a check that is passed. -/
theorem ends_check {P : σ → σ → β → Prop} {x : Except ε α} {k : α → Fallible ι σ ε β}
    (hk : ∀ a, x = .ok a → Ends P (k a)) : Ends P ((check x : Fallible ι σ ε α) >>= k) := by
  cases x with
  | ok a => exact hk a rfl
  | error e =>
      refine ⟨fun b h => ?_, trivial⟩
      cases h

end Closing

section Committing

variable {k : α → Fallible ι σ ε β}

/-- Only a step that ends it with a value changes the state. -/
def Commits : Program ι σ (Except ε α) → Prop
  | done _ => True
  | step effect next => ∀ i s,
      (effect i s = s ∨ ∃ a, next i s = done (.ok a)) ∧ Commits (next i s)

theorem commits_check {x : Except ε α} (hk : ∀ a, (k a).run.Commits) :
    ((check x : Fallible ι σ ε α) >>= k).run.Commits := by
  cases x with
  | ok a => exact hk a
  | error e => trivial

theorem commits_query {f : σ → Except ε α} (hk : ∀ a, (k a).run.Commits) :
    ((query f : Fallible ι σ ε α) >>= k).run.Commits := by
  refine fun i s => ⟨.inl rfl, ?_⟩
  change (ExceptT.bindCont k (f s)).Commits
  cases f s with
  | ok a => exact hk a
  | error e => trivial

theorem commits_transaction {f : ι → σ → Except ε (α × σ)} :
    (transaction f : Fallible ι σ ε α).run.Commits := by
  refine fun i s => ⟨?_, trivial⟩
  change (atomically (f i) s).2 = s ∨ ∃ a, done (atomically (f i) s).1 = done (.ok a)
  rcases atomically_eq (f i) s with ⟨a, t, -, heq⟩ | ⟨e, -, heq⟩
  · exact .inr ⟨a, by rw [heq]⟩
  · exact .inl (by rw [heq])

/-- What is returned of the result. -/
theorem commits_map {p : Fallible ι σ ε α} (g : α → β) (hp : p.run.Commits) :
    (p >>= fun a => pure (g a)).run.Commits := by
  change Commits (p.run.bind (ExceptT.bindCont fun a => pure (g a)))
  generalize p.run = p at hp
  induction p with
  | done r => cases r <;> trivial
  | step effect next ih =>
      intro i s
      obtain ⟨hstep, hnext⟩ := hp i s
      refine ⟨hstep.imp_right fun ⟨a, ha⟩ => ⟨g a, ?_⟩, ih i s hnext⟩
      change (next i s).bind _ = done (Except.ok (g a))
      rw [ha]
      rfl

end Committing

end Program

/-! ### Programs that run at the same time -/

/-- A program that is run for a call, with the results that there were when it was started. -/
structure Task (ι σ ρ γ : Type) where
  call : γ
  since : List (γ × ρ)
  rest : Program ι σ ρ

structure Pool (ι σ ρ γ : Type) where
  shared : σ
  tasks : List (Task ι σ ρ γ) := []
  /-- The results so far, returned or not. -/
  reached : List (γ × ρ) := []

inductive Move (ι γ : Type) where
  | start (call : γ)
  /-- The program at this place takes its next step, or returns its result. -/
  | advance (place : Nat) (input : ι)
  /-- The program at this place ends and returns nothing. -/
  | crash (place : Nat)

/-- What a program returned. -/
structure Answer (ρ γ : Type) where
  call : γ
  since : List (γ × ρ)
  result : ρ
  deriving DecidableEq, Repr

namespace Pool

variable {ι σ ρ γ : Type}

/-- The result of a program that is done. -/
def outcome (call : γ) : Program ι σ ρ → List (γ × ρ)
  | .done r => [(call, r)]
  | .step _ _ => []

def advance (place : Nat) (input : ι) (pool : Pool ι σ ρ γ) :
    Option (Answer ρ γ) × Pool ι σ ρ γ :=
  match pool.tasks[place]? with
  | none => (none, pool)
  | some ⟨call, since, .done r⟩ =>
      (some ⟨call, since, r⟩, { pool with tasks := pool.tasks.eraseIdx place })
  | some ⟨call, since, .step effect next⟩ =>
      (none,
        { pool with
          shared := effect input pool.shared
          tasks := pool.tasks.set place ⟨call, since, next input pool.shared⟩
          reached := pool.reached ++ outcome call (next input pool.shared) })

/-- A move of the pool in which calls run `code`. -/
def move (code : γ → Program ι σ ρ) : Move ι γ → Pool ι σ ρ γ → Option (Answer ρ γ) × Pool ι σ ρ γ
  | .start call, pool =>
      (none,
        { pool with
          tasks := pool.tasks ++ [⟨call, pool.reached, code call⟩]
          reached := pool.reached ++ outcome call (code call) })
  | .advance place input, pool => pool.advance place input
  | .crash place, pool => (none, { pool with tasks := pool.tasks.eraseIdx place })

variable {code : γ → Program ι σ ρ} {rely : σ → σ → Prop} {guar : γ → σ → σ → Prop}
  {post : γ → List (γ × ρ) → ρ → σ → Prop} {I : List (γ × ρ) → σ → Prop}

/-- What programs satisfy from the start on they satisfy in a pool. -/
structure Specified (code : γ → Program ι σ ρ) (rely : σ → σ → Prop) (guar : γ → σ → σ → Prop)
    (post : γ → List (γ × ρ) → ρ → σ → Prop) (I : List (γ × ρ) → σ → Prop) : Prop where
  refl : ∀ s, rely s s
  trans : ∀ s t u, rely s t → rely t u → rely s u
  /-- Each program keeps to what the others rely on. -/
  relied : ∀ call s t, guar call s t → rely s t
  stable : ∀ call since r s t, post call since r s → rely s t → post call since r t
  /-- What is known of results stays true. -/
  known : ∀ reached s t, I reached s → rely s t → I reached t
  /-- A result adds to what is known. -/
  learned : ∀ reached call since r s, I reached s → post call since r s →
    I (reached ++ [(call, r)]) s
  started : ∀ call since s, I since s → Program.Sat rely (guar call) (post call since) (code call) s

/-- The invariant of a pool. -/
structure Satisfied (rely : σ → σ → Prop) (guar : γ → σ → σ → Prop)
    (post : γ → List (γ × ρ) → ρ → σ → Prop) (I : List (γ × ρ) → σ → Prop)
    (pool : Pool ι σ ρ γ) : Prop where
  known : I pool.reached pool.shared
  tasks : ∀ task ∈ pool.tasks,
    Program.Sat rely (guar task.call) (post task.call task.since) task.rest pool.shared

/-- A program that is done has a result of which its postcondition holds. -/
theorem Specified.outcome (hspec : Specified code rely guar post I) {reached since : List (γ × ρ)}
    {call : γ} {p : Program ι σ ρ} {s : σ} (h : I reached s)
    (hsat : Program.Sat rely (guar call) (post call since) p s) :
    I (reached ++ outcome call p) s := by
  cases p with
  | done r => exact hspec.learned reached call since r s h hsat
  | step effect next => exact (List.append_nil reached).symm ▸ h

theorem Satisfied.drop {pool : Pool ι σ ρ γ} (h : Satisfied rely guar post I pool) (place : Nat) :
    Satisfied rely guar post I { pool with tasks := pool.tasks.eraseIdx place } where
  known := h.known
  tasks task htask := h.tasks task (List.mem_of_mem_eraseIdx htask)

/-- What a move does to the shared state, and what it returns. -/
theorem Satisfied.move (hspec : Specified code rely guar post I) {pool : Pool ι σ ρ γ}
    (h : Satisfied rely guar post I pool) (m : Move ι γ) :
    Satisfied rely guar post I (pool.move code m).2 ∧
      ((pool.move code m).2.shared = pool.shared ∨
        ∃ place input, m = .advance place input ∧ ∃ task, pool.tasks[place]? = some task ∧
          guar task.call pool.shared (pool.move code m).2.shared) ∧
      ∀ answer, (pool.move code m).1 = some answer →
        post answer.call answer.since answer.result pool.shared := by
  cases m with
  | start call =>
      have hstarted := hspec.started call pool.reached pool.shared h.known
      refine ⟨⟨hspec.outcome h.known hstarted, fun task htask => ?_⟩, .inl rfl, by simp [Pool.move]⟩
      rcases List.mem_append.mp htask with htask | htask
      · exact h.tasks task htask
      · rw [List.mem_singleton.mp htask]
        exact hstarted
  | crash place => exact ⟨h.drop place, .inl rfl, by simp [Pool.move]⟩
  | advance place input =>
      rw [Pool.move]
      cases htask : pool.tasks[place]? with
      | none =>
          have hmove : pool.advance place input = (none, pool) := by rw [advance, htask]
          rw [hmove]
          exact ⟨h, .inl rfl, by simp⟩
      | some task =>
          obtain ⟨call, since, rest⟩ := task
          have hsat := h.tasks _ (List.mem_of_getElem? htask)
          cases rest with
          | done r =>
              have hmove : pool.advance place input = (some ⟨call, since, r⟩,
                  { pool with tasks := pool.tasks.eraseIdx place }) := by
                rw [advance, htask]
              rw [hmove]
              refine ⟨h.drop place, .inl rfl, fun answer hanswer => ?_⟩
              cases hanswer
              exact hsat
          | step effect next =>
              have hmove : pool.advance place input = (none, ⟨effect input pool.shared,
                  pool.tasks.set place ⟨call, since, next input pool.shared⟩,
                  pool.reached ++ outcome call (next input pool.shared)⟩) := by
                rw [advance, htask]
              rw [hmove]
              obtain ⟨hguar, hnext⟩ := hsat input pool.shared (hspec.refl _)
              have hrely := hspec.relied call _ _ hguar
              have hknown := hspec.outcome (hspec.known _ _ _ h.known hrely) hnext
              refine ⟨⟨hknown, fun task hmem => ?_⟩, ?_, by simp⟩
              · -- the others are stable under this step
                rcases List.mem_or_eq_of_mem_set hmem with hmem | rfl
                · exact (h.tasks task hmem).stable hrely hspec.trans (hspec.stable _ _)
                · exact hnext
              · exact .inr ⟨place, input, rfl, _, htask, hguar⟩

/-- **Runs of a pool.**  When every call satisfies its specification, so does every run. -/
theorem satisfied (hspec : Specified code rely guar post I) {s : σ} (hs : I [] s)
    {entries : List (Entry (Pool ι σ ρ γ) (Move ι γ) (Option (Answer ρ γ)))} {pool : Pool ι σ ρ γ}
    (h : History (fun m pool => pool.move code m) NoDrift { shared := s } entries pool) :
    Satisfied rely guar post I pool :=
  h.invariant (Satisfied rely guar post I) ⟨hs, by simp⟩ (fun m _ hu => (hu.move hspec m).1)
    (NoDrift.keeps _)

/-- Results are only added. -/
theorem reached_grows (code : γ → Program ι σ ρ) (pool : Pool ι σ ρ γ) (m : Move ι γ) :
    ∃ new, (pool.move code m).2.reached = pool.reached ++ new := by
  cases m with
  | start call => exact ⟨_, rfl⟩
  | crash place => exact ⟨[], (List.append_nil _).symm⟩
  | advance place input =>
      rw [Pool.move, advance]
      split
      · exact ⟨[], (List.append_nil _).symm⟩
      · exact ⟨[], (List.append_nil _).symm⟩
      · exact ⟨_, rfl⟩

/-- What every step of a program leaves to be so. -/
def Hereditary (Q : Program ι σ ρ → Prop) : Prop :=
  ∀ effect next i s, Q (.step effect next) → Q (next i s)

/-- What is left of a call has what the call has from the start. -/
theorem rest {Q : γ → Program ι σ ρ → Prop} {s : σ}
    {entries : List (Entry (Pool ι σ ρ γ) (Move ι γ) (Option (Answer ρ γ)))} {pool : Pool ι σ ρ γ}
    (hcode : ∀ call, Q call (code call)) (hnext : ∀ call, Hereditary (Q call))
    (h : History (fun m pool => pool.move code m) NoDrift { shared := s } entries pool) :
    ∀ task ∈ pool.tasks, Q task.call task.rest := by
  refine h.invariant (fun pool => ∀ task ∈ pool.tasks, Q task.call task.rest) (by simp)
    (fun m pool hpool => ?_) (NoDrift.keeps _)
  have hdrop (place : Nat) : ∀ task ∈ pool.tasks.eraseIdx place, Q task.call task.rest :=
    fun task htask => hpool task (List.mem_of_mem_eraseIdx htask)
  cases m with
  | start call =>
      intro task htask
      rcases List.mem_append.mp htask with htask | htask
      · exact hpool task htask
      · rw [List.mem_singleton.mp htask]
        exact hcode call
  | crash place => exact hdrop place
  | advance place input =>
      dsimp only [Pool.move]
      rw [advance]
      split
      case h_1 => exact hpool
      case h_2 => exact hdrop place
      case h_3 call since effect next htask =>
        intro task hmem
        rcases List.mem_or_eq_of_mem_set hmem with hmem | rfl
        · exact hpool task hmem
        · exact hnext call effect next input pool.shared
            (hpool _ (List.mem_of_getElem? htask))

/-- A step of a call that is not done yet. -/
theorem move_step (code : γ → Program ι σ ρ) {pool : Pool ι σ ρ γ} {place : Nat} {call : γ}
    {since : List (γ × ρ)} {effect : ι → σ → σ} {next : ι → σ → Program ι σ ρ}
    (htask : pool.tasks[place]? = some ⟨call, since, .step effect next⟩) (input : ι) :
    pool.move code (.advance place input) = (none,
      { shared := effect input pool.shared
        tasks := pool.tasks.set place ⟨call, since, next input pool.shared⟩
        reached := pool.reached ++ outcome call (next input pool.shared) }) := by
  rw [Pool.move, advance, htask]

/-- The move that leads to a result. -/
theorem reached_step {pool : Pool ι σ ρ γ} {m : Move ι γ} {call : γ} {r : ρ}
    (hcode : code call ≠ .done r)
    (h : (pool.move code m).2.reached = pool.reached ++ [(call, r)]) :
    ∃ place input since effect next, m = .advance place input ∧
      pool.tasks[place]? = some ⟨call, since, .step effect next⟩ ∧
      next input pool.shared = .done r ∧
      (pool.move code m).2.shared = effect input pool.shared := by
  cases m with
  | start call' =>
      have h := List.append_cancel_left (h : pool.reached ++ outcome call' (code call') = _)
      cases hc : code call' with
      | done r' =>
          rw [hc] at h
          cases h
          exact absurd hc hcode
      | step effect next =>
          rw [hc] at h
          cases h
  | crash place => simp [Pool.move] at h
  | advance place input =>
      cases htask : pool.tasks[place]? with
      | none => simp [Pool.move, advance, htask] at h
      | some task =>
          obtain ⟨call', since, rest⟩ := task
          cases rest with
          | done r' => simp [Pool.move, advance, htask] at h
          | step effect next =>
              rw [move_step code htask] at h ⊢
              have h := List.append_cancel_left h
              cases hn : next input pool.shared with
              | done r' =>
                  rw [hn] at h
                  cases h
                  exact ⟨place, input, since, effect, next, rfl, htask, hn, rfl⟩
              | step effect' next' =>
                  rw [hn] at h
                  cases h

/-! ### Pools whose calls only promise what their steps do -/

variable {δ ε : Type} {code : γ → Program ι σ (Except ε δ)} {guar : γ → σ → σ → Prop}
  {P : γ → σ → σ → δ → Prop} {pool : Pool ι σ (Except ε δ) γ}

theorem specified_of_within (hcode : ∀ call, Program.Within (guar call) (code call)) :
    Specified code (fun _ _ => True) guar (fun _ _ _ _ => True) fun _ _ => True where
  refl _ := trivial
  trans _ _ _ _ _ := trivial
  relied _ _ _ _ := trivial
  stable _ _ _ _ _ _ _ := trivial
  known _ _ _ _ _ := trivial
  learned _ _ _ _ _ _ _ := trivial
  started call _ s _ := hcode call s

/-- A move takes one step of one call, or leaves the shared state as it is. -/
theorem within_move (hcode : ∀ call, Program.Within (guar call) (code call)) {s : σ}
    {entries : List (Entry (Pool ι σ (Except ε δ) γ) (Move ι γ) (Option (Answer (Except ε δ) γ)))}
    (h : History (fun m pool => pool.move code m) NoDrift { shared := s } entries pool)
    (m : Move ι γ) : (pool.move code m).2.shared = pool.shared ∨
      ∃ place input, m = .advance place input ∧ ∃ task, pool.tasks[place]? = some task ∧
        guar task.call pool.shared (pool.move code m).2.shared :=
  ((satisfied (specified_of_within hcode) trivial h).move (specified_of_within hcode) m).2.1

/-- What is left of each call. -/
def Closes (P : γ → σ → σ → δ → Prop) (pool : Pool ι σ (Except ε δ) γ) : Prop :=
  ∀ task ∈ pool.tasks, task.rest.Closing fun s t r => ∀ b, r = .ok b → P task.call s t b

/-- A move that leads to a result is the last step of its call. -/
theorem Closes.move (hcode : ∀ call, Program.Ends (P call) (ExceptT.mk (code call)))
    (h : Closes P pool) (m : Move ι γ) : Closes P (pool.move code m).2 ∧
      ∀ call b, (pool.move code m).2.reached = pool.reached ++ [(call, .ok b)] →
        P call pool.shared (pool.move code m).2.shared b := by
  have hkept : ∀ rest, pool.reached = pool.reached ++ [rest] → False := by
    intro rest hrest
    simp at hrest
  have hdrop (place : Nat) : Closes P { pool with tasks := pool.tasks.eraseIdx place } :=
    fun task htask => h task (List.mem_of_mem_eraseIdx htask)
  cases m with
  | start call =>
      refine ⟨fun task htask => ?_, fun call' b hb => ?_⟩
      · rcases List.mem_append.mp htask with htask | htask
        · exact h task htask
        · rw [List.mem_singleton.mp htask]
          exact (hcode call).closing
      · have hb := List.append_cancel_left (hb : pool.reached ++ outcome call (code call) = _)
        cases hc : code call with
        | done r =>
            rw [hc] at hb
            cases hb
            exact absurd hc ((hcode call).pending b)
        | step effect next =>
            rw [hc] at hb
            cases hb
  | crash place => exact ⟨hdrop place, fun _ _ hb => (hkept _ hb).elim⟩
  | advance place input =>
      rw [Pool.move]
      cases htask : pool.tasks[place]? with
      | none =>
          have hmove : pool.advance place input = (none, pool) := by rw [advance, htask]
          rw [hmove]
          exact ⟨h, fun _ _ hb => (hkept _ hb).elim⟩
      | some task =>
          obtain ⟨call, since, rest⟩ := task
          have hclosing := h _ (List.mem_of_getElem? htask)
          cases rest with
          | done r =>
              have hmove : pool.advance place input = (some ⟨call, since, r⟩,
                  { pool with tasks := pool.tasks.eraseIdx place }) := by
                rw [advance, htask]
              rw [hmove]
              exact ⟨hdrop place, fun _ _ hb => (hkept _ hb).elim⟩
          | step effect next =>
              have hmove : pool.advance place input = (none, ⟨effect input pool.shared,
                  pool.tasks.set place ⟨call, since, next input pool.shared⟩,
                  pool.reached ++ outcome call (next input pool.shared)⟩) := by
                rw [advance, htask]
              rw [hmove]
              obtain ⟨hdone, hnext⟩ := hclosing input pool.shared
              refine ⟨fun task hmem => ?_, fun call' b hb => ?_⟩
              · rcases List.mem_or_eq_of_mem_set hmem with hmem | rfl
                · exact h task hmem
                · exact hnext
              · have hb := List.append_cancel_left hb
                cases hn : next input pool.shared with
                | done r =>
                    rw [hn] at hb
                    cases hb
                    exact hdone _ hn b rfl
                | step effect' next' =>
                    rw [hn] at hb
                    cases hb

theorem closes (hcode : ∀ call, Program.Ends (P call) (ExceptT.mk (code call))) {s : σ}
    {entries : List (Entry (Pool ι σ (Except ε δ) γ) (Move ι γ) (Option (Answer (Except ε δ) γ)))}
    (h : History (fun m pool => pool.move code m) NoDrift { shared := s } entries pool) :
    Closes P pool :=
  h.invariant (Closes P) (fun _ htask => by cases htask) (fun m _ hu => (hu.move hcode m).1)
    (NoDrift.keeps _)

end Pool

end Support
