import Pikamux.Support.Program

/-!
# Support — Interrupt

Programs whose operations may fail, before they took effect or after it, and that may stop after any
of them.  One program runs at a time.

* `operate`, `inspect`, `attempt`, `onError` — how such programs are built, each with its rule.
* `Kept` — a program that runs alone keeps an invariant with each of its steps.
* `Succeeds` — a program that runs alone to its end succeeds, as long as its inputs are fair.
* `Serial` — programs run one after the other; the next may start where the last one stopped.
* `Serial.satisfied` — what each step of each program guarantees holds of each step of a run.
-/

namespace Support

namespace Program

variable {ι σ ρ α β ε : Type}

/-- What goes wrong with an operation: whether it took effect, and the failure. -/
abbrev Fault (ε : Type) := Option (Bool × ε)

/-- An operation that may fail before it took effect or after it. -/
def operate (fault : ι → Fault ε) (f : ι → σ → Except ε (α × σ)) : Fallible ι σ ε α :=
  ExceptT.mk (act fun i s =>
    match fault i with
    | none => atomically (f i) s
    | some (false, e) => (.error e, s)
    | some (true, e) => (.error e, (atomically (f i) s).2))

/-- A read, which may fail too. -/
def inspect (fault : ι → Fault ε) (f : σ → Except ε α) : Fallible ι σ ε α :=
  ExceptT.mk (act fun i s =>
    match fault i with
    | none => (f s, s)
    | some (_, e) => (.error e, s))

/-- Go on whether it succeeds or not. -/
def attempt (p : Fallible ι σ ε α) : Fallible ι σ ε (Except ε α) :=
  ExceptT.mk (p.run >>= fun r => .done (.ok r))

/-- When it fails, do something about it and fail. -/
def onError (p : Fallible ι σ ε α) (undo : Fallible ι σ ε β) : Fallible ι σ ε α := do
  match ← attempt p with
  | .ok a => return a
  | .error e =>
      let _ ← attempt undo
      check (.error e)

/-! ### Rules for programs that run alone -/

section Alone

variable {guar : σ → σ → Prop} {fault : ι → Fault ε} {s : σ}

/-- The program keeps to its guarantee, and what it returns satisfies the postcondition. -/
abbrev Alone (guar : σ → σ → Prop) (post : Except ε α → σ → Prop) (p : Fallible ι σ ε α) (s : σ) :
    Prop :=
  Sat Eq guar post p.run s

variable {post : Except ε β → σ → Prop} {k : α → Fallible ι σ ε β}

/-- What every step guarantees of the state, and the start has, the end has. -/
theorem Sat.always {I : σ → Prop} {post : ρ → σ → Prop} {p : Program ι σ ρ}
    (h : Sat Eq guar post p s) (hs : I s) (hguar : ∀ a b, guar a b → I b) :
    Sat Eq guar (fun r t => post r t ∧ I t) p s := by
  induction p generalizing s with
  | done r => exact ⟨h, hs⟩
  | step effect next ih =>
      intro i t ht
      obtain ⟨hg, hnext⟩ := h i t ht
      exact ⟨hg, ih i t hnext (hguar _ _ hg)⟩

/-- What an operation that has effect does; one that fails leaves the state as it was or does the
same. -/
theorem alone_operate {f : ι → σ → Except ε (α × σ)} {post : Except ε α → σ → Prop}
    (hself : guar s s) (hguar : ∀ i a t, f i s = .ok (a, t) → guar s t ∧ post (.ok a) t)
    (herror : ∀ e, post (.error e) s)
    (hafter : ∀ i a t, f i s = .ok (a, t) → ∀ e, post (.error e) t) :
    Alone guar post (operate fault f) s := by
  rintro i _ rfl
  change guar s _ ∧ post _ _
  dsimp only
  rcases atomically_eq (f i) s with ⟨a, t, hf, heq⟩ | ⟨e, hf, heq⟩
  · obtain ⟨hg, hpost⟩ := hguar i a t hf
    cases hfault : fault i with
    | none => simpa [heq] using ⟨hg, hpost⟩
    | some x =>
        obtain ⟨after, e⟩ := x
        cases after with
        | false => exact ⟨hself, herror e⟩
        | true => simpa [heq] using ⟨hg, hafter i a t hf e⟩
  · cases hfault : fault i with
    | none => simpa [heq] using ⟨hself, herror e⟩
    | some x =>
        obtain ⟨after, e'⟩ := x
        cases after with
        | false => exact ⟨hself, herror e'⟩
        | true => simpa [heq] using ⟨hself, herror e'⟩

theorem alone_inspect {f : σ → Except ε α} {post : Except ε α → σ → Prop} (hself : guar s s)
    (hok : ∀ a, f s = .ok a → post (.ok a) s) (herror : ∀ e, post (.error e) s) :
    Alone guar post (inspect fault f) s := by
  rintro i _ rfl
  change guar s _ ∧ post _ _
  dsimp only
  cases hfault : fault i with
  | none =>
      refine ⟨hself, ?_⟩
      cases hf : f s with
      | ok a => exact hok a hf
      | error e => exact herror e
  | some x => exact ⟨hself, herror x.2⟩

theorem alone_bind (post' : Except ε α → σ → Prop) {p : Fallible ι σ ε α}
    (hp : Alone guar post' p s) (hok : ∀ a t, post' (.ok a) t → Alone guar post (k a) t)
    (herror : ∀ e t, post' (.error e) t → post (.error e) t) : Alone guar post (p >>= k) s := by
  refine Sat.bind hp fun r t hr => ?_
  cases r with
  | ok a => exact hok a t hr
  | error e => exact herror e t hr

theorem alone_attempt {p : Fallible ι σ ε α} {post : Except ε (Except ε α) → σ → Prop}
    (hp : Alone guar (fun r t => post (.ok r) t) p s) : Alone guar post (attempt p) s :=
  Sat.bind hp fun _ _ hr => hr

theorem alone_onError {γ : Type} {p : Fallible ι σ ε α} {undo : Fallible ι σ ε γ}
    {post : Except ε α → σ → Prop} (post' : Except ε α → σ → Prop)
    (hp : Alone guar post' p s) (hok : ∀ a t, post' (.ok a) t → post (.ok a) t)
    (hundo : ∀ e t, post' (.error e) t → Alone guar (fun _ u => post (.error e) u) undo t) :
    Alone guar post (onError p undo) s := by
  refine alone_bind (fun r t => ∃ r', r = .ok r' ∧ post' r' t)
    (alone_attempt (hp.mono fun r t hr => ⟨r, rfl, hr⟩)) ?_ ?_
  · rintro r t ⟨_, ⟨⟩, hr⟩
    cases r with
    | ok a => exact hok a t hr
    | error e =>
        refine alone_bind (fun r u => (∃ r', r = .ok r') ∧ post (.error e) u)
          (alone_attempt ((hundo e t hr).mono fun r u hu => ⟨⟨r, rfl⟩, hu⟩)) ?_ ?_
        · rintro _ u ⟨-, hu⟩
          exact hu
        · rintro e' u ⟨⟨_, ⟨⟩⟩, -⟩
  · rintro e t ⟨_, ⟨⟩, -⟩

end Alone

/-! ### Invariants of programs that run alone -/

section Kept

variable {I : σ → Prop} {guar : σ → σ → Prop} {post : α → σ → Prop} {post' : β → σ → Prop} {s : σ}
  {k : α → Fallible ι σ ε β}

/-- Every step keeps the invariant, and a result satisfies the postcondition. -/
abbrev Kept (I : σ → Prop) (post : α → σ → Prop) (p : Fallible ι σ ε α) (s : σ) : Prop :=
  Sat Eq (fun _ t => I t) (fun r t => I t ∧ ∀ a, r = .ok a → post a t) p.run s

theorem Kept.imp {post' : α → σ → Prop} {p : Fallible ι σ ε α} (h : Kept I post p s)
    (hpost : ∀ a t, I t → post a t → post' a t) : Kept I post' p s :=
  h.mono fun _ t hr => ⟨hr.1, fun a ha => hpost a t hr.1 (hr.2 a ha)⟩

theorem kept_pure {a : α} (hs : I s) (h : post a s) : Kept I post (pure a : Fallible ι σ ε α) s := by
  refine ⟨hs, ?_⟩
  rintro _ ⟨⟩
  exact h

theorem kept_check {x : Except ε α} (hs : I s) (h : ∀ a, x = .ok a → post a s) :
    Kept I post (check x : Fallible ι σ ε α) s :=
  ⟨hs, h⟩

theorem kept_bind (post : α → σ → Prop) {p : Fallible ι σ ε α} (hp : Kept I post p s)
    (hk : ∀ a t, I t → post a t → Kept I post' (k a) t) : Kept I post' (p >>= k) s := by
  refine Sat.bind hp fun r t hr => ?_
  cases r with
  | ok a => exact hk a t hr.1 (hr.2 a rfl)
  | error e =>
      refine ⟨hr.1, ?_⟩
      rintro _ ⟨⟩

theorem kept_query {f : σ → Except ε α} (hs : I s) (h : ∀ a, f s = .ok a → post a s) :
    Kept I post (query f : Fallible ι σ ε α) s := by
  rintro i _ rfl
  exact ⟨hs, hs, h⟩

theorem kept_transaction {f : ι → σ → Except ε (α × σ)} (hs : I s)
    (h : ∀ i a t, f i s = .ok (a, t) → I t ∧ post a t) :
    Kept I post (transaction f : Fallible ι σ ε α) s := by
  rintro i _ rfl
  change I (atomically (f i) s).2 ∧ I (atomically (f i) s).2 ∧
    ∀ a, (atomically (f i) s).1 = .ok a → post a (atomically (f i) s).2
  rcases atomically_eq (f i) s with ⟨a, t, hf, heq⟩ | ⟨e, hf, heq⟩
  · obtain ⟨ht, hpost⟩ := h i a t hf
    rw [heq]
    refine ⟨ht, ht, ?_⟩
    rintro _ ⟨⟩
    exact hpost
  · rw [heq]
    refine ⟨hs, hs, ?_⟩
    rintro _ ⟨⟩

/-- Steps that are of no matter to the invariant. -/
theorem kept_within {p : Fallible ι σ ε α} (h : Within guar p.run)
    (hguar : ∀ a b, guar a b → I a → I b) (hs : I s) : Kept I (fun _ _ => True) p s := by
  have haux (q : Program ι σ (Except ε α)) (t : σ)
      (hq : Sat (fun _ _ => True) guar (fun _ _ => True) q t) (ht : I t) :
      Sat Eq (fun _ t => I t) (fun r t => I t ∧ ∀ a, r = .ok a → True) q t := by
    induction q generalizing t with
    | done r => exact ⟨ht, fun _ _ => trivial⟩
    | step effect next ih =>
        rintro i _ rfl
        obtain ⟨hg, hnext⟩ := hq i t trivial
        have ht' := hguar _ _ hg ht
        exact ⟨ht', ih i t _ hnext ht'⟩
  exact haux p.run s (h s) hs

/-- Steps that keep something else too. -/
theorem kept_frame (J : σ → Prop) {p : Fallible ι σ ε α} (h : Within guar p.run)
    (hguar : ∀ a b, guar a b → I a → J a → I b ∧ J b) (hs : I s) (hJ : J s) :
    Kept I (fun _ t => J t) p s := by
  have hboth := kept_within (I := fun t => I t ∧ J t) h (fun a b hab ha => hguar a b hab ha.1 ha.2)
    ⟨hs, hJ⟩
  exact (hboth.weaken (fun _ _ h => h) fun _ _ h => h.1).mono
    fun r t hr => ⟨hr.1.1, fun _ _ => hr.1.2⟩

/-- What only reads leaves the state as it is. -/
theorem kept_reads {p : Fallible ι σ ε α} (h : Within Eq p.run) (hs : I s) :
    Kept I (fun _ t => t = s) p s := by
  have hsame := kept_within (I := (· = s)) h (fun a b hab ha => hab ▸ ha) rfl
  exact (hsame.weaken (fun _ _ h => h) fun _ t ht => ht ▸ hs).mono
    fun r t hr => ⟨hr.1 ▸ hs, fun _ _ => hr.1⟩

end Kept

/-! ### Programs that run to their end -/

section Succeeds

/-- Run alone, with fair inputs, it succeeds and its result satisfies the postcondition. -/
def Succeeds (fair : σ → ι → Prop) (post : α → σ → Prop) : Program ι σ (Except ε α) → σ → Prop
  | .done (.ok a), s => post a s
  | .done (.error _), _ => False
  | .step effect next, s => ∀ i, fair s i → Succeeds fair post (next i s) (effect i s)

variable {fair : σ → ι → Prop} {post : α → σ → Prop} {post' : β → σ → Prop} {s : σ}
  {k : α → Fallible ι σ ε β}

theorem succeeds_pure {a : α} (h : post a s) :
    Succeeds fair post (pure a : Fallible ι σ ε α).run s :=
  h

theorem succeeds_check {x : Except ε α} {a : α} (hx : x = .ok a) (h : post a s) :
    Succeeds fair post (check x : Fallible ι σ ε α).run s := by
  subst hx
  exact h

theorem succeeds_query {f : σ → Except ε α} {a : α} (hf : f s = .ok a) (h : post a s) :
    Succeeds fair post (query f : Fallible ι σ ε α).run s := by
  intro i _
  change Succeeds fair post (.done (f s)) s
  rw [hf]
  exact h

theorem succeeds_transaction {f : ι → σ → Except ε (α × σ)}
    (h : ∀ i, fair s i → ∃ a t, f i s = .ok (a, t) ∧ post a t) :
    Succeeds fair post (transaction f : Fallible ι σ ε α).run s := by
  intro i hi
  obtain ⟨a, t, hf, hpost⟩ := h i hi
  change Succeeds fair post (.done (atomically (f i) s).1) (atomically (f i) s).2
  rw [atomically, hf]
  exact hpost

theorem succeeds_bind (post : α → σ → Prop) {p : Fallible ι σ ε α}
    (hp : Succeeds fair post p.run s)
    (hk : ∀ a t, post a t → Succeeds fair post' (k a).run t) :
    Succeeds fair post' (p >>= k).run s := by
  have haux (q : Program ι σ (Except ε α)) (t : σ) (hq : Succeeds fair post q t) :
      Succeeds fair post' (q >>= ExceptT.bindCont k) t := by
    induction q generalizing t with
    | done r =>
        cases r with
        | ok a => exact hk a t hq
        | error e => exact hq.elim
    | step effect next ih => exact fun i hi => ih i t _ (hq i hi)
  exact haux p.run s hp

theorem Succeeds.imp {post' : α → σ → Prop} {p : Program ι σ (Except ε α)}
    (h : Succeeds fair post p s) (hpost : ∀ a t, post a t → post' a t) :
    Succeeds fair post' p s := by
  induction p generalizing s with
  | done r =>
      cases r with
      | ok a => exact hpost a s h
      | error e => exact h
  | step effect next ih => exact fun i hi => ih i s (h i hi)

/-- The states that the steps of a program find, and its result, when every input is the same. -/
def trace (i : ι) : Program ι σ ρ → σ → List σ × ρ
  | .done r, _ => ([], r)
  | .step effect next, s =>
      let rest := trace i (next i s) (effect i s)
      (s :: rest.1, rest.2)

/-- When the input is fair all along, such a program does not fail. -/
theorem Succeeds.trace {p : Program ι σ (Except ε α)} {i : ι} {run : List σ × Except ε α}
    (h : Succeeds fair post p s) (hrun : Program.trace i p s = run)
    (hfair : ∀ t ∈ run.1, fair t i) : ∃ a, run.2 = .ok a := by
  subst hrun
  induction p generalizing s with
  | done r =>
      cases r with
      | ok a => exact ⟨a, rfl⟩
      | error e => exact h.elim
  | step effect next ih =>
      exact ih i s (h i (hfair s (List.mem_cons_self ..)))
        fun t ht => hfair t (List.mem_cons_of_mem _ ht)

-- from here on the rules, not the runs of a program
attribute [irreducible] Succeeds

end Succeeds

end Program

/-! ### One program at a time -/

structure Serial (ι σ ρ γ : Type) where
  shared : σ
  /-- The call that runs, and what is left of it. -/
  running : Option (γ × Program ι σ ρ) := none

namespace Serial

variable {ι σ ρ γ : Type}

inductive Move (ι γ : Type) where
  /-- Begin a call, if none is running. -/
  | start (call : γ)
  /-- The next operation, or the end. -/
  | advance (input : ι)
  /-- Stop where it is. -/
  | stop
  deriving DecidableEq, Repr

def move (code : γ → Program ι σ ρ) (m : Move ι γ) (machine : Serial ι σ ρ γ) :
    Option (γ × ρ) × Serial ι σ ρ γ :=
  match m, machine.running with
  | .start call, none => (none, { machine with running := some (call, code call) })
  | .start _, some _ => (none, machine)
  | .advance _, none => (none, machine)
  | .advance _, some (call, .done r) => (some (call, r), { machine with running := none })
  | .advance input, some (call, .step effect next) =>
      (none, ⟨effect input machine.shared, some (call, next input machine.shared)⟩)
  | .stop, _ => (none, { machine with running := none })

variable {code : γ → Program ι σ ρ} {guar : γ → σ → σ → Prop} {I : σ → Prop}

/-- What is left of a call keeps to its guarantee. -/
abbrev Keeps (guar : σ → σ → Prop) (p : Program ι σ ρ) (s : σ) : Prop :=
  Program.Sat Eq guar (fun _ _ => True) p s

/-- The invariant of such a machine. -/
structure Satisfied (guar : γ → σ → σ → Prop) (I : σ → Prop) (machine : Serial ι σ ρ γ) : Prop where
  known : I machine.shared
  running : ∀ call p, machine.running = some (call, p) → Keeps (guar call) p machine.shared

/-- What a move does to the shared state. -/
theorem Satisfied.move (hcode : ∀ call s, I s → Keeps (guar call) (code call) s)
    (hguar : ∀ call s t, I s → guar call s t → I t) {machine : Serial ι σ ρ γ}
    (h : Satisfied guar I machine) (m : Move ι γ) :
    Satisfied guar I (machine.move code m).2 ∧
      ((machine.move code m).2.shared = machine.shared ∨
        ∃ call p, machine.running = some (call, p) ∧
          guar call machine.shared (machine.move code m).2.shared) := by
  obtain ⟨shared, running⟩ := machine
  have hidle : Satisfied guar I ({ shared } : Serial ι σ ρ γ) := ⟨h.known, fun _ _ hp => by cases hp⟩
  cases m with
  | start call =>
      cases running with
      | none =>
          refine ⟨⟨h.known, ?_⟩, .inl rfl⟩
          rintro _ _ ⟨⟩
          exact hcode call shared h.known
      | some r => exact ⟨h, .inl rfl⟩
  | stop => exact ⟨hidle, .inl rfl⟩
  | advance input =>
      cases running with
      | none => exact ⟨h, .inl rfl⟩
      | some r =>
          obtain ⟨call, p⟩ := r
          cases p with
          | done r => exact ⟨hidle, .inl rfl⟩
          | step effect next =>
              obtain ⟨hg, hnext⟩ := h.running call _ rfl input shared rfl
              refine ⟨⟨hguar call _ _ h.known hg, ?_⟩, .inr ⟨call, _, rfl, hg⟩⟩
              rintro _ _ ⟨⟩
              exact hnext

/-- **Runs.**  Every state of a run satisfies the invariant, and a step that changes the shared
state is within the guarantee of its call. -/
theorem satisfied (hcode : ∀ call s, I s → Keeps (guar call) (code call) s)
    (hguar : ∀ call s t, I s → guar call s t → I t) {s : σ} (hs : I s)
    {entries : List (Entry (Serial ι σ ρ γ) (Move ι γ) (Option (γ × ρ)))} {machine : Serial ι σ ρ γ}
    (h : History (fun m machine => machine.move code m) NoDrift { shared := s } entries machine) :
    Satisfied guar I machine :=
  h.invariant (Satisfied guar I) ⟨hs, fun _ _ hp => by cases hp⟩
    (fun m _ hu => (hu.move hcode hguar m).1) (NoDrift.keeps _)

end Serial

end Support
