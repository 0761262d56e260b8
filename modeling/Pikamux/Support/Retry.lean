import Pikamux.Support.Program

/-!
# Support — Retry

Programs that may be run again.  A program is settled on a result when it returns that result from
now on, without changing the state; exceptions are failures that are listed.  A program is retriable
when a run that succeeds settles it on its result.

* `Retriable.bind` — a sequence of retriable programs is retriable.
* `retriable_check`, `retriable_query`, `retriable_transaction` — checks are, reads whose successes
  last, and transactions that only repeat their result.
* `Retriable.frame` — facts that last are kept.
-/

namespace Support.Program

variable {ι σ α β ε : Type}

/-- What a retry yields: the result, or one of the failures that are excepted. -/
def Again (except : ε → σ → Prop) (a : α) (r : Except ε α) (s : σ) : Prop :=
  r = .ok a ∨ ∃ e, r = .error e ∧ except e s

/-- From this state on the program returns `a` and changes nothing. -/
def Settled (rely : σ → σ → Prop) (except : ε → σ → Prop) (p : Fallible ι σ ε α) (a : α) (s : σ) :
    Prop :=
  ∀ t, rely s t → Sat rely Eq (Again except a) p.run t

/-- Started where `pre` holds, a run that succeeds settles the program on its result, of which
`fact` holds. -/
def Retriable (rely guar : σ → σ → Prop) (except : ε → σ → Prop) (pre : σ → Prop)
    (fact : α → σ → Prop) (p : Fallible ι σ ε α) : Prop :=
  ∀ s, pre s → Sat rely guar
    (fun r t => ∀ a, r = .ok a → fact a t ∧ Settled rely except p a t) p.run s

variable {rely guar : σ → σ → Prop} {except : ε → σ → Prop} {s t : σ}

/-- A run of a program that keeps to its guarantee leads on. -/
theorem Sat.reached {ρ : Type} {post : ρ → σ → Prop} {p : Program ι σ ρ}
    (h : Sat rely guar post p s) (hrefl : ∀ a, rely a a)
    (htrans : ∀ a b c, rely a b → rely b c → rely a c) (hguar : ∀ a b, guar a b → rely a b) :
    Sat rely guar (fun r t => post r t ∧ rely s t) p s := by
  induction p generalizing s with
  | done r => exact ⟨h, hrefl s⟩
  | step effect next ih =>
      intro i t ht
      obtain ⟨hg, hnext⟩ := h i t ht
      refine ⟨hg, (ih i t hnext).mono fun r u hu => ⟨hu.1, ?_⟩⟩
      exact htrans _ _ _ ht (htrans _ _ _ (hguar _ _ hg) hu.2)

theorem Retriable.sat (except : ε → σ → Prop) (fact : α → σ → Prop) {pre : σ → Prop}
    {p : Fallible ι σ ε α} (h : Retriable rely guar except pre fact p) (hs : pre s) :
    Sat rely guar (fun r t => ∀ a, r = .ok a → fact a t ∧ Settled rely except p a t) p.run s :=
  h s hs

theorem Settled.stable {p : Fallible ι σ ε α} {a : α} (h : Settled rely except p a s)
    (htrans : ∀ a b c, rely a b → rely b c → rely a c) (ht : rely s t) :
    Settled rely except p a t :=
  fun u hu => h u (htrans _ _ _ ht hu)

/-- A sequence of fallible programs, whatever the first returns. -/
theorem Sat.bind_fallible {post' : Except ε α → σ → Prop} {post : Except ε β → σ → Prop}
    {p : Fallible ι σ ε α} {k : α → Fallible ι σ ε β} (h : Sat rely guar post' p.run s)
    (hok : ∀ a t, post' (.ok a) t → Sat rely guar post (k a).run t)
    (herror : ∀ e t, post' (.error e) t → post (.error e) t) :
    Sat rely guar post (p >>= k).run s := by
  refine Sat.bind h fun r t hr => ?_
  cases r with
  | ok a => exact hok a t hr
  | error e => exact herror e t hr

theorem Settled.bind {p : Fallible ι σ ε α} {k : α → Fallible ι σ ε β} {a : α} {b : β}
    (htrans : ∀ a b c, rely a b → rely b c → rely a c) (hrefl : ∀ a, rely a a)
    (hp : Settled rely except p a s) (hk : Settled rely except (k a) b s) :
    Settled rely except (p >>= k) b s := by
  intro t ht
  have hguar : ∀ a b : σ, a = b → rely a b := fun a b e => e ▸ hrefl a
  refine Sat.bind_fallible ((hp t ht).reached hrefl htrans hguar) ?_ ?_
  · rintro a' u ⟨hagain, hu⟩
    rcases hagain with hok | ⟨e, he, -⟩
    · cases hok
      exact hk u (htrans _ _ _ ht hu)
    · cases he
  · rintro e u ⟨hagain, -⟩
    rcases hagain with hok | ⟨e', he, hexcept⟩
    · cases hok
    · cases he
      exact .inr ⟨e, rfl, hexcept⟩

section

variable (hrefl : ∀ a, rely a a) (htrans : ∀ a b c, rely a b → rely b c → rely a c)
  (hguar : ∀ a b, guar a b → rely a b)

include hrefl htrans hguar in
/-- **Sequences.**  What the first program found holds where the second starts. -/
theorem Retriable.bind {pre : σ → Prop} {fact : α → σ → Prop} {fact' : β → σ → Prop}
    {p : Fallible ι σ ε α} {k : α → Fallible ι σ ε β}
    (hp : Retriable rely guar except pre fact p)
    (hk : ∀ a, Retriable rely guar except (fact a) fact' (k a)) :
    Retriable rely guar except pre fact' (p >>= k) := by
  intro s hs
  refine Sat.bind_fallible (hp s hs) ?_ ?_
  · intro a t ha
    obtain ⟨hfact, hsettled⟩ := ha a rfl
    refine ((hk a t hfact).reached hrefl htrans hguar).mono ?_
    rintro r u ⟨hr, hu⟩ b hb
    obtain ⟨hfact', hsettled'⟩ := hr b hb
    exact ⟨hfact', (hsettled.stable htrans hu).bind htrans hrefl hsettled'⟩
  · intro e t _ b hb
    cases hb

theorem Retriable.weaken {pre pre' : σ → Prop} {fact fact' : α → σ → Prop} {p : Fallible ι σ ε α}
    (h : Retriable rely guar except pre fact p) (hpre : ∀ s, pre' s → pre s)
    (hfact : ∀ a s, fact a s → fact' a s) : Retriable rely guar except pre' fact' p :=
  fun s hs => (h s (hpre s hs)).mono fun _ t hr a ha => ⟨hfact a t (hr a ha).1, (hr a ha).2⟩

/-- What the precondition says of no state in particular is at hand. -/
theorem retriable_given {pre : σ → Prop} {fact : α → σ → Prop} {p : Fallible ι σ ε α} {P : Prop}
    (hpre : ∀ s, pre s → P) (h : P → Retriable rely guar except pre fact p) :
    Retriable rely guar except pre fact p :=
  fun s hs => h (hpre s hs) s hs

/-- A check passes again. -/
theorem retriable_check {pre : σ → Prop} {fact : α → σ → Prop} {x : Except ε α}
    (hfact : ∀ a s, x = .ok a → pre s → fact a s) :
    Retriable rely guar except pre fact (check x : Fallible ι σ ε α) := by
  rintro s hs a rfl
  exact ⟨hfact a s rfl hs, fun _ _ => .inl rfl⟩

include htrans in
/-- A read whose successes last, read again. -/
theorem retriable_query {pre : σ → Prop} {fact : α → σ → Prop} {f : σ → Except ε α}
    (hself : ∀ s, guar s s)
    (hlasts : ∀ s t a, pre s → rely s t → f t = .ok a →
      fact a t ∧ ∀ u, rely t u → f u = .ok a) :
    Retriable rely guar except pre fact (query f : Fallible ι σ ε α) := by
  intro s hs i t ht
  refine ⟨hself t, fun a ha => ?_⟩
  obtain ⟨hfact, hagain⟩ := hlasts s t a hs ht ha
  exact ⟨hfact, fun u hu _ v hv => ⟨rfl, .inl (hagain v (htrans _ _ _ hu hv))⟩⟩

theorem retriable_pure {pre : σ → Prop} {fact : α → σ → Prop} {a : α}
    (hfact : ∀ s, pre s → fact a s) :
    Retriable rely guar except pre fact (pure a : Fallible ι σ ε α) := by
  rintro s hs b ⟨⟩
  exact ⟨hfact s hs, fun _ _ => .inl rfl⟩

include htrans in
/-- A transaction that only repeats its result once it succeeded. -/
theorem retriable_transaction {pre : σ → Prop} {fact : α → σ → Prop}
    {f : ι → σ → Except ε (α × σ)} (hself : ∀ s, guar s s)
    (hlasts : ∀ i s t a u, pre s → rely s t → f i t = .ok (a, u) →
      guar t u ∧ fact a u ∧ ∀ j v, rely u v → f j v = .ok (a, v)) :
    Retriable rely guar except pre fact (transaction f : Fallible ι σ ε α) := by
  intro s hs
  refine sat_transaction_last ?_ ?_
  · intro i t a u ht hf
    obtain ⟨hg, hfact, hagain⟩ := hlasts i s t a u hs ht hf
    refine ⟨hg, ?_⟩
    rintro b ⟨⟩
    refine ⟨hfact, fun v hv => sat_transaction_last ?_ ?_⟩
    · intro j v' b v'' hv' hrun
      rw [hagain j v' (htrans _ _ _ hv hv')] at hrun
      cases hrun
      exact ⟨rfl, .inl rfl⟩
    · intro j v' e hv' hrun
      rw [hagain j v' (htrans _ _ _ hv hv')] at hrun
      cases hrun
  · rintro i t e - -
    exact ⟨hself t, fun a ha => by cases ha⟩

include hrefl htrans hguar in
/-- **Frame.**  A fact that lasts is kept. -/
theorem Retriable.frame {pre kept : σ → Prop} {fact : α → σ → Prop} {p : Fallible ι σ ε α}
    (h : Retriable rely guar except pre fact p) (hkept : ∀ s t, kept s → rely s t → kept t) :
    Retriable rely guar except (fun s => pre s ∧ kept s) (fun a s => fact a s ∧ kept s) p := by
  rintro s ⟨hs, hk⟩
  refine ((h s hs).reached hrefl htrans hguar).mono ?_
  rintro r t ⟨hr, ht⟩ a ha
  obtain ⟨hfact, hsettled⟩ := hr a ha
  exact ⟨⟨hfact, hkept s t hk ht⟩, hsettled⟩

end

end Support.Program
