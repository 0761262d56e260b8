import Mathlib.Tactic.Common

/-!
# Support — Result

Fallible code over `Except`.  `ensure` and `context` are the two ways a check fails with a
message; the lemmas invert a run that succeeded, one step at a time, and `foldlM_invariant`
is the induction a fallible loop needs.
-/

namespace Support

universe u v

variable {ε : Type v} {α β : Type u}

/-- Fail with `e` unless `c` holds. -/
def ensure (c : Bool) (e : ε) : Except ε Unit := if c then .ok () else .error e

/-- The value of an option, or the failure `e`. -/
def context (e : ε) : Option α → Except ε α
  | some a => .ok a
  | none => .error e

@[simp] theorem ensure_eq_ok {c : Bool} {e : ε} {u : Unit} : ensure c e = .ok u ↔ c = true := by
  cases c <;> simp [ensure]

@[simp] theorem ensure_true {e : ε} : ensure true e = .ok () := rfl

@[simp] theorem context_eq_ok {o : Option α} {e : ε} {a : α} :
    context e o = .ok a ↔ o = some a := by
  cases o <;> simp [context]

@[simp] theorem context_some {e : ε} {a : α} : context e (some a) = .ok a := rfl

theorem bind_eq_ok {x : Except ε α} {f : α → Except ε β} {b : β} :
    (x >>= f) = .ok b ↔ ∃ a, x = .ok a ∧ f a = .ok b := by
  cases x <;> simp [bind, Except.bind]

theorem map_eq_ok {x : Except ε α} {f : α → β} {b : β} :
    x.map f = .ok b ↔ ∃ a, x = .ok a ∧ f a = b := by
  cases x <;> simp [Except.map]

theorem pure_eq_ok {a b : α} : (pure a : Except ε α) = .ok b ↔ a = b := by
  simp [pure, Except.pure]

@[simp] theorem ok_bind {a : α} {f : α → Except ε β} : (Except.ok a >>= f) = f a := rfl

@[simp] theorem error_bind {e : ε} {f : α → Except ε β} :
    (Except.error e >>= f) = .error e := rfl

/-- Runs with one first step that agree after it agree. -/
theorem map_bind_congr {γ : Type} {g : β → γ} (x : Except ε α) {f f' : α → Except ε β}
    (h : ∀ a, x = .ok a → (f' a).map g = (f a).map g) : (x >>= f').map g = (x >>= f).map g := by
  cases x with
  | error e => rfl
  | ok a => exact h a rfl

/-- A transaction: one that fails leaves the state as it was. -/
def atomically {σ ρ : Type} (run : σ → Except ε (ρ × σ)) (s : σ) : Except ε ρ × σ :=
  match run s with
  | .ok (r, t) => (.ok r, t)
  | .error e => (.error e, s)

theorem atomically_eq {σ ρ : Type} (run : σ → Except ε (ρ × σ)) (s : σ) :
    (∃ r t, run s = .ok (r, t) ∧ atomically run s = (.ok r, t)) ∨
      ∃ e, run s = .error e ∧ atomically run s = (.error e, s) := by
  unfold atomically
  cases h : run s with
  | ok rt => exact .inl ⟨rt.1, rt.2, rfl, rfl⟩
  | error e => exact .inr ⟨e, rfl, rfl⟩

/-- What a transaction that succeeded ran. -/
theorem run_of_atomically {σ ρ : Type} {run : σ → Except ε (ρ × σ)} {s : σ} {r : ρ}
    (h : (atomically run s).1 = .ok r) : run s = .ok (r, (atomically run s).2) := by
  rcases atomically_eq run s with ⟨r', t, hrun, heq⟩ | ⟨e, -, heq⟩
  · rw [heq] at h ⊢
    cases h
    exact hrun
  · rw [heq] at h
    cases h

/-- A loop over a list, its state before its body. -/
abbrev loop (l : List α) (init : β) (body : β → α → β) : β := l.foldl body init

/-- A fallible loop over a list, its state before its body. -/
abbrev loopM (l : List α) (init : β) (body : β → α → Except ε β) : Except ε β :=
  l.foldlM body init

/-- Whether a run succeeded. -/
def succeeds : Except ε α → Bool
  | .ok _ => true
  | .error _ => false

theorem succeeds_iff {x : Except ε α} : succeeds x = true ↔ ∃ a, x = .ok a := by
  cases x <;> simp [succeeds]

/-- A property that holds before a loop and that every succeeding iteration keeps holds after
it. -/
theorem foldlM_invariant {f : β → α → Except ε β} (P : β → Prop) {l : List α} {b b' : β}
    (h : l.foldlM f b = .ok b') (hb : P b)
    (step : ∀ a ∈ l, ∀ c c', f c a = .ok c' → P c → P c') : P b' := by
  induction l generalizing b with
  | nil =>
      rw [List.foldlM_nil, pure_eq_ok] at h
      exact h ▸ hb
  | cons a l ih =>
      rw [List.foldlM_cons, bind_eq_ok] at h
      obtain ⟨c, hc, h⟩ := h
      exact ih h (step a (by simp) b c hc hb)
        fun a' ha' => step a' (List.mem_cons_of_mem _ ha')

/-- The prefix-indexed form: the property may mention the elements consumed so far. -/
theorem foldlM_prefix {f : β → α → Except ε β} (P : List α → β → Prop) {l : List α} {b b' : β}
    (h : l.foldlM f b = .ok b') (hb : P [] b)
    (step : ∀ pre a c c', pre ++ [a] <+: l → f c a = .ok c' → P pre c → P (pre ++ [a]) c') :
    P l b' := by
  suffices key : ∀ (rest pre : List α) (c : β), pre ++ rest = l → P pre c →
      rest.foldlM f c = .ok b' → P l b' from key l [] b rfl hb h
  intro rest
  induction rest with
  | nil =>
      intro pre c hl hc hr
      rw [List.foldlM_nil, pure_eq_ok] at hr
      rw [← hl, List.append_nil, ← hr]
      exact hc
  | cons a rest ih =>
      intro pre c hl hc hr
      rw [List.foldlM_cons, bind_eq_ok] at hr
      obtain ⟨c', hc', hr⟩ := hr
      have hl' : pre ++ [a] ++ rest = l := by simpa using hl
      exact ih (pre ++ [a]) c' hl' (step pre a c c' ⟨rest, hl'⟩ hc' hc) hr

/-- Elements that leave the state as it is can be dropped from a loop. -/
theorem foldlM_filter_of_skip {f : β → α → Except ε β} {p : α → Bool} {l : List α}
    (h : ∀ a ∈ l, p a = false → ∀ b, f b a = .ok b) (b : β) :
    l.foldlM f b = (l.filter p).foldlM f b := by
  induction l generalizing b with
  | nil => rfl
  | cons a l ih =>
      have ih := ih fun a ha => h a (List.mem_cons_of_mem _ ha)
      cases hp : p a with
      | true =>
          rw [List.filter_cons_of_pos hp, List.foldlM_cons, List.foldlM_cons]
          exact congrArg _ (funext ih)
      | false =>
          rw [List.filter_cons_of_neg (by simp [hp]), List.foldlM_cons, h a (by simp) hp b,
            ok_bind]
          exact ih b

/-- Two loops over related elements whose steps agree on what `g` sees of the state. -/
theorem foldlM_map_congr {α α' γ : Type} {f : β → α → Except ε β} {f' : β → α' → Except ε β}
    {R : α → α' → Prop} {g : β → γ} {l : List α} {l' : List α'} (h : List.Forall₂ R l l')
    (step : ∀ a a' b b', R a a' → g b' = g b → (f' b' a').map g = (f b a).map g) {b b' : β}
    (hb : g b' = g b) : (l'.foldlM f' b').map g = (l.foldlM f b).map g := by
  induction h generalizing b b' with
  | nil => exact congrArg Except.ok hb
  | cons hr _ ih =>
      have hs := step _ _ _ _ hr hb
      rw [List.foldlM_cons, List.foldlM_cons]
      generalize f' b' _ = x' at hs ⊢
      generalize f b _ = x at hs ⊢
      cases x' with
      | error e' =>
          cases x with
          | error e => exact hs
          | ok c => cases hs
      | ok c' =>
          cases x with
          | error e => cases hs
          | ok c => exact ih (Except.ok.inj hs)

/-- A loop of checks succeeds exactly when every check does. -/
theorem forM_eq_ok {α : Type} {f : α → Except ε Unit} {l : List α} {u : Unit} :
    forM l f = .ok u ↔ ∀ a ∈ l, f a = .ok () := by
  induction l with
  | nil => simp [pure_eq_ok]
  | cons a l ih =>
      simp only [List.forM_cons, bind_eq_ok, ih, List.mem_cons, forall_eq_or_imp]
      exact ⟨fun ⟨_, ha, hl⟩ => ⟨ha, hl⟩, fun ⟨ha, hl⟩ => ⟨(), ha, hl⟩⟩

end Support
