import Mathlib.Data.List.Induction

/-!
# Support — History

Runs of a state machine whose calls are recorded.  A call is performed on the current state and
yields a result and the next state; between calls the state may change as `drift` allows.  An entry
of the history holds the state a call found, the call and its result.

* `History.invariant` — what the start has and every call and drift keeps, the end has.
* `History.split` — every entry was made by performing its call, after a history of what came
  before it.
* `pairwise_of_split` — what each entry has to each of its predecessors.
-/

namespace Support

/-- A call that was made, the state it found and what it returned. -/
structure Entry (σ γ ρ : Type) where
  before : σ
  call : γ
  result : ρ

section History

variable {σ γ ρ : Type} (perform : γ → σ → ρ × σ) (drift : σ → σ → Prop)

/-- The calls `entries` were made in order, from the state `s` to the state `t`. -/
inductive History (s : σ) : List (Entry σ γ ρ) → σ → Prop where
  | nil : History s [] s
  | call {entries : List (Entry σ γ ρ)} {t : σ} (h : History s entries t) (c : γ) :
      History s (entries ++ [⟨t, c, (perform c t).1⟩]) (perform c t).2
  | drift {entries : List (Entry σ γ ρ)} {t t' : σ} (h : History s entries t)
      (hd : drift t t') : History s entries t'

/-- Only calls change the state. -/
def NoDrift (_ _ : σ) : Prop := False

theorem NoDrift.keeps (P : σ → Prop) (u u' : σ) (h : NoDrift u u') : P u → P u' := h.elim

/-- The entries of calls made one after the other, and the state they lead to. -/
def replay (s : σ) : List γ → List (Entry σ γ ρ) × σ
  | [] => ([], s)
  | c :: calls =>
      let rest := replay (perform c s).2 calls
      (⟨s, c, (perform c s).1⟩ :: rest.1, rest.2)

variable {perform drift} {s t : σ} {entries : List (Entry σ γ ρ)}

namespace History

/-- An invariant of states. -/
theorem invariant (P : σ → Prop) (h : History perform drift s entries t) (hs : P s)
    (hcall : ∀ c u, P u → P (perform c u).2) (hdrift : ∀ u u', drift u u' → P u → P u') : P t := by
  induction h with
  | nil => exact hs
  | call _ c ih => exact hcall c _ ih
  | drift _ hd ih => exact hdrift _ _ hd ih

/-- An invariant of states and the entries that led to them. -/
theorem invariant_entries (P : List (Entry σ γ ρ) → σ → Prop)
    (h : History perform drift s entries t) (hs : P [] s)
    (hcall : ∀ es u c, History perform drift s es u → P es u →
      P (es ++ [⟨u, c, (perform c u).1⟩]) (perform c u).2)
    (hdrift : ∀ es u u', History perform drift s es u → drift u u' → P es u → P es u') :
    P entries t := by
  induction h with
  | nil => exact hs
  | call h c ih => exact hcall _ _ c h ih
  | drift h hd ih => exact hdrift _ _ _ h hd ih

theorem trans {entries' : List (Entry σ γ ρ)} {u : σ} (h : History perform drift s entries t)
    (h' : History perform drift t entries' u) : History perform drift s (entries ++ entries') u := by
  induction h' with
  | nil => simpa using h
  | call _ c ih =>
      rw [← List.append_assoc]
      exact ih.call c
  | drift _ hd ih => exact ih.drift hd

/-- Calls made one after the other are a history. -/
theorem replay (s : σ) (calls : List γ) :
    History perform drift s (Support.replay perform s calls).1
      (Support.replay perform s calls).2 := by
  induction calls generalizing s with
  | nil => exact .nil
  | cons c calls ih => exact (History.nil.call c).trans (ih (perform c s).2)

/-- Every entry was made by its call, in the state its predecessors led to. -/
theorem split {pre post : List (Entry σ γ ρ)} {e : Entry σ γ ρ}
    (h : History perform drift s (pre ++ e :: post) t) :
    History perform drift s pre e.before ∧ e.result = (perform e.call e.before).1 ∧
      History perform drift (perform e.call e.before).2 post t := by
  generalize hes : pre ++ e :: post = es at h
  induction h generalizing post with
  | nil => simp at hes
  | drift _ hd ih =>
      obtain ⟨hpre, hres, hpost⟩ := ih hes
      exact ⟨hpre, hres, hpost.drift hd⟩
  | @call es u h c ih =>
      rcases List.eq_nil_or_concat post with rfl | ⟨post, last, rfl⟩
      · obtain ⟨rfl, he⟩ := List.append_inj' hes rfl
        cases he
        exact ⟨h, rfl, .nil⟩
      · rw [List.concat_eq_append, ← List.cons_append, ← List.append_assoc] at hes
        obtain ⟨rfl, he⟩ := List.append_inj' hes rfl
        cases he
        obtain ⟨hpre, hres, hpost⟩ := ih rfl
        rw [List.concat_eq_append]
        exact ⟨hpre, hres, hpost.call c⟩

/-- Two entries, the first before the second: what happened between them is a history. -/
theorem between {pre post : List (Entry σ γ ρ)} {a b : Entry σ γ ρ}
    (h : History perform drift s (pre ++ b :: post) t) (ha : a ∈ pre) :
    a.result = (perform a.call a.before).1 ∧ b.result = (perform b.call b.before).1 ∧
      ∃ mid, History perform drift (perform a.call a.before).2 mid b.before := by
  obtain ⟨hpre, hb, -⟩ := h.split
  obtain ⟨first, mid, rfl⟩ := List.append_of_mem ha
  obtain ⟨-, ha, hmid⟩ := hpre.split
  exact ⟨ha, hb, mid, hmid⟩

theorem performed (h : History perform drift s entries t) :
    ∀ e ∈ entries, e.result = (perform e.call e.before).1 := by
  intro e he
  obtain ⟨pre, post, rfl⟩ := List.append_of_mem he
  exact h.split.2.1

end History

end History

/-- Every element is related to all those after it when it is to each, its predecessors given. -/
theorem pairwise_of_split {α : Type} {R : α → α → Prop} {l : List α}
    (h : ∀ pre b post, l = pre ++ b :: post → ∀ a ∈ pre, R a b) : l.Pairwise R := by
  induction l using List.reverseRecOn with
  | nil => exact .nil
  | append_singleton l b ih =>
      refine List.pairwise_append.mpr ⟨ih fun pre c post hl => ?_, List.pairwise_singleton R b, ?_⟩
      · refine h pre c (post ++ [b]) ?_
        rw [hl, List.append_assoc, List.cons_append]
      · intro a ha c hc
        rw [List.mem_singleton.mp hc]
        exact h l b [] rfl a ha

end Support
