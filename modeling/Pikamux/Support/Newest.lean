import Mathlib.Data.List.Induction
import Mathlib.Data.List.Pairwise
import Pikamux.Support.Table

/-!
# Support — Newest

Values with a time, of which the newest is kept.

* `newer` keeps the newer one of what is held and what comes; of two at one time, what comes.
* `newest` does so for a list.  What it holds at the end is in no way older (`newest_le`), and it
  does not depend on the order when the times are distinct (`newest_perm`).
* `Table.refresh` is the same for the row of a key (`get?_refresh`).
-/

namespace Support

variable {τ α : Type} [LinearOrder τ] {time : α → τ} {held : Option α} {a b : α} {l l' : List α}

def newer (time : α → τ) (held : Option α) (a : α) : Option α :=
  match held with
  | none => some a
  | some b => if time b ≤ time a then some a else some b

def newest (time : α → τ) (held : Option α) (l : List α) : Option α := l.foldl (newer time) held

@[simp] theorem newer_none : newer time none a = some a := rfl

@[simp] theorem newest_nil : newest time held [] = held := rfl

@[simp] theorem newest_concat : newest time held (l ++ [a]) = newer time (newest time held l) a := by
  rw [newest, List.foldl_append]
  rfl

theorem newest_append :
    newest time held (l ++ l') = newest time (newest time held l) l' := by
  rw [newest, List.foldl_append]
  rfl

theorem newer_eq_some : newer time held a = some b ↔
    b = a ∧ (∀ c, held = some c → time c ≤ time a) ∨ held = some b ∧ time a < time b := by
  cases held with
  | none => simp [eq_comm]
  | some c =>
      by_cases h : time c ≤ time a
      · simp only [newer, if_pos h, Option.some.injEq]
        constructor
        · rintro rfl
          exact .inl ⟨rfl, fun d hd => hd ▸ h⟩
        · rintro (⟨rfl, -⟩ | ⟨rfl, hlt⟩)
          · rfl
          · exact absurd h (not_le.mpr hlt)
      · simp only [newer, if_neg h, Option.some.injEq]
        constructor
        · rintro rfl
          exact .inr ⟨rfl, not_le.mp h⟩
        · rintro (⟨-, hle⟩ | ⟨rfl, -⟩)
          · exact absurd (hle c rfl) h
          · rfl

/-- Two that come at different times may change places. -/
theorem newer_comm (hne : time a ≠ time b) :
    newer time (newer time held a) b = newer time (newer time held b) a := by
  have hkeep {x y : α} (h : time x < time y) :
      newer time (newer time held x) y = newer time (newer time held y) x := by
    cases held with
    | none => simp [newer, h.le, h.not_ge]
    | some c =>
        rcases le_or_gt (time c) (time y) with hy | hy
        · have hleft : newer time (newer time (some c) x) y = some y := by
            rcases le_or_gt (time c) (time x) with hx | hx
            · simp [newer, hx, h.le]
            · simp [newer, hx.not_ge, hy]
          rw [hleft]
          simp [newer, hy, h.not_ge]
        · have hx := h.trans hy
          simp [newer, hx.not_ge, hy.not_ge]
  rcases lt_or_gt_of_ne hne with h | h
  · exact hkeep h
  · exact (hkeep h).symm

/-- The order does not matter. -/
theorem newest_perm (h : l.Perm l') (hne : l.Pairwise fun a b => time a ≠ time b) :
    newest time held l = newest time held l' := by
  refine h.foldl_eq' (fun a ha b hb c => ?_) held
  by_cases hab : a = b
  · rw [hab]
  · refine newer_comm fun htime => ?_
    have hsymm : Std.Symm fun a b => time a ≠ time b := ⟨fun _ _ h => h.symm⟩
    exact hne.forall ha hb hab htime

theorem newest_mem (h : newest time held l = some a) : held = some a ∨ a ∈ l := by
  induction l using List.reverseRecOn generalizing a with
  | nil => exact .inl h
  | append_singleton l c ih =>
      rw [newest_concat, newer_eq_some] at h
      rcases h with ⟨rfl, -⟩ | ⟨h, -⟩
      · simp
      · exact (ih h).imp_right (List.mem_append_left _)

/-- Nothing is newer than what is held at the end. -/
theorem newest_le (h : newest time held l = some a) :
    (∀ b, held = some b → time b ≤ time a) ∧ ∀ b ∈ l, time b ≤ time a := by
  induction l using List.reverseRecOn generalizing a with
  | nil =>
      refine ⟨fun b hb => ?_, by simp⟩
      rw [newest_nil, hb] at h
      cases h
      exact le_rfl
  | append_singleton l c ih =>
      rw [newest_concat, newer_eq_some] at h
      simp only [List.mem_append, List.mem_singleton, or_imp, forall_and, forall_eq]
      rcases h with ⟨rfl, hle⟩ | ⟨h, hlt⟩
      · cases hn : newest time held l with
        | none =>
            have hnone : held = none ∧ l = [] := by
              cases l using List.reverseRecOn with
              | nil => exact ⟨hn, rfl⟩
              | append_singleton l d =>
                  rw [newest_concat] at hn
                  cases hd : newest time held l <;> simp [newer, hd] at hn
                  split at hn <;> cases hn
            obtain ⟨rfl, rfl⟩ := hnone
            simp
        | some b =>
            obtain ⟨hheld, hl⟩ := ih hn
            have hb := hle b hn
            exact ⟨fun d hd => (hheld d hd).trans hb, fun d hd => (hl d hd).trans hb, le_rfl⟩
      · obtain ⟨hheld, hl⟩ := ih h
        exact ⟨hheld, hl, hlt.le⟩

theorem exists_newest (hl : l ≠ []) : ∃ a, newest time held l = some a := by
  cases l using List.reverseRecOn with
  | nil => exact absurd rfl hl
  | append_singleton l c =>
      rw [newest_concat]
      cases newest time held l with
      | none => exact ⟨c, rfl⟩
      | some b =>
          by_cases h : time b ≤ time c
          · exact ⟨c, by simp [newer, h]⟩
          · exact ⟨b, by simp [newer, h]⟩

/-- The one with the greatest time, if what was held is not newer. -/
theorem newest_eq_some (ha : a ∈ l) (hl : ∀ b ∈ l, time b ≤ time a)
    (hne : l.Pairwise fun a b => time a ≠ time b) (hheld : ∀ c, held = some c → time c ≤ time a) :
    newest time held l = some a := by
  induction l using List.reverseRecOn with
  | nil => cases ha
  | append_singleton l c ih =>
      rw [newest_concat, newer_eq_some]
      rw [List.pairwise_append] at hne
      by_cases hmem : a ∈ l
      · refine .inr ⟨ih hmem (fun b hb => hl b (List.mem_append_left _ hb)) hne.1, ?_⟩
        have hle : time c ≤ time a := hl c (by simp)
        exact lt_of_le_of_ne hle (hne.2.2 a hmem c (by simp)).symm
      · obtain rfl : a = c := by simpa [hmem] using ha
        refine .inl ⟨rfl, fun b hb => ?_⟩
        rcases newest_mem hb with h | h
        · exact hheld b h
        · exact hl b (List.mem_append_left _ h)

/-- What is held stays when it is newer than all of them. -/
theorem newest_eq_held (h : ∀ b ∈ l, ∃ c, held = some c ∧ time b < time c) :
    newest time held l = held := by
  induction l using List.reverseRecOn with
  | nil => rfl
  | append_singleton l b ih =>
      rw [newest_concat, ih fun d hd => h d (List.mem_append_left _ hd)]
      obtain ⟨c, rfl, hlt⟩ := h b (by simp)
      exact newer_eq_some.mpr (.inr ⟨rfl, hlt⟩)

namespace Table

variable {κ : Type} [DecidableEq κ]

/-- Add a row, or replace the one with its key unless that is newer. -/
def refresh (t : Table κ α) (time : α → τ) (k : κ) (a : α) : Table κ α :=
  t.upsert k ((newer time (t.get? k) a).getD a)

theorem get?_refresh (t : Table κ α) (time : α → τ) (k : κ) (a : α) (j : κ) :
    (t.refresh time k a).get? j = if j = k then newer time (t.get? k) a else t.get? j := by
  rw [refresh, get?_upsert]
  split
  case isTrue =>
    obtain ⟨b, hb⟩ : ∃ b, newer time (t.get? k) a = some b := by
      cases t.get? k with
      | none => exact ⟨a, rfl⟩
      | some b =>
          by_cases h : time b ≤ time a
          · exact ⟨a, by simp [newer, h]⟩
          · exact ⟨b, by simp [newer, h]⟩
    rw [hb, Option.getD_some]
  case isFalse => rfl

end Table

end Support
