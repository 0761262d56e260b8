import Mathlib.Data.List.Infix

/-!
# Support — Like

The `LIKE` of SQL: `%` stands for any text, `_` for any character, and letters are compared without
case.  A text without wildcards between two `%` is found exactly where it is part of the other text
(`like_part`); in a text of pieces divided by characters it does not have, it is part of a piece
(`part_append_cons`).
-/

namespace Support

def like : List Char → List Char → Bool
  | [], s => s.isEmpty
  | c :: pattern, s =>
      if c = '%' then s.tails.any (like pattern)
      else match s with
        | [] => false
        | d :: s => (c = '_' || c.toLower = d.toLower) && like pattern s

variable {pattern s t : List Char}

/-- A text without wildcards, then any text. -/
theorem like_start (hp : ∀ c ∈ pattern, c ≠ '%' ∧ c ≠ '_') :
    like (pattern ++ ['%']) s = true ↔
      pattern.map Char.toLower <+: s.map Char.toLower := by
  induction pattern generalizing s with
  | nil =>
      have hany : s.tails.any (like []) = true := List.any_eq_true.mpr ⟨[], by simp, rfl⟩
      have heq : like ['%'] s = s.tails.any (like []) := if_pos rfl
      rw [List.nil_append, heq, hany]
      simp
  | cons c pattern ih =>
      have hc := hp c List.mem_cons_self
      have ih := fun s => ih (s := s) fun d hd => hp d (List.mem_cons_of_mem _ hd)
      cases s with
      | nil => simp [like, hc.1]
      | cons d s => simp [like, hc.1, hc.2, ih s, List.cons_prefix_cons]

/-- A text without wildcards between two `%`. -/
theorem like_part (hp : ∀ c ∈ pattern, c ≠ '%' ∧ c ≠ '_') :
    like ('%' :: pattern ++ ['%']) s = true ↔
      pattern.map Char.toLower <:+: s.map Char.toLower := by
  have hany : like ('%' :: pattern ++ ['%']) s = s.tails.any (like (pattern ++ ['%'])) := if_pos rfl
  rw [hany, List.any_eq_true]
  simp only [List.mem_tails, like_start hp]
  constructor
  · rintro ⟨rest, ⟨before, rfl⟩, hpre⟩
    rw [List.map_append]
    exact hpre.isInfix.trans (List.suffix_append _ _).isInfix
  · rintro ⟨before, after, hsplit⟩
    obtain ⟨s₁, rest, rfl, hs₁, -⟩ := List.map_eq_append_iff.mp hsplit.symm
    obtain ⟨s₂, s₃, rfl, hbefore, hpattern⟩ := List.map_eq_append_iff.mp hs₁
    refine ⟨s₃ ++ rest, ⟨s₂, by rw [List.append_assoc]⟩, ?_⟩
    rw [List.map_append, hpattern]
    exact List.prefix_append _ _

theorem start_append_cons {α : Type} {t x y : List α} {c : α} (hc : c ∉ t)
    (h : t <+: x ++ c :: y) : t <+: x := by
  induction x generalizing t with
  | nil =>
      cases t with
      | nil => exact List.prefix_rfl
      | cons d t =>
          obtain ⟨rfl, -⟩ := List.cons_prefix_cons.mp h
          exact absurd List.mem_cons_self hc
  | cons b x ih =>
      cases t with
      | nil => exact List.nil_prefix
      | cons d t =>
          obtain ⟨rfl, ht⟩ := List.cons_prefix_cons.mp h
          exact List.cons_prefix_cons.mpr ⟨rfl, ih (fun hm => hc (List.mem_cons_of_mem _ hm)) ht⟩

/-- A text that has not the character `c` is part of what stands before or after it. -/
theorem part_append_cons {α : Type} {t x y : List α} {c : α} (hc : c ∉ t)
    (h : t <:+: x ++ c :: y) : t <:+: x ∨ t <:+: y := by
  induction x with
  | nil =>
      rcases List.infix_cons_iff.mp h with h | h
      · exact .inl (start_append_cons (x := []) hc h).isInfix
      · exact .inr h
  | cons b x ih =>
      rcases List.infix_cons_iff.mp h with h | h
      · exact .inl (start_append_cons (x := b :: x) hc h).isInfix
      · exact (ih h).imp_left List.infix_cons

end Support
