import Mathlib.Data.List.Perm.Subperm
import Mathlib.Data.List.Sort

/-!
# Support — Order

Lists in which every element comes after its parent.  `ParentsFirst parent done l` allows the
parent of an element of `l` to be in `done` or earlier in `l`; it splits over concatenation
(`parentsFirst_append`), and says of a whole list what `parentsFirst_split` says of one
occurrence.  A list that is sorted by a key is the same for every order of its elements
(`insertionSort_eq_of_perm`).
-/

namespace Support

universe u

variable {α : Type u} {parent : α → Option α}

/-- Each element's parent is in `done` or before it. -/
def ParentsFirst (parent : α → Option α) : List α → List α → Prop
  | _, [] => True
  | done, a :: l => (∀ p, parent a = some p → p ∈ done) ∧ ParentsFirst parent (done ++ [a]) l

theorem parentsFirst_append {done l₁ l₂ : List α} :
    ParentsFirst parent done (l₁ ++ l₂) ↔
      ParentsFirst parent done l₁ ∧ ParentsFirst parent (done ++ l₁) l₂ := by
  induction l₁ generalizing done with
  | nil => simp [ParentsFirst]
  | cons a l ih => simp [ParentsFirst, ih, and_assoc]

theorem parentsFirst_concat {done l : List α} {a : α} :
    ParentsFirst parent done (l ++ [a]) ↔
      ParentsFirst parent done l ∧ ∀ p, parent a = some p → p ∈ done ++ l := by
  simp [parentsFirst_append, ParentsFirst]

/-- Another parent function is met after `done'`, when each of its parents is the old one or
already done. -/
theorem ParentsFirst.change {parent' : α → Option α} {done done' l : List α}
    (h : ParentsFirst parent done l) (hd : ∀ a ∈ done, a ∈ done')
    (hp : ∀ a ∈ l, ∀ p, parent' a = some p → parent a = some p ∨ p ∈ done') :
    ParentsFirst parent' done' l := by
  induction l generalizing done done' with
  | nil => trivial
  | cons a l ih =>
      refine ⟨fun p ha => ?_, ih h.2 ?_ fun b hb p hbp => ?_⟩
      · rcases hp a (by simp) p ha with ha' | hmem
        · exact hd p (h.1 p ha')
        · exact hmem
      · intro b hb
        rcases List.mem_append.mp hb with hb | hb
        · exact List.mem_append_left _ (hd b hb)
        · exact List.mem_append_right _ hb
      · rcases hp b (List.mem_cons_of_mem _ hb) p hbp with hb' | hmem
        · exact .inl hb'
        · exact .inr (List.mem_append_left _ hmem)

/-- The parent of any occurrence is before it. -/
theorem parentsFirst_split {pre post : List α} {a p : α}
    (h : ParentsFirst parent [] (pre ++ a :: post)) (ha : parent a = some p) : p ∈ pre := by
  rw [parentsFirst_append] at h
  simpa using h.2.1 p ha

/-- A list without repetition inside another one, and as long as it, has all its elements. -/
theorem mem_of_nodup_of_length {l₁ l₂ : List α} (hn : l₁.Nodup) (hs : ∀ a ∈ l₁, a ∈ l₂)
    (hl : l₂.length ≤ l₁.length) {a : α} (ha : a ∈ l₂) : a ∈ l₁ :=
  ((hn.subperm hs).perm_of_length_le hl).mem_iff.mpr ha

/-- Where some element satisfies `p`, there is a last one. -/
theorem exists_last {p : α → Bool} {l : List α} (h : ∃ a ∈ l, p a = true) :
    ∃ before a after, l = before ++ a :: after ∧ p a = true ∧ ∀ b ∈ after, p b = false := by
  induction l with
  | nil => simp at h
  | cons c l ih =>
      by_cases hl : ∃ a ∈ l, p a = true
      · obtain ⟨before, a, after, rfl, ha, hafter⟩ := ih hl
        exact ⟨c :: before, a, after, rfl, ha, hafter⟩
      · obtain ⟨a, ha, hp⟩ := h
        rcases List.mem_cons.mp ha with rfl | ha
        · exact ⟨[], a, l, rfl, hp, fun b hb => by simpa using fun hb' => hl ⟨b, hb, hb'⟩⟩
        · exact absurd ⟨a, ha, hp⟩ hl

theorem insertionSort_eq_of_perm {α β : Type} [LinearOrder β] {key : α → β} {l l' : List α}
    (h : l.Perm l') (hkey : ∀ a ∈ l, ∀ b ∈ l, key a = key b → a = b) :
    l.insertionSort (fun a b => key a ≤ key b) = l'.insertionSort fun a b => key a ≤ key b := by
  have : Std.Total fun a b : α => key a ≤ key b := ⟨fun a b => le_total _ _⟩
  have : IsTrans α fun a b => key a ≤ key b := ⟨fun _ _ _ => le_trans⟩
  refine List.Perm.eq_of_pairwise (fun a b ha hb hab hba => ?_) (List.pairwise_insertionSort _ l)
    (List.pairwise_insertionSort _ l') ?_
  · refine hkey a ((List.mem_insertionSort _).mp ha) b ?_ (le_antisymm hab hba)
    exact h.mem_iff.mpr ((List.mem_insertionSort _).mp hb)
  · exact ((List.perm_insertionSort _ l).trans h).trans (List.perm_insertionSort _ l').symm

end Support
