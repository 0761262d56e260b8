import Mathlib.Data.List.Infix

/-!
# Support — Window

A sliding window over a stream: elements are appended at the end and dropped from the front until
what is left fits.  When everything contained in a list that fits fits too (`Monotone`), the window
is the longest suffix that fits of all that was appended (`lastFit_concat`), whatever was dropped
on the way; and cutting such suffixes off a list from its end partitions it (`take_lastFit`).
-/

namespace Support

variable {α : Type} {fits : List α → Prop} [DecidablePred fits] {l : List α} {x : α}

/-- The longest suffix that fits. -/
def lastFit (fits : List α → Prop) [DecidablePred fits] : List α → List α
  | [] => []
  | x :: l => if fits (x :: l) then x :: l else lastFit fits l

/-- Nothing fits less for being shorter. -/
structure Monotone (fits : List α → Prop) : Prop where
  nil : fits []
  sublist : ∀ {l l' : List α}, l.Sublist l' → fits l' → fits l

theorem lastFit_suffix (l : List α) : lastFit fits l <:+ l := by
  induction l with
  | nil => exact List.suffix_refl _
  | cons x l ih =>
      rw [lastFit]
      split
      · exact List.suffix_refl _
      · exact ih.trans (List.suffix_cons x l)

theorem fits_lastFit (hm : Monotone fits) (l : List α) : fits (lastFit fits l) := by
  induction l with
  | nil => exact hm.nil
  | cons x l ih =>
      rw [lastFit]
      split
      case isTrue h => exact h
      case isFalse => exact ih

theorem lastFit_of_fits (h : fits l) : lastFit fits l = l := by
  cases l with
  | nil => rfl
  | cons x l => rw [lastFit, if_pos h]

/-- No longer suffix fits. -/
theorem length_le_lastFit {s : List α} (hs : s <:+ l) (h : fits s) :
    s.length ≤ (lastFit fits l).length := by
  induction l with
  | nil => exact hs.length_le
  | cons x l ih =>
      rw [lastFit]
      split
      case isTrue => exact hs.length_le
      case isFalse hx =>
        rcases List.suffix_cons_iff.mp hs with rfl | hs
        · exact absurd h hx
        · exact ih hs

/-- What the window has dropped does not matter for what it holds later. -/
theorem lastFit_concat (hm : Monotone fits) (l : List α) (x : α) :
    lastFit fits (lastFit fits l ++ [x]) = lastFit fits (l ++ [x]) := by
  induction l with
  | nil => rfl
  | cons y l ih =>
      by_cases h : fits (y :: l)
      · rw [lastFit_of_fits h]
      · have hx : ¬fits (y :: (l ++ [x])) := fun hx =>
          h (hm.sublist ((List.sublist_append_left l [x]).cons_cons y) hx)
        rw [lastFit, if_neg h, ih, List.cons_append, lastFit, if_neg hx]

/-- The last element is kept when it fits alone. -/
theorem lastFit_ne_nil (h : fits [x]) : lastFit fits (l ++ [x]) ≠ [] := by
  intro hnil
  have hle := length_le_lastFit (List.suffix_append l [x]) h
  rw [hnil] at hle
  exact absurd hle (by simp)

/-- A list is what comes before its window, and its window. -/
theorem take_lastFit (l : List α) :
    l.take (l.length - (lastFit fits l).length) ++ lastFit fits l = l :=
  (List.suffix_iff_eq_append.mp (lastFit_suffix l))

end Support
