import Mathlib.Tactic.Common

/-!
# Support — Lines

A list cut at its separators.

* `splitOnce` — what comes before and after the first place of a separator; `contains` is whether
  it has one.
* `pieces` — what comes before the first separator, and the pieces after it.
* `exists_joined`, `complete_joined` — the pieces that a separator ends, and what follows the last
  separator.
* `pieces_append` — a list is cut from its end: of what was cut already, only the first piece is
  looked at again.
-/

namespace Support

variable {α : Type} [DecidableEq α] {sep : α} {l : List α}

/-- What comes before the first place where the separator stands, and what comes after it. -/
def splitOnce (separator : List α) : List α → Option (List α × List α)
  | [] => none
  | a :: l =>
      if separator.isPrefixOf (a :: l) then some ([], (a :: l).drop separator.length)
      else (splitOnce separator l).map fun (before, after) => (a :: before, after)

/-- Whether a list stands somewhere in another one. -/
def contains (l needle : List α) : Bool := (splitOnce needle l).isSome || needle.isEmpty

theorem splitOnce_cons {before after : List α} (h : sep ∉ before) :
    splitOnce [sep] (before ++ sep :: after) = some (before, after) := by
  induction before with
  | nil => simp [splitOnce]
  | cons a before ih =>
      rw [List.mem_cons, not_or] at h
      rw [List.cons_append, splitOnce, ih h.2]
      simp [h.1]

/-- What was cut is what comes before the separator, the separator, and what comes after it. -/
theorem splitOnce_eq {separator before after : List α}
    (h : splitOnce separator l = some (before, after)) : l = before ++ separator ++ after := by
  induction l generalizing before with
  | nil => cases h
  | cons a l ih =>
      rw [splitOnce] at h
      split at h
      · next hstart =>
          cases h
          exact (List.prefix_iff_eq_append.mp (List.isPrefixOf_iff_prefix.mp hstart)).symm
      · obtain ⟨⟨first, last⟩, hl, heq⟩ := Option.map_eq_some_iff.mp h
        cases heq
        rw [ih hl, List.cons_append, List.cons_append]

/-- What follows does not change where a list is cut. -/
theorem splitOnce_append {separator before after : List α}
    (h : splitOnce separator l = some (before, after)) (rest : List α) :
    splitOnce separator (l ++ rest) = some (before, after ++ rest) := by
  induction l generalizing before with
  | nil => cases h
  | cons a l ih =>
      rw [List.cons_append, splitOnce]
      rw [splitOnce] at h
      split at h
      · next hstart =>
          have hle := (List.isPrefixOf_iff_prefix.mp hstart).length_le
          have hlong : separator.isPrefixOf (a :: (l ++ rest)) = true :=
            List.isPrefixOf_iff_prefix.mpr ((List.isPrefixOf_iff_prefix.mp hstart).trans
              (List.prefix_append (a :: l) rest))
          cases h
          rw [if_pos hlong, ← List.cons_append, List.drop_append_of_le_length hle]
      · next hstart =>
          obtain ⟨⟨first, last⟩, hl, heq⟩ := Option.map_eq_some_iff.mp h
          cases heq
          have hle := congrArg List.length (splitOnce_eq hl)
          rw [if_neg, ih hl]
          · rfl
          · intro hlong
            refine hstart (List.isPrefixOf_iff_prefix.mpr ?_)
            refine List.prefix_of_prefix_length_le (List.isPrefixOf_iff_prefix.mp hlong)
              (List.prefix_append (a :: l) rest) ?_
            simp only [List.length_append, List.length_cons] at hle ⊢
            omega

/-- A list that ends before the separator does is not cut. -/
theorem splitOnce_none {separator before after short : List α}
    (h : splitOnce separator l = some (before, after)) (hshort : short <+: l)
    (hlt : short.length < (before ++ separator).length) : splitOnce separator short = none := by
  cases hcut : splitOnce separator short with
  | none => rfl
  | some cut =>
      obtain ⟨first, last⟩ := cut
      obtain ⟨rest, rfl⟩ := hshort
      have hlong := splitOnce_append hcut rest
      rw [h] at hlong
      cases hlong
      have hle := congrArg List.length (splitOnce_eq hcut)
      simp only [List.length_append] at hle hlt
      omega

/-- What comes before the first separator, and the pieces between the separators and after the last
one. -/
def pieces (sep : α) : List α → List α × List (List α)
  | [] => ([], [])
  | a :: l =>
      if a = sep then ([], (pieces sep l).1 :: (pieces sep l).2)
      else (a :: (pieces sep l).1, (pieces sep l).2)

theorem pieces_of_not_mem (h : sep ∉ l) : pieces sep l = (l, []) := by
  induction l with
  | nil => rfl
  | cons a l ih =>
      rw [List.mem_cons, not_or] at h
      rw [pieces, if_neg (Ne.symm h.1), ih h.2]

theorem not_mem_pieces_fst (sep : α) (l : List α) : sep ∉ (pieces sep l).1 := by
  induction l with
  | nil => exact List.not_mem_nil
  | cons a l ih =>
      rw [pieces]
      split
      case isTrue => exact List.not_mem_nil
      case isFalse h => simp [Ne.symm h, ih]

/-- What is put before a list only meets its first piece. -/
theorem pieces_append (sep : α) (x y : List α) :
    pieces sep (x ++ y) = ((pieces sep (x ++ (pieces sep y).1)).1,
      (pieces sep (x ++ (pieces sep y).1)).2 ++ (pieces sep y).2) := by
  induction x with
  | nil => simp [pieces_of_not_mem (not_mem_pieces_fst sep y)]
  | cons a x ih =>
      rw [List.cons_append, List.cons_append, pieces, pieces, ih]
      split <;> rfl

/-! ### Complete pieces -/

/-- The pieces that a separator ends. -/
def complete (sep : α) (l : List α) : List (List α) :=
  ((pieces sep l).1 :: (pieces sep l).2).dropLast

/-- What follows the last separator. -/
def unfinished (sep : α) (l : List α) : List α :=
  ((pieces sep l).1 :: (pieces sep l).2).getLast (List.cons_ne_nil _ _)

/-- Pieces, each with a separator at its end. -/
def joined (sep : α) (ps : List (List α)) : List α := ps.flatMap (· ++ [sep])

variable {p t : List α} {ps qs : List (List α)}

omit [DecidableEq α] in
@[simp] theorem joined_nil : joined sep [] = [] := rfl

omit [DecidableEq α] in
theorem joined_cons : joined sep (p :: ps) = p ++ sep :: joined sep ps := by
  simp [joined]

omit [DecidableEq α] in
theorem joined_append : joined sep (ps ++ qs) = joined sep ps ++ joined sep qs := by
  simp [joined]

omit [DecidableEq α] in
/-- What was joined ends with a separator. -/
theorem getElem?_joined (h : ps ≠ []) :
    (joined sep ps)[(joined sep ps).length - 1]? = some sep := by
  rw [← List.dropLast_concat_getLast h]
  simp [joined_append, joined_cons, ← List.append_assoc]

theorem complete_of_not_mem (h : sep ∉ t) : complete sep t = [] ∧ unfinished sep t = t := by
  simp [complete, unfinished, pieces_of_not_mem h]

theorem pieces_cons (h : sep ∉ p) :
    pieces sep (p ++ sep :: l) = (p, (pieces sep l).1 :: (pieces sep l).2) := by
  rw [pieces_append, pieces, if_pos rfl, List.append_nil, pieces_of_not_mem h]
  rfl

theorem complete_cons (h : sep ∉ p) :
    complete sep (p ++ sep :: l) = p :: complete sep l ∧
      unfinished sep (p ++ sep :: l) = unfinished sep l := by
  simp [complete, unfinished, pieces_cons h]

/-- The pieces that were joined are found again. -/
theorem complete_joined (hps : ∀ p ∈ ps, sep ∉ p) (ht : sep ∉ t) :
    complete sep (joined sep ps ++ t) = ps ∧ unfinished sep (joined sep ps ++ t) = t := by
  induction ps with
  | nil => exact complete_of_not_mem ht
  | cons p ps ih =>
      obtain ⟨hp, hps⟩ := List.forall_mem_cons.mp hps
      obtain ⟨hcomplete, hunfinished⟩ := ih hps
      rw [joined_cons, List.append_assoc, List.cons_append]
      obtain ⟨hcons, hlast⟩ := @complete_cons _ _ sep (joined sep ps ++ t) p hp
      rw [hcons, hlast, hcomplete, hunfinished]
      exact ⟨rfl, rfl⟩

/-- A list is its complete pieces and what follows them. -/
theorem exists_joined (sep : α) (l : List α) :
    ∃ ps t, l = joined sep ps ++ t ∧ (∀ p ∈ ps, sep ∉ p) ∧ sep ∉ t := by
  induction l with
  | nil => exact ⟨[], [], rfl, by simp, List.not_mem_nil⟩
  | cons a l ih =>
      obtain ⟨ps, t, rfl, hps, ht⟩ := ih
      by_cases ha : a = sep
      · refine ⟨[] :: ps, t, by simp [joined_cons, ha], ?_, ht⟩
        exact List.forall_mem_cons.mpr ⟨List.not_mem_nil, hps⟩
      · cases ps with
        | nil => exact ⟨[], a :: t, rfl, by simp, by simp [Ne.symm ha, ht]⟩
        | cons p ps =>
            obtain ⟨hp, hps⟩ := List.forall_mem_cons.mp hps
            refine ⟨(a :: p) :: ps, t, by simp [joined_cons], ?_, ht⟩
            exact List.forall_mem_cons.mpr ⟨by simp [Ne.symm ha, hp], hps⟩

omit [DecidableEq α] in
/-- A separator stands at the end of a piece. -/
theorem exists_cut {i : Nat} (hps : ∀ p ∈ ps, sep ∉ p) (ht : sep ∉ t)
    (h : (joined sep ps ++ t)[i]? = some sep) :
    ∃ before after, ps = before ++ after ∧ (joined sep before).length = i + 1 := by
  induction ps generalizing i with
  | nil => exact absurd (List.mem_of_getElem? h) ht
  | cons p ps ih =>
      obtain ⟨hp, hps⟩ := List.forall_mem_cons.mp hps
      rw [joined_cons, List.append_assoc, List.cons_append] at h
      rcases Nat.lt_trichotomy i p.length with hi | rfl | hi
      · rw [List.getElem?_append_left hi] at h
        exact absurd (List.mem_of_getElem? h) hp
      · exact ⟨[p], ps, rfl, by simp [joined_cons]⟩
      · obtain ⟨k, rfl⟩ := Nat.exists_eq_add_of_lt hi
        rw [List.getElem?_append_right (by omega)] at h
        have hk : p.length + k + 1 - p.length = k + 1 := by omega
        rw [hk, List.getElem?_cons_succ] at h
        obtain ⟨before, after, rfl, hlength⟩ := ih hps h
        refine ⟨p :: before, after, rfl, ?_⟩
        rw [joined_cons, List.length_append, List.length_cons, hlength]
        omega

end Support
