import Mathlib.Tactic.Common

/-!
# Support — Map

Facts about ordered maps and sets (`BTreeMap` and `BTreeSet` are `Std.ExtTreeMap` and
`Std.ExtTreeSet`).

* `remaining` counts the keys a predicate still selects.  A loop that marks the keys it passes
  and stops at a marked one decreases it (`remaining_lt`).
* `count` counts the entries whose value satisfies a predicate; erasing an entry takes it out of
  the count (`count_erase`).
-/

namespace Support

open Std

variable {α β : Type} {cmp : α → α → Ordering} [TransCmp cmp]

theorem getElem!_of_getElem? [Inhabited β] {m : ExtTreeMap α β cmp} {k : α} {b : β}
    (h : m[k]? = some b) : m[k]! = b := by
  rw [ExtTreeMap.getElem!_eq_get!_getElem?, h, Option.get!_some]

theorem mem_of_getElem? {m : ExtTreeMap α β cmp} {k : α} {b : β} (h : m[k]? = some b) : k ∈ m :=
  ExtTreeMap.isSome_getElem?_iff_mem.mp (by simp [h])

theorem exists_of_mem {m : ExtTreeMap α β cmp} {k : α} (h : k ∈ m) : ∃ b, m[k]? = some b :=
  Option.isSome_iff_exists.mp (ExtTreeMap.isSome_getElem?_iff_mem.mpr h)

/-- How many keys of `m` satisfy `p`. -/
def remaining (m : ExtTreeMap α β cmp) (p : α → Bool) : Nat := (m.keys.filter p).length

/-- How many entries of `m` have a value satisfying `p`. -/
def count (m : ExtTreeMap α β cmp) (p : β → Bool) : Nat := (m.filter fun _ b => p b).size

theorem count_eq_length {m : ExtTreeMap α β cmp} {p : β → Bool} :
    count m p = (m.toList.filter fun e => p e.2).length := by
  rw [count, ← ExtTreeMap.length_toList, ExtTreeMap.toList_filter]

variable [LawfulEqCmp cmp]

theorem modified {m : ExtTreeMap α β cmp} {j k : α} {f : β → β} {b : β}
    (h : (m.modify j f)[k]? = some b) : m[k]? = some b ∨ ∃ c, m[k]? = some c ∧ b = f c := by
  rw [ExtTreeMap.getElem?_modify] at h
  split at h
  case isTrue e =>
    obtain rfl := LawfulEqCmp.eq_of_compare e
    obtain ⟨c, hc, rfl⟩ := Option.map_eq_some_iff.mp h
    exact .inr ⟨c, hc, rfl⟩
  case isFalse => exact .inl h

theorem filtered {m : ExtTreeMap α β cmp} {p : α → β → Bool} {k : α} {b : β} :
    (m.filter p)[k]? = some b ↔ m[k]? = some b ∧ p k b = true := by
  simp [ExtTreeMap.getElem?_filter]

/-! ### Marking keys -/

theorem remaining_lt {m : ExtTreeMap α β cmp} {p q : α → Bool} {k : α} (hk : k ∈ m)
    (hp : p k = true) (hq : q k = false) (h : ∀ j, q j = true → p j = true) :
    remaining m q < remaining m p := by
  have hsub : m.keys.filter q = (m.keys.filter p).filter q := by
    rw [List.filter_filter]
    refine List.filter_congr fun j _ => ?_
    cases hj : q j <;> simp [hj, h j]
  unfold remaining
  rw [hsub, List.length_filter_lt_length_iff_exists]
  exact ⟨k, List.mem_filter.mpr ⟨ExtTreeMap.mem_keys.mpr hk, hp⟩, by simp [hq]⟩

/-- Marking an unmarked key leaves fewer keys unmarked. -/
theorem remaining_insert_lt {m : ExtTreeMap α β cmp} {seen : ExtTreeSet α cmp} {k : α}
    (hk : k ∈ m) (hs : seen.contains k = false) :
    remaining m (fun j => !(seen.insert k).contains j) <
      remaining m (fun j => !seen.contains j) := by
  refine remaining_lt hk (by simp [hs]) (by simp) fun j hj => ?_
  simp only [ExtTreeSet.contains_insert, Bool.not_or, Bool.and_eq_true] at hj
  exact hj.2

/-- Redirecting a key to `b` leaves fewer keys directed elsewhere. -/
theorem remaining_redirect_lt [Inhabited β] [DecidableEq β] {γ : Type} {m : ExtTreeMap α γ cmp}
    {t : ExtTreeMap α β cmp} {k : α} {b : β} (hk : k ∈ m) (ht : t[k]! ≠ b) :
    remaining m (fun j => (t.insert k b)[j]! ≠ b) < remaining m (fun j => t[j]! ≠ b) := by
  refine remaining_lt hk (by simp [ht]) (by simp) fun j hj => ?_
  rw [ExtTreeMap.getElem!_insert] at hj
  split at hj <;> simp_all

/-! ### Counting entries -/

theorem count_pos_iff {m : ExtTreeMap α β cmp} {p : β → Bool} :
    0 < count m p ↔ ∃ (k : α) (b : β), m[k]? = some b ∧ p b = true := by
  rw [count_eq_length, List.length_pos_iff_exists_mem]
  constructor
  · rintro ⟨⟨k, b⟩, h⟩
    rw [List.mem_filter, ExtTreeMap.mem_toList_iff_getElem?_eq_some] at h
    exact ⟨k, b, h⟩
  · rintro ⟨k, b, h⟩
    refine ⟨(k, b), ?_⟩
    rwa [List.mem_filter, ExtTreeMap.mem_toList_iff_getElem?_eq_some]

/-- Erasing an entry takes it out of the count. -/
theorem count_erase {m : ExtTreeMap α β cmp} {p : β → Bool} {k : α} {b : β}
    (h : m[k]? = some b) : count (m.erase k) p = count m p - (if p b = true then 1 else 0) := by
  have hf : (m.erase k).filter (fun _ b => p b) = (m.filter fun _ b => p b).erase k := by
    refine ExtTreeMap.ext_getElem? fun j => ?_
    simp only [ExtTreeMap.getElem?_filter, ExtTreeMap.getElem?_erase]
    split <;> simp
  rw [count, hf, ExtTreeMap.size_erase]
  cases hp : p b <;> simp [ExtTreeMap.contains_eq_isSome_getElem?, h, hp, count]

end Support
