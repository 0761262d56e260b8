import Mathlib.Data.Finset.Card

/-!
# Support — Recent

A queue of a bounded number of entries, the one that was used last at its end.  `touch` puts an
entry there, under a new value, and takes the oldest one out where there is no room.

* `kept_touch` — the entry that was put there is found (`Kept.held`).
* `Kept.touch` — and stays, with its value, for as long as fewer other keys than there is room for
  are used (`Kept` names them).
-/

namespace Support.Recent

variable {κ α : Type} [DecidableEq κ]

/-- The value of the first entry of a key. -/
def held (key : κ) (queue : List (κ × α)) : Option α :=
  (queue.find? fun entry => entry.1 = key).map Prod.snd

/-- Put an entry at the end. -/
def touch (capacity : Nat) (key : κ) (value : α) (queue : List (κ × α)) : List (κ × α) :=
  let others := queue.eraseP fun entry => entry.1 = key
  (if others.length = capacity then others.tail else others) ++ [(key, value)]

variable {capacity : Nat} {key other : κ} {value a : α} {queue : List (κ × α)}

theorem eraseP_eq_filter (h : (queue.map Prod.fst).Nodup) :
    queue.eraseP (fun entry => entry.1 = key) = queue.filter fun entry => entry.1 ≠ key := by
  induction queue with
  | nil => rfl
  | cons entry queue ih =>
      rw [List.map_cons, List.nodup_cons] at h
      by_cases hkey : entry.1 = key
      · rw [List.eraseP_cons_of_pos (by simpa using hkey),
          List.filter_cons_of_neg (by simpa using hkey), List.filter_eq_self.mpr]
        intro later hlater
        have hne : later.1 ≠ key := fun h' => h.1 (hkey ▸ h' ▸ List.mem_map_of_mem hlater)
        simpa using hne
      · rw [List.eraseP_cons_of_neg (by simpa using hkey),
          List.filter_cons_of_pos (by simpa using hkey), ih h.2]

/-- What `touch` keeps of the other entries. -/
def rest (capacity : Nat) (key : κ) (queue : List (κ × α)) : List (κ × α) :=
  let others := queue.filter fun entry => entry.1 ≠ key
  if others.length = capacity then others.tail else others

theorem touch_eq (h : (queue.map Prod.fst).Nodup) :
    touch capacity key value queue = rest capacity key queue ++ [(key, value)] := by
  rw [touch, eraseP_eq_filter h, rest]

theorem rest_sublist : (rest capacity key queue).Sublist (queue.filter fun entry => entry.1 ≠ key) := by
  rw [rest]
  split
  · exact List.tail_sublist _
  · exact List.Sublist.refl _

theorem not_mem_rest : key ∉ (rest capacity key queue).map Prod.fst := by
  intro h
  obtain ⟨entry, hentry, rfl⟩ := List.mem_map.mp h
  have hne := (List.mem_filter.mp (rest_sublist.subset hentry)).2
  simp at hne

theorem nodup_touch (h : (queue.map Prod.fst).Nodup) :
    ((touch capacity key value queue).map Prod.fst).Nodup := by
  rw [touch_eq h, List.map_append, List.nodup_append]
  refine ⟨((rest_sublist.trans List.filter_sublist).map Prod.fst).nodup h, by simp, ?_⟩
  rintro j hj i hi rfl
  obtain rfl := List.mem_singleton.mp hi
  exact not_mem_rest hj

/-- The entry is there, and behind it only such of the keys that are named. -/
def Kept (others : Finset κ) (key : κ) (value : α) (queue : List (κ × α)) : Prop :=
  (queue.map Prod.fst).Nodup ∧ ∃ before after, queue = before ++ (key, value) :: after ∧
    ∀ entry ∈ after, entry.1 ∈ others

variable {others : Finset κ}

theorem Kept.held (h : Kept others key value queue) : held key queue = some value := by
  obtain ⟨hnodup, before, after, rfl, -⟩ := h
  rw [List.map_append, List.nodup_append] at hnodup
  have hnone : before.find? (fun entry => entry.1 = key) = none := by
    rw [List.find?_eq_none]
    intro entry hentry hkey
    exact hnodup.2.2 entry.1 (List.mem_map_of_mem hentry) key (by simp) (of_decide_eq_true hkey)
  simp [Recent.held, List.find?_append, hnone]

theorem kept_touch (h : (queue.map Prod.fst).Nodup) :
    Kept others key value (touch capacity key value queue) :=
  ⟨nodup_touch h, rest capacity key queue, [], touch_eq h, by simp⟩

/-- The use of another key leaves the entry where fewer keys are used than there is room for. -/
theorem Kept.touch (h : Kept others key value queue) (hother : other ∈ others) (hkey : key ∉ others)
    (hroom : others.card < capacity) : Kept others key value (touch capacity other a queue) := by
  obtain ⟨hnodup, before, after, hqueue, hafter⟩ := h
  refine ⟨nodup_touch hnodup, ?_⟩
  have hne : key ≠ other := fun h => hkey (h ▸ hother)
  have hfilter : (queue.filter fun entry => entry.1 ≠ other) =
      before.filter (fun entry => entry.1 ≠ other) ++
        (key, value) :: after.filter fun entry => entry.1 ≠ other := by
    rw [hqueue, List.filter_append, List.filter_cons_of_pos (by simpa using hne)]
  -- the keys behind the entry are named ones, without the one that is used now
  have hfew : (after.filter fun entry => entry.1 ≠ other).length + 1 ≤ others.card := by
    have hsub : ((after.filter fun entry => entry.1 ≠ other).map Prod.fst).toFinset ⊆
        others.erase other := by
      intro j hj
      obtain ⟨entry, hentry, rfl⟩ := List.mem_map.mp (List.mem_toFinset.mp hj)
      obtain ⟨hin, hentry⟩ := List.mem_filter.mp hentry
      exact Finset.mem_erase.mpr ⟨by simpa using hentry, hafter entry hin⟩
    have hnodup' : ((after.filter fun entry => entry.1 ≠ other).map Prod.fst).Nodup := by
      have hlist : (after.filter fun entry => entry.1 ≠ other).Sublist queue := by
        rw [hqueue]
        exact List.filter_sublist.trans ((List.sublist_cons_self _ _).trans
          (List.sublist_append_right _ _))
      exact (hlist.map Prod.fst).nodup hnodup
    have hcard := Finset.card_le_card hsub
    rw [List.toFinset_card_of_nodup hnodup', List.length_map, Finset.card_erase_of_mem hother]
      at hcard
    have hpos := Finset.card_pos.mpr ⟨other, hother⟩
    omega
  have hnamed : ∀ entry ∈ (after.filter fun entry => entry.1 ≠ other) ++ [(other, a)],
      entry.1 ∈ others := by
    intro entry hentry
    rcases List.mem_append.mp hentry with hentry | hentry
    · exact hafter entry (List.mem_filter.mp hentry).1
    · rw [List.mem_singleton.mp hentry]
      exact hother
  rw [touch_eq hnodup, rest, hfilter]
  cases hbefore : before.filter fun entry => entry.1 ≠ other with
  | nil =>
      rw [List.nil_append, if_neg (by rw [List.length_cons]; omega)]
      exact ⟨[], _, by simp, hnamed⟩
  | cons first front =>
      split
      · exact ⟨front, _, by simp, hnamed⟩
      · exact ⟨first :: front, _, by simp, hnamed⟩

end Support.Recent
