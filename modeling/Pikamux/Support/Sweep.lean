import Pikamux.Support.Table

/-!
# Support — Sweep

Deleting from a table all rows from which a root can be reached through links between rows.  A stack
holds the keys to delete; when a key is taken from it, the rows that link to it are put on top.

* `Reaches` — from which keys a root can be reached.
* `sweep_congr` — a sweep only follows links to keys that it meets.
* `sweep_eq_some` — when no row links to itself and every link leads to a row, the sweep ends, deletes
  exactly those rows and counts them.
-/

namespace Support

variable {κ α : Type} [DecidableEq κ]

namespace Table

/-- The keys of the rows that link to `target`. -/
def linked (t : Table κ α) (links : α → κ → Bool) (target : κ) : List κ :=
  (t.rows.filter fun r => links r.2 target).map Prod.fst

/-- Delete the keys on the stack and what links to them. -/
def sweep (links : α → κ → Bool) : Nat → List κ → Nat → Table κ α → Option (Nat × Table κ α)
  | _, [], removed, t => some (removed, t)
  | 0, _ :: _, _, _ => none
  | fuel + 1, target :: pending, removed, t =>
      sweep links fuel ((t.linked links target).reverse ++ pending)
        (removed + if t.contains target then 1 else 0) (t.delete fun k _ => k = target)

/-- Enough steps for a sweep from `roots`. -/
def sweepFuel (t : Table κ α) (roots : List κ) : Nat :=
  roots.length + t.rows.length * (t.rows.length + 1)

/-- The keys from which one of the roots can be reached. -/
inductive Reaches (t : Table κ α) (links : α → κ → Bool) (roots : List κ) : κ → Prop where
  | root {k : κ} (h : k ∈ roots) : Reaches t links roots k
  | link {k j : κ} {a : α} (h : t.get? k = some a) (hl : links a j = true)
      (hj : Reaches t links roots j) : Reaches t links roots k

variable {t t' : Table κ α} {links : α → κ → Bool} {roots pending : List κ} {k j : κ} {a : α}

theorem mem_linked : k ∈ t.linked links j ↔ ∃ a, t.get? k = some a ∧ links a j = true := by
  simp only [linked, List.mem_map, List.mem_filter]
  constructor
  · rintro ⟨⟨k, a⟩, ⟨hr, hl⟩, rfl⟩
    exact ⟨a, mem_rows_iff.mp hr, hl⟩
  · rintro ⟨a, ha, hl⟩
    exact ⟨(k, a), ⟨mem_rows_iff.mpr ha, hl⟩, rfl⟩

theorem get?_deleteKey : (t.delete fun k _ => k = j).get? k = some a ↔
    t.get? k = some a ∧ k ≠ j := by
  rw [get?_delete, decide_eq_false_iff_not]

theorem get?_deleteKey_eq_none :
    (t.delete fun k _ => k = j).get? k = none ↔ k = j ∨ t.get? k = none := by
  constructor
  · intro h
    by_cases e : k = j
    · exact .inl e
    · refine .inr (Option.eq_none_iff_forall_ne_some.mpr fun a ha => ?_)
      rw [get?_deleteKey.mpr ⟨ha, e⟩] at h
      cases h
  · rintro (rfl | h)
    · refine Option.eq_none_iff_forall_ne_some.mpr fun a ha => ?_
      exact (get?_deleteKey.mp ha).2 rfl
    · refine Option.eq_none_iff_forall_ne_some.mpr fun a ha => ?_
      rw [(get?_deleteKey.mp ha).1] at h
      cases h

/-- Deleting a key deletes one row when it is there. -/
theorem length_deleteKey (t : Table κ α) (j : κ) :
    (t.delete fun k _ => k = j).rows.length + (if t.contains j then 1 else 0) =
      t.rows.length := by
  have hcount : (t.rows.filter fun r => r.1 = j).length = if t.contains j then 1 else 0 := by
    rw [← List.countP_eq_length_filter,
      show t.rows.countP (fun r => r.1 = j) = (t.rows.map Prod.fst).count j by
        rw [List.count, List.countP_map]
        exact List.countP_congr fun r _ => by simp]
    split
    case isTrue h =>
      refine List.count_eq_one_of_mem t.nodup ?_
      obtain ⟨a, ha⟩ := Option.isSome_iff_exists.mp h
      exact List.mem_map_of_mem (mem_rows_iff.mpr ha)
    case isFalse h =>
      refine List.count_eq_zero_of_not_mem (get?_eq_none_iff.mp ?_)
      simpa [contains] using h
  have hsplit := List.length_eq_length_filter_add (l := t.rows) fun r => decide (r.1 = j)
  rw [hcount] at hsplit
  have hdelete : (t.delete fun k _ => k = j).rows = t.rows.filter fun r => !decide (r.1 = j) := rfl
  rw [hdelete]
  omega

/-- A sweep only follows links to keys that it meets. -/
theorem sweep_congr {links' : α → κ → Bool} {P : κ → Prop} (fuel : Nat) :
    ∀ {pending removed} {t : Table κ α}, (∀ k ∈ pending, P k) →
      (∀ k a, t.get? k = some a → P k ∧ ∀ j, P j → links a j = links' a j) →
      sweep links fuel pending removed t = sweep links' fuel pending removed t := by
  induction fuel with
  | zero =>
      intro pending removed t _ _
      cases pending <;> rfl
  | succ fuel ih =>
      intro pending removed t hpending hlinks
      cases pending with
      | nil => rfl
      | cons target pending =>
          have hlinked : t.linked links target = t.linked links' target := by
            refine congrArg (List.map Prod.fst) (List.filter_congr ?_)
            rintro ⟨k, a⟩ hr
            exact (hlinks k a (mem_rows_iff.mp hr)).2 target (hpending target List.mem_cons_self)
          rw [sweep, sweep, hlinked]
          refine ih ?_ ?_
          · intro k hk
            rcases List.mem_append.mp hk with hk | hk
            · obtain ⟨a, ha, -⟩ := mem_linked.mp (List.mem_reverse.mp hk)
              exact (hlinks k a ha).1
            · exact hpending k (List.mem_cons_of_mem _ hk)
          · intro k a hk
            exact hlinks k a (get?_deleteKey.mp hk).1

/-! ### What a sweep keeps -/

/-- The invariant of a sweep of `t₀`, with the stack `pending` and the rows of `t` left. -/
structure Sweeping (t₀ : Table κ α) (links : α → κ → Bool) (roots pending : List κ)
    (removed : Nat) (t : Table κ α) : Prop where
  kept : ∀ k a, t.get? k = some a → t₀.get? k = some a
  deleted : ∀ k, t₀.get? k ≠ none → t.get? k = none → Reaches t₀ links roots k
  reaches : ∀ k ∈ pending, Reaches t₀ links roots k
  /-- What links to a key that was deleted lies above it on the stack. -/
  above : ∀ upper j lower, pending = upper ++ j :: lower → t.get? j = none →
    ∀ k a, t.get? k = some a → links a j = true → k ∈ upper
  waiting : ∀ j, t.get? j = none → ∀ k a, t.get? k = some a → links a j = true → k ∈ pending
  roots : ∀ k ∈ roots, k ∈ pending ∨ t.get? k = none
  count : removed + t.rows.length = t₀.rows.length

theorem Sweeping.start
    (hclosed : ∀ k a j, t.get? k = some a → links a j = true → t.get? j ≠ none) :
    Sweeping t links roots roots 0 t where
  kept _ _ h := h
  deleted _ h h' := absurd h' h
  reaches _ h := .root h
  above _ j _ _ hj k a hk hl := absurd hj (hclosed k a j hk hl)
  waiting j hj k a hk hl := absurd hj (hclosed k a j hk hl)
  roots _ h := .inl h
  count := Nat.zero_add _

/-- A key is taken from the stack. -/
theorem Sweeping.step {t₀ : Table κ α} {removed : Nat} {target : κ}
    (h : Sweeping t₀ links roots (target :: pending) removed t)
    (hself : ∀ k a, t₀.get? k = some a → links a k = false) :
    Sweeping t₀ links roots ((t.linked links target).reverse ++ pending)
      (removed + if t.contains target then 1 else 0) (t.delete fun k _ => k = target) where
  kept k a hk := h.kept k a (get?_deleteKey.mp hk).1
  deleted k hk hdel := by
    rcases get?_deleteKey_eq_none.mp hdel with rfl | hdel
    · exact h.reaches k List.mem_cons_self
    · exact h.deleted k hk hdel
  reaches k hk := by
    rcases List.mem_append.mp hk with hk | hk
    · obtain ⟨a, ha, hl⟩ := mem_linked.mp (List.mem_reverse.mp hk)
      exact .link (h.kept k a ha) hl (h.reaches target List.mem_cons_self)
    · exact h.reaches k (List.mem_cons_of_mem _ hk)
  above upper j lower hsplit hj k a hk hl := by
    obtain ⟨hrow, hne⟩ := get?_deleteKey.mp hk
    have hdel := get?_deleteKey_eq_none.mp hj
    rcases List.append_eq_append_iff.mp hsplit with ⟨mid, hupper, hpending⟩ | ⟨mid, hnew, hlower⟩
    · subst hupper
      rcases hdel with rfl | hdel
      · exact List.mem_append_left _ (List.mem_reverse.mpr (mem_linked.mpr ⟨a, hrow, hl⟩))
      · have hmem := h.above (target :: mid) j lower (by rw [hpending]; rfl) hdel k a hrow hl
        exact List.mem_append_right _ ((List.mem_cons.mp hmem).resolve_left hne)
    · cases mid with
      | nil =>
          rw [List.append_nil] at hnew
          rw [← hnew]
          rcases hdel with rfl | hdel
          · exact List.mem_reverse.mpr (mem_linked.mpr ⟨a, hrow, hl⟩)
          · have hmem := h.above [target] j lower (by rw [List.nil_append] at hlower; rw [← hlower]; rfl)
              hdel k a hrow hl
            exact absurd (List.mem_singleton.mp hmem) hne
      | cons j' mid =>
          -- what is put on the stack now is not deleted yet
          obtain ⟨rfl, -⟩ := List.cons.inj hlower
          have hj : j ∈ (t.linked links target).reverse := by simp [hnew]
          obtain ⟨b, hb, hlb⟩ := mem_linked.mp (List.mem_reverse.mp hj)
          rcases hdel with rfl | hdel
          · rw [hself _ b (h.kept _ b hb)] at hlb
            cases hlb
          · rw [hdel] at hb
            cases hb
  waiting j hj k a hk hl := by
    obtain ⟨hrow, hne⟩ := get?_deleteKey.mp hk
    rcases get?_deleteKey_eq_none.mp hj with e | hj
    · subst e
      exact List.mem_append_left _ (List.mem_reverse.mpr (mem_linked.mpr ⟨a, hrow, hl⟩))
    · have hmem := (List.mem_cons.mp (h.waiting j hj k a hrow hl)).resolve_left hne
      exact List.mem_append_right _ hmem
  roots k hk := by
    rcases h.roots k hk with hp | hdel
    · rcases List.mem_cons.mp hp with rfl | hp
      · exact .inr (get?_deleteKey_eq_none.mpr (.inl rfl))
      · exact .inl (List.mem_append_right _ hp)
    · exact .inr (get?_deleteKey_eq_none.mpr (.inr hdel))
  count := by
    have hlen := length_deleteKey t target
    have hcount := h.count
    omega

/-- Taking a key costs less than is left. -/
theorem Sweeping.fuel {t₀ : Table κ α} {removed : Nat} {target : κ}
    (h : Sweeping t₀ links roots (target :: pending) removed t) :
    ((t.linked links target).reverse ++ pending).length +
        (t.delete fun k _ => k = target).rows.length * (t₀.rows.length + 1) <
      (target :: pending).length + t.rows.length * (t₀.rows.length + 1) := by
  have hlen := length_deleteKey t target
  have hle : (t.linked links target).length ≤ t.rows.length := by
    rw [linked, List.length_map]
    exact List.length_filter_le _ _
  have hcount := h.count
  rw [List.length_append, List.length_reverse, List.length_cons]
  split at hlen
  case isTrue hin =>
    rw [← hlen, Nat.add_mul, Nat.one_mul]
    omega
  case isFalse hout =>
    have hnone : t.get? target = none := by simpa [contains] using hout
    have hlinked : t.linked links target = [] := by
      refine List.eq_nil_iff_forall_not_mem.mpr fun k hk => ?_
      obtain ⟨a, ha, hl⟩ := mem_linked.mp hk
      simpa using h.above [] target pending rfl hnone k a ha hl
    rw [hlinked, ← hlen]
    simp

theorem Sweeping.run {t₀ : Table κ α} (hself : ∀ k a, t₀.get? k = some a → links a k = false)
    (fuel : Nat) : ∀ {pending removed} {t : Table κ α}, Sweeping t₀ links roots pending removed t →
      pending.length + t.rows.length * (t₀.rows.length + 1) ≤ fuel →
      ∃ n t', sweep links fuel pending removed t = some (n, t') ∧
        Sweeping t₀ links roots [] n t' := by
  induction fuel with
  | zero =>
      intro pending removed t h hfuel
      cases pending with
      | nil => exact ⟨removed, t, rfl, h⟩
      | cons target pending => simp at hfuel
  | succ fuel ih =>
      intro pending removed t h hfuel
      cases pending with
      | nil => exact ⟨removed, t, rfl, h⟩
      | cons target pending =>
          refine ih (h.step hself) ?_
          have hless := h.fuel
          omega

/-- What is left when the stack is empty. -/
theorem Sweeping.done {t₀ : Table κ α} {removed : Nat}
    (h : Sweeping t₀ links roots [] removed t) :
    t.get? k = some a ↔ t₀.get? k = some a ∧ ¬ Reaches t₀ links roots k := by
  have hgone : ∀ k, Reaches t₀ links roots k → t.get? k = none := by
    intro k hk
    induction hk with
    | root hroot => exact (h.roots _ hroot).resolve_left List.not_mem_nil
    | @link k j b hb hl _ ih =>
        refine Option.eq_none_iff_forall_ne_some.mpr fun c hc => ?_
        have heq := (h.kept k c hc).symm.trans hb
        cases heq
        exact List.not_mem_nil (h.waiting j ih k _ hc hl)
  constructor
  · intro hk
    refine ⟨h.kept k a hk, fun hr => ?_⟩
    rw [hgone k hr] at hk
    cases hk
  · rintro ⟨hk, hr⟩
    cases hcur : t.get? k with
    | none => exact absurd (h.deleted k (by simp [hk]) hcur) hr
    | some b => rw [← h.kept k b hcur, hk]

/-- **A sweep.**  It ends, deletes exactly the rows from which a root can be reached, and counts
them. -/
theorem sweep_eq_some (hself : ∀ k a, t.get? k = some a → links a k = false)
    (hclosed : ∀ k a j, t.get? k = some a → links a j = true → t.get? j ≠ none)
    (roots : List κ) :
    ∃ n t', sweep links (t.sweepFuel roots) roots 0 t = some (n, t') ∧
      n + t'.rows.length = t.rows.length ∧
      ∀ k a, t'.get? k = some a ↔ t.get? k = some a ∧ ¬ Reaches t links roots k := by
  obtain ⟨n, t', hrun, h⟩ := Sweeping.run hself (t.sweepFuel roots)
    (Sweeping.start hclosed : Sweeping t links roots roots 0 t) (Nat.le_refl _)
  exact ⟨n, t', hrun, h.count, fun _ _ => h.done⟩

end Table

end Support
