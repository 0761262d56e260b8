import Mathlib.Algebra.Order.BigOperators.Group.List
import Mathlib.Algebra.Order.Ring.Nat
import Mathlib.Data.List.Find
import Mathlib.Data.List.Nodup

/-!
# Support — Table

A table with a primary key: rows in insertion order, no two with one key.

* `insert?` and `insertAll?` fail on a key that is there; `update` changes rows by their key and
  value; `delete` drops rows.
* `get?_insert?`, `get?_update`, `get?_delete`, `get?_erase` — what a lookup finds afterwards.
* `find?` is the first row with a property; changes that do not concern it leave it
  (`find?_modify`, `find?_delete`).
* `sum` adds up a quantity of the rows.  An insertion adds the new row's (`sum_insert?`), and an
  update of one row exchanges what that row contributes (`sum_update_key`).
-/

namespace Support

variable {κ α : Type} [DecidableEq κ]

structure Table (κ α : Type) where
  rows : List (κ × α) := []
  nodup : (rows.map Prod.fst).Nodup := by simp

namespace Table

variable {t t' : Table κ α} {k j : κ} {a b : α}

instance : EmptyCollection (Table κ α) := ⟨{}⟩

instance : Inhabited (Table κ α) := ⟨∅⟩

def get? (t : Table κ α) (k : κ) : Option α := t.rows.lookup k

def contains (t : Table κ α) (k : κ) : Bool := (t.get? k).isSome

/-- Add a row; its key must be new. -/
def insert? (t : Table κ α) (k : κ) (a : α) : Option (Table κ α) :=
  if h : k ∈ t.rows.map Prod.fst then none
  else some ⟨t.rows ++ [(k, a)], by
    rw [List.map_append]
    exact List.nodup_append.mpr ⟨t.nodup, by simp, fun j hj i hi e => h (by simp_all)⟩⟩

/-- Add rows one after the other; their keys must be new. -/
def insertAll? (t : Table κ α) : List (κ × α) → Option (Table κ α)
  | [] => some t
  | (k, a) :: rows => (t.insert? k a).bind fun t => t.insertAll? rows

/-- Add a row, unless its key is there. -/
def insertOrIgnore (t : Table κ α) (k : κ) (a : α) : Table κ α := (t.insert? k a).getD t

/-- Change every row as `f` says. -/
def update (t : Table κ α) (f : κ → α → α) : Table κ α :=
  ⟨t.rows.map fun r => (r.1, f r.1 r.2), by simpa [List.map_map, Function.comp_def] using t.nodup⟩

/-- Change the row of one key. -/
def modify (t : Table κ α) (k : κ) (f : α → α) : Table κ α :=
  t.update fun j a => if j = k then f a else a

/-- Add a row, or replace the one with its key. -/
def upsert (t : Table κ α) (k : κ) (a : α) : Table κ α :=
  (t.insert? k a).getD (t.modify k fun _ => a)

/-- Drop the rows `p` holds of. -/
def delete (t : Table κ α) (p : κ → α → Bool) : Table κ α :=
  ⟨t.rows.filter fun r => !p r.1 r.2, (List.filter_sublist.map Prod.fst).nodup t.nodup⟩

/-- Drop the row of one key. -/
def erase (t : Table κ α) (k : κ) : Table κ α := t.delete fun j _ => j = k

/-- Add up `f` over the rows. -/
def sum (t : Table κ α) (f : κ → α → Nat) : Nat := (t.rows.map fun r => f r.1 r.2).sum

/-- Some row satisfies `p`. -/
def any (t : Table κ α) (p : κ → α → Bool) : Bool := t.rows.any fun r => p r.1 r.2

@[simp] theorem get?_empty (k : κ) : (∅ : Table κ α).get? k = none := rfl

theorem mem_rows_iff : (k, a) ∈ t.rows ↔ t.get? k = some a := by
  obtain ⟨rows, h⟩ := t
  simp only [get?]
  induction rows with
  | nil => simp
  | cons r rows ih =>
      obtain ⟨j, b⟩ := r
      simp only [List.map_cons, List.nodup_cons] at h
      by_cases e : k = j
      · subst e
        have hnot : (k, a) ∉ rows := fun hm => h.1 (List.mem_map_of_mem hm)
        simp [hnot, eq_comm]
      · have hb : (k == j) = false := by simpa using e
        simp [List.lookup_cons, hb, e, ih h.2]

theorem get?_eq_none_iff : t.get? k = none ↔ k ∉ t.rows.map Prod.fst := by
  constructor
  · intro h hm
    obtain ⟨⟨j, a⟩, hr, rfl⟩ := List.mem_map.mp hm
    rw [mem_rows_iff.mp hr] at h
    cases h
  · intro h
    by_contra hn
    obtain ⟨a, ha⟩ := Option.ne_none_iff_exists'.mp hn
    exact h (List.mem_map_of_mem (mem_rows_iff.mpr ha))

theorem get?_congr (h : ∀ a, t'.get? k = some a ↔ t.get? j = some a) : t'.get? k = t.get? j :=
  Option.ext h

theorem any_iff {p : κ → α → Bool} :
    t.any p = true ↔ ∃ k a, t.get? k = some a ∧ p k a = true := by
  simp only [any, List.any_eq_true]
  constructor
  · rintro ⟨⟨k, a⟩, hr, hp⟩
    exact ⟨k, a, mem_rows_iff.mp hr, hp⟩
  · rintro ⟨k, a, ha, hp⟩
    exact ⟨(k, a), mem_rows_iff.mpr ha, hp⟩

/-! ### Lookups after a change -/

theorem insert?_eq_some :
    t.insert? k a = some t' ↔ t.get? k = none ∧ t'.rows = t.rows ++ [(k, a)] := by
  obtain ⟨rows', h'⟩ := t'
  rw [get?_eq_none_iff, insert?]
  split
  case isTrue h => simp [h]
  case isFalse h => simp [h, eq_comm]

theorem exists_insert? (h : t.get? k = none) (a : α) : ∃ t', t.insert? k a = some t' := by
  rw [get?_eq_none_iff] at h
  rw [insert?, dif_neg h]
  exact ⟨_, rfl⟩

theorem insert?_of_get? (h : t.get? k = some b) : t.insert? k a = none := by
  rw [Option.eq_none_iff_forall_ne_some]
  intro t' ht'
  rw [(insert?_eq_some.mp ht').1] at h
  cases h

theorem get?_insert? (h : t.insert? k a = some t') (j : κ) :
    t'.get? j = if j = k then some a else t.get? j := by
  obtain ⟨hnone, hrows⟩ := insert?_eq_some.mp h
  rw [get?, hrows, List.lookup_append]
  by_cases e : j = k
  · subst e
    rw [if_pos rfl, ← get?, hnone]
    simp
  · have hb : (j == k) = false := by simpa using e
    simp [if_neg e, get?, List.lookup_cons, List.lookup_nil, hb]

/-- What was there stays, and all that was added is there. -/
theorem get?_insertAll? {rows : List (κ × α)} (h : t.insertAll? rows = some t') :
    (∀ k a, t.get? k = some a → t'.get? k = some a) ∧
      ∀ k a, (k, a) ∈ rows → t'.get? k = some a := by
  induction rows generalizing t with
  | nil =>
      cases h
      exact ⟨fun _ _ h => h, by simp⟩
  | cons row rows ih =>
      obtain ⟨j, b⟩ := row
      obtain ⟨next, hnext, h⟩ := Option.bind_eq_some_iff.mp h
      obtain ⟨hold, hnew⟩ := ih h
      refine ⟨fun k a hk => hold k a ?_, fun k a hmem => ?_⟩
      · rw [get?_insert? hnext, if_neg, hk]
        rintro rfl
        rw [(insert?_eq_some.mp hnext).1] at hk
        cases hk
      · rcases List.mem_cons.mp hmem with heq | hmem
        · cases heq
          exact hold j b (by rw [get?_insert? hnext, if_pos rfl])
        · exact hnew k a hmem

theorem get?_update (t : Table κ α) (f : κ → α → α) (k : κ) :
    (t.update f).get? k = (t.get? k).map (f k) := by
  obtain ⟨rows, h⟩ := t
  simp only [get?, update]
  clear h
  induction rows with
  | nil => rfl
  | cons r rows ih =>
      obtain ⟨j, b⟩ := r
      by_cases e : k = j
      · subst e
        simp
      · have hb : (k == j) = false := by simpa using e
        simpa [List.lookup_cons, List.lookup_nil, hb] using ih

theorem get?_modify (t : Table κ α) (k : κ) (f : α → α) (j : κ) :
    (t.modify k f).get? j = if j = k then (t.get? j).map f else t.get? j := by
  rw [modify, get?_update]
  split <;> simp_all

/-- What was there stays; a new key has the new row. -/
theorem get?_insertOrIgnore (t : Table κ α) (k : κ) (a : α) (j : κ) :
    (t.insertOrIgnore k a).get? j = if j = k then some ((t.get? k).getD a) else t.get? j := by
  cases hk : t.get? k with
  | none =>
      obtain ⟨t', h⟩ := exists_insert? hk a
      rw [insertOrIgnore, h]
      exact get?_insert? h j
  | some b =>
      rw [insertOrIgnore, insert?_of_get? hk, Option.getD_none]
      split
      case isTrue e => exact e ▸ hk
      case isFalse => rfl

theorem get?_upsert (t : Table κ α) (k : κ) (a : α) (j : κ) :
    (t.upsert k a).get? j = if j = k then some a else t.get? j := by
  cases hk : t.get? k with
  | none =>
      obtain ⟨t', h⟩ := exists_insert? hk a
      rw [upsert, h]
      exact get?_insert? h j
  | some b =>
      rw [upsert, insert?_of_get? hk, Option.getD_none, get?_modify]
      split
      case isTrue e => rw [e, hk, Option.map_some]
      case isFalse => rfl

theorem get?_delete {p : κ → α → Bool} :
    (t.delete p).get? k = some a ↔ t.get? k = some a ∧ p k a = false := by
  rw [← mem_rows_iff, ← mem_rows_iff]
  simp [delete]

theorem get?_erase (t : Table κ α) (k j : κ) :
    (t.erase k).get? j = if j = k then none else t.get? j := by
  refine Option.ext fun a => ?_
  rw [erase, get?_delete]
  by_cases e : j = k
  · simp [e]
  · simp [e]

theorem upsert_of_get? (h : t.get? k = some b) : t.upsert k a = t.modify k fun _ => a := by
  rw [upsert, insert?_of_get? h, Option.getD_none]

/-! ### Searches -/

/-- The first row of which `p` holds. -/
def find? (t : Table κ α) (p : κ → α → Bool) : Option (κ × α) := t.rows.find? fun r => p r.1 r.2

theorem find?_eq_some {p : κ → α → Bool} (h : t.find? p = some (k, a)) :
    t.get? k = some a ∧ p k a = true :=
  ⟨mem_rows_iff.mp (List.mem_of_find?_eq_some h), by simpa using List.find?_some h⟩

/-- A change of one row that `p` does not see. -/
theorem find?_modify {p : κ → α → Bool} {f : α → α}
    (hp : ∀ b, t.get? k = some b → p k (f b) = p k b) (h : t.find? p = some (j, a)) :
    (t.modify k f).find? p = some (j, if j = k then f a else a) := by
  rw [find?, modify, update, List.find?_map]
  have hsame : t.rows.find? ((fun r => p r.1 r.2) ∘ fun r : κ × α =>
      (r.1, if r.1 = k then f r.2 else r.2)) = t.find? p := by
    refine List.find?_congr fun r hr => ?_
    obtain ⟨i, b⟩ := r
    by_cases hi : i = k
    · subst hi
      simpa using hp b (mem_rows_iff.mp hr)
    · simp [hi]
  rw [hsame, h, Option.map_some]

omit [DecidableEq κ] in
/-- A deletion that leaves the row. -/
theorem find?_delete {p q : κ → α → Bool} (h : t.find? p = some (j, a)) (hq : q j a = false) :
    (t.delete q).find? p = some (j, a) := by
  rw [find?, delete, List.find?_filter]
  obtain ⟨hp, before, after, hrows, hbefore⟩ := List.find?_eq_some_iff_append.mp h
  rw [List.find?_eq_some_iff_append]
  refine ⟨by simpa [hq] using hp, before, after, hrows, fun r hr => ?_⟩
  have hr := hbefore r hr
  simp_all

/-! ### Sums -/

theorem sum_congr {f g : κ → α → Nat} (h : ∀ k a, t.get? k = some a → f k a = g k a) :
    t.sum f = t.sum g := by
  refine congrArg List.sum (List.map_congr_left ?_)
  rintro ⟨k, a⟩ hr
  exact h k a (mem_rows_iff.mp hr)

theorem sum_le_sum {f g : κ → α → Nat} (h : ∀ k a, t.get? k = some a → f k a ≤ g k a) :
    t.sum f ≤ t.sum g := by
  refine List.sum_le_sum ?_
  rintro ⟨k, a⟩ hr
  exact h k a (mem_rows_iff.mp hr)

theorem sum_eq_zero {f : κ → α → Nat} (h : ∀ k a, t.get? k = some a → f k a = 0) :
    t.sum f = 0 := by
  rw [sum_congr h]
  simp [sum]

theorem sum_insert? (h : t.insert? k a = some t') (f : κ → α → Nat) :
    t'.sum f = t.sum f + f k a := by
  rw [sum, (insert?_eq_some.mp h).2, List.map_append, List.sum_append]
  simp [sum]

omit [DecidableEq κ] in
theorem sum_update (f : κ → α → α) (g : κ → α → Nat) :
    (t.update f).sum g = t.sum fun k a => g k (f k a) := by
  simp [sum, update, List.map_map, Function.comp_def]

/-- Two quantities that differ only at one row. -/
theorem sum_exchange {f g : κ → α → Nat} (h : t.get? k = some a)
    (hfg : ∀ j b, t.get? j = some b → j ≠ k → f j b = g j b) :
    t.sum f + g k a = t.sum g + f k a := by
  have hr := mem_rows_iff.mpr h
  obtain ⟨before, after, hsplit⟩ := List.append_of_mem hr
  have hnd := t.nodup
  rw [hsplit, List.map_append, List.map_cons, List.nodup_append, List.nodup_cons] at hnd
  have hother : ∀ r ∈ before ++ after, f r.1 r.2 = g r.1 r.2 := by
    rintro ⟨j, b⟩ hjb
    have hmem : (j, b) ∈ t.rows := by
      rw [hsplit]
      simp only [List.mem_append, List.mem_cons] at hjb ⊢
      tauto
    refine hfg j b (mem_rows_iff.mp hmem) ?_
    rintro rfl
    rcases List.mem_append.mp hjb with hb | hb
    · exact hnd.2.2 _ (List.mem_map_of_mem hb) _ List.mem_cons_self rfl
    · exact hnd.2.1.1 (List.mem_map.mpr ⟨_, hb, rfl⟩)
  have hbefore : before.map (fun r => f r.1 r.2) = before.map fun r => g r.1 r.2 :=
    List.map_congr_left fun r hr => hother r (List.mem_append_left _ hr)
  have hafter : after.map (fun r => f r.1 r.2) = after.map fun r => g r.1 r.2 :=
    List.map_congr_left fun r hr => hother r (List.mem_append_right _ hr)
  simp only [sum, hsplit, List.map_append, List.map_cons, List.sum_append, List.sum_cons, hbefore,
    hafter]
  omega

end Table

end Support
