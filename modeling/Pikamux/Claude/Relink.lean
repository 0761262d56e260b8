import Pikamux.Claude.Ancestry

/-!
# Claude — Relink

What the steps before `chain` keep of the records: every record is filed under its uuid and
names a parent or `null` (`Keyed`), compaction only drops records and reassigns parents
(`compact_from`), and after `validateParents` and `pruneAttachments` every named parent is
still a record (`Closed`, `pruneAttachments_closed`).
-/

namespace Pikamux.Claude

open Std Support Json

/-! ### Reassigned parents -/

/-- `r` is `r₀` with its parent reassigned any number of times. -/
inductive Relinked (r₀ : Value) : Value → Prop where
  | refl : Relinked r₀ r₀
  | set {r : Value} (h : Relinked r₀ r) (parent : String) : Relinked r₀ (setParent r parent)

namespace Relinked

theorem trans {r₀ r₁ r₂ : Value} (h₁ : Relinked r₀ r₁) (h₂ : Relinked r₁ r₂) :
    Relinked r₀ r₂ := by
  induction h₂ with
  | refl => exact h₁
  | set _ parent ih => exact .set ih parent

/-- Every field but the parent is the original's. -/
theorem getElem_eq {r₀ r : Value} (h : Relinked r₀ r) {key : String} (hk : key ≠ "parentUuid") :
    r[key] = r₀[key] := by
  induction h with
  | refl => rfl
  | set _ parent ih => rw [setParent, Value.getElem_set_ne hk, ih]

end Relinked

/-- Every record of `M` is a record of `M₀` under the same uuid, its parent reassigned. -/
def From (M₀ M : Records) : Prop :=
  ∀ (id : String) (r : Value), M[id]? = some r → ∃ r₀, M₀[id]? = some r₀ ∧ Relinked r₀ r

namespace From

theorem refl (M : Records) : From M M := fun _ _ h => ⟨_, h, .refl⟩

theorem trans {M₀ M₁ M₂ : Records} (h₁ : From M₀ M₁) (h₂ : From M₁ M₂) : From M₀ M₂ := by
  intro id r h
  obtain ⟨r₁, hr₁, hl₁⟩ := h₂ id r h
  obtain ⟨r₀, hr₀, hl₀⟩ := h₁ id r₁ hr₁
  exact ⟨r₀, hr₀, hl₀.trans hl₁⟩

theorem erase (M : Records) (id : String) : From M (M.erase id) := by
  intro j r h
  rw [ExtTreeMap.getElem?_erase] at h
  split at h
  · cases h
  · exact ⟨r, h, .refl⟩

theorem modify (M : Records) (id parent : String) :
    From M (M.modify id fun record => setParent record parent) := by
  intro j r h
  rcases modified h with h | ⟨r₀, h₀, rfl⟩
  · exact ⟨r, h, .refl⟩
  · exact ⟨r₀, h₀, .set .refl parent⟩

theorem map (M : Records) (p : String → Value → Prop) [∀ id r, Decidable (p id r)]
    (parent : String) :
    From M (M.map fun id record => if p id record then setParent record parent else record) := by
  intro j r h
  rw [ExtTreeMap.getElem?_map] at h
  obtain ⟨r₀, h₀, rfl⟩ := Option.map_eq_some_iff.mp h
  refine ⟨r₀, h₀, ?_⟩
  split
  · exact .set .refl parent
  · exact .refl

theorem mem {M₀ M : Records} (h : From M₀ M) {id : String} (hm : id ∈ M) : id ∈ M₀ := by
  obtain ⟨r, hr⟩ := exists_of_mem hm
  obtain ⟨r₀, h₀, _⟩ := h id r hr
  exact mem_of_getElem? h₀

end From

/-! ### Keyed records -/

/-- Every record is filed under its uuid, and its parent is `null` or a string. -/
structure Keyed (M : Records) : Prop where
  uuid : ∀ {id : String} {r : Value}, M[id]? = some r → r["uuid"].asStr = some id
  parent : ∀ {id : String} {r : Value}, M[id]? = some r →
    r["parentUuid"] = .null ∨ ∃ p, r["parentUuid"] = .string p

theorem asObject_of_uuid {r : Value} {id : String} (h : r["uuid"].asStr = some id) :
    r.asObject ≠ none := by
  intro hn
  rw [Value.getElem_of_asObject hn] at h
  cases h

theorem Relinked.parent {r₀ r : Value} (h : Relinked r₀ r) (ho : r₀.asObject ≠ none)
    (hp : r₀["parentUuid"] = .null ∨ ∃ p, r₀["parentUuid"] = .string p) :
    r["parentUuid"] = .null ∨ ∃ p, r["parentUuid"] = .string p := by
  suffices r.asObject ≠ none ∧ (r["parentUuid"] = .null ∨ ∃ p, r["parentUuid"] = .string p) from
    this.2
  induction h with
  | refl => exact ⟨ho, hp⟩
  | set _ parent ih =>
      exact ⟨Value.asObject_set ih.1, .inr ⟨parent, Value.getElem_set_self ih.1⟩⟩

theorem Keyed.from {M₀ M : Records} (hk : Keyed M₀) (h : From M₀ M) : Keyed M := by
  constructor
  · intro id r hr
    obtain ⟨r₀, h₀, hl⟩ := h id r hr
    rw [hl.getElem_eq (by decide)]
    exact hk.uuid h₀
  · intro id r hr
    obtain ⟨r₀, h₀, hl⟩ := h id r hr
    exact hl.parent (asObject_of_uuid (hk.uuid h₀)) (hk.parent h₀)

/-! ### Collection -/

/-- The collected records are the owned transcript records, in source order. -/
structure Collected (identity : String) (records : List Value) (order : List String)
    (M : Records) : Prop where
  nodup : order.Nodup
  mem_iff : ∀ {id : String}, id ∈ order ↔ id ∈ M
  keyed : Keyed M
  sound : ∀ {id : String} {r : Value}, M[id]? = some r →
    r ∈ records ∧ owned identity r = true ∧ transcript r = .ok true
  complete : ∀ {r : Value}, r ∈ records → owned identity r = true → transcript r = .ok true →
    ∃ id : String, M[id]? = some r

/-- One record either leaves the collection alone or is added under its uuid. -/
theorem collectRecord_cases {identity : String} {order order' : List String} {M M' : Records}
    {r : Value} (h : collectRecord identity (order, M) r = .ok (order', M')) :
    (order' = order ∧ M' = M ∧ (owned identity r = false ∨ transcript r = .ok false)) ∨
    (∃ id, order' = order ++ [id] ∧ M' = M.insert id r ∧ id ∉ M ∧ owned identity r = true ∧
      transcript r = .ok true ∧ r["uuid"].asStr = some id ∧ id.utf8ByteSize ≤ 512 ∧
      (r["parentUuid"] = .null ∨ ∃ p, r["parentUuid"] = .string p)) := by
  unfold collectRecord at h
  cases ho : owned identity r with
  | false =>
      simp only [ho, Bool.not_false, if_true, pure_eq_ok, Prod.mk.injEq] at h
      exact .inl ⟨h.1.symm, h.2.symm, .inl rfl⟩
  | true =>
      simp only [ho, Bool.not_true, Bool.false_eq_true, if_false, bind_eq_ok] at h
      obtain ⟨t, ht, h⟩ := h
      cases t with
      | false =>
          simp only [Bool.not_false, if_true, pure_eq_ok, Prod.mk.injEq] at h
          exact .inl ⟨h.1.symm, h.2.symm, .inr ht⟩
      | true =>
          simp only [Bool.not_true, Bool.false_eq_true, if_false, bind_eq_ok, context_eq_ok,
            ensure_eq_ok, pure_eq_ok, Prod.mk.injEq] at h
          obtain ⟨id, hid, _, hlen, parent, hparent, _, hkind, _, hnew, rfl, rfl⟩ := h
          have hp : r["parentUuid"] = parent := by simp [Value.getElem_eq, hparent]
          refine .inr ⟨id, rfl, rfl, ?_, rfl, ht, hid, ?_, ?_⟩
          · rw [ExtTreeMap.mem_iff_contains]
            exact Bool.eq_false_iff.mp (by simpa using hnew)
          · simp only [Bool.and_eq_true, decide_eq_true_eq] at hlen
            exact hlen.2
          · rw [hp]
            simpa [Value.isString_iff] using hkind

/-- What collection has established after the records `pre`. -/
theorem collect_collected {identity : String} {records : List Value} {order : List String}
    {M : Records} (h : collect records identity = .ok (order, M)) :
    Collected identity records order M := by
  refine foldlM_prefix (fun pre s => Collected identity pre s.1 s.2) h ?_ ?_
  · exact ⟨.nil, by simp, ⟨by simp, by simp⟩, by simp, by simp⟩
  · rintro pre r ⟨order, M⟩ ⟨order', M'⟩ _ hstep ih
    rcases collectRecord_cases hstep with ⟨rfl, rfl, hskip⟩ |
      ⟨id, rfl, rfl, hnew, ho, ht, hid, -, hp⟩
    · refine ⟨ih.nodup, ih.mem_iff, ih.keyed, fun h => ?_, fun hr ho ht => ?_⟩
      · obtain ⟨hm, ho, ht⟩ := ih.sound h
        exact ⟨List.mem_append_left _ hm, ho, ht⟩
      · rcases List.mem_append.mp hr with hr | hr
        · exact ih.complete hr ho ht
        · obtain rfl := List.mem_singleton.mp hr
          rcases hskip with hs | hs <;> simp_all
    · have key : ∀ {j : String} {q : Value}, (M.insert id r)[j]? = some q →
          (j = id ∧ q = r) ∨ M[j]? = some q := by
        intro j q hq
        rw [ExtTreeMap.getElem?_insert] at hq
        split at hq
        case isTrue e => exact .inl ⟨(LawfulEqCmp.eq_of_compare e).symm, by simpa using hq.symm⟩
        case isFalse => exact .inr hq
      refine ⟨?_, ?_, ⟨?_, ?_⟩, fun h => ?_, fun hr ho' ht' => ?_⟩
      · rw [List.nodup_append]
        refine ⟨ih.nodup, by simp, fun a ha b hb => ?_⟩
        obtain rfl := List.mem_singleton.mp hb
        exact fun e => hnew (ih.mem_iff.mp (e ▸ ha))
      · intro j
        rw [ExtTreeMap.mem_insert, Std.compare_eq_iff_eq, List.mem_append, List.mem_singleton,
          ih.mem_iff, or_comm, eq_comm]
      · intro j q hq
        rcases key hq with ⟨rfl, rfl⟩ | hq
        · exact hid
        · exact ih.keyed.uuid hq
      · intro j q hq
        rcases key hq with ⟨rfl, rfl⟩ | hq
        · exact hp
        · exact ih.keyed.parent hq
      · rcases key h with ⟨rfl, rfl⟩ | hq
        · exact ⟨by simp, ho, ht⟩
        · obtain ⟨hm, ho, ht⟩ := ih.sound hq
          exact ⟨List.mem_append_left _ hm, ho, ht⟩
      · rcases List.mem_append.mp hr with hr | hr
        · obtain ⟨j, hj⟩ := ih.complete hr ho' ht'
          refine ⟨j, ?_⟩
          rw [ExtTreeMap.getElem?_insert, if_neg]
          · exact hj
          · intro e
            exact hnew ((LawfulEqCmp.eq_of_compare e) ▸ mem_of_getElem? hj)
        · obtain rfl := List.mem_singleton.mp hr
          exact ⟨id, by simp⟩

/-! ### Compaction -/

theorem rethread_from (M : Records) (anchor : String) (ids : List String) :
    From M (rethread M anchor ids) := by
  unfold rethread
  suffices key : ∀ (l : List String) (s : Records × String), From M s.1 →
      From M (loop l s fun s id => (s.1.modify id fun record => setParent record s.2, id)).1 by
    exact (key ids (M, anchor) (From.refl M)).trans (From.map _ _ _)
  intro l
  induction l with
  | nil => exact fun s h => h
  | cons id l ih => exact fun s h => ih _ (h.trans (From.modify _ _ _))

theorem eraseAll_from (M : Records) (ids : List String) :
    From M (loop ids M fun records id => records.erase id) := by
  induction ids generalizing M with
  | nil => exact From.refl M
  | cons id ids ih => exact (From.erase M id).trans (ih _)

theorem anchorPreserved_from {order : List String} {index : Nat} {M M' : Records}
    {keep : ExtTreeSet String compare} {anchor : Option String} {ids : List String}
    (h : anchorPreserved order index M keep anchor ids = .ok M') : From M M' := by
  cases anchor with
  | none =>
      obtain rfl : M = M' := by simpa [anchorPreserved] using h
      exact From.refl M
  | some anchor =>
      simp only [anchorPreserved, bind_eq_ok, ensure_eq_ok, pure_eq_ok] at h
      obtain ⟨_, _, _, _, rfl⟩ := h
      exact rethread_from M anchor ids

/-- Compaction drops records and reassigns parents, nothing else. -/
theorem compact_from {order : List String} {M M' : Records} (h : compact order M = .ok M') :
    From M M' := by
  unfold compact at h
  split at h
  · obtain rfl : M = M' := by simpa using h
    exact From.refl M
  · simp only [bind_eq_ok] at h
    obtain ⟨_, _, _, _, ⟨anchor, preserved⟩, _, _, _, _, _, M₁, h₁, h⟩ := h
    have hanchor := anchorPreserved_from h₁
    split at h
    · rw [pure_eq_ok] at h
      subst h
      exact hanchor.trans (eraseAll_from _ _)
    · rw [pure_eq_ok] at h
      subst h
      exact (hanchor.trans (eraseAll_from _ _)).trans (From.map _ _ _)

/-! ### Parents -/

/-- Every parent a record names is a record. -/
def Closed (M : Records) : Prop :=
  ∀ (id : String) (r : Value) (p : String), M[id]? = some r → parentOf r = some p → p ∈ M

theorem validateParents_closed {M : Records} (h : validateParents M = .ok ()) : Closed M := by
  intro id r p hr hp
  have hall := forM_eq_ok.mp h (id, r) (ExtTreeMap.mem_toList_iff_getElem?_eq_some.mpr hr)
  simp only [hp, ensure_eq_ok] at hall
  exact ExtTreeMap.mem_iff_contains.mpr hall

/-- How many records name `p` as their parent. -/
def children (M : Records) (p : String) : Nat := count M fun r => parentOf r = some p

/-- `counts` is the number of children of every identity. -/
def Counted (M : Records) (counts : ExtTreeMap String Nat compare) : Prop :=
  ∀ p, counts.getD p 0 = children M p

theorem bump_getD (counts : ExtTreeMap String Nat compare) (j p : String) :
    (bump counts j).getD p 0 = counts.getD p 0 + if j = p then 1 else 0 := by
  simp only [bump, ExtTreeMap.getD_eq_getD_getElem?, ExtTreeMap.getElem?_alter]
  by_cases e : j = p
  · subst e; simp
  · simp [e]

theorem childCounts_counted (M : Records) : Counted M (childCounts M) := by
  intro p
  rw [children, count_eq_length]
  suffices key : ∀ (l : List (String × Value)) (counts : ExtTreeMap String Nat compare),
      (loop l counts fun counts e => countChild counts e.2).getD p 0 =
      counts.getD p 0 + (l.filter fun e => parentOf e.2 = some p).length by
    simpa [childCounts] using key M.toList ∅
  intro l
  induction l with
  | nil => simp
  | cons e l ih =>
      intro counts
      rw [loop, List.foldl_cons, ← loop, ih]
      cases hp : parentOf e.2 with
      | none => simp [countChild, hp]
      | some q =>
          by_cases eq : q = p
          · simp [countChild, hp, bump_getD, eq]; omega
          · simp [countChild, hp, bump_getD, eq]

/-! ### Attachment leaves -/

theorem children_erase {M : Records} {id : String} {r : Value} (h : M[id]? = some r) (p : String) :
    children (M.erase id) p = children M p - if parentOf r = some p then 1 else 0 := by
  simpa [children] using count_erase (p := fun r => decide (parentOf r = some p)) h

theorem children_pos {M : Records} {id p : String} {r : Value} (h : M[id]? = some r)
    (hp : parentOf r = some p) : 0 < children M p :=
  count_pos_iff.mpr ⟨id, r, h, by simpa using hp⟩

/-- A childless record can go: the others still find their parents. -/
theorem Closed.erase {M : Records} (hc : Closed M) {id : String} (h : children M id = 0) :
    Closed (M.erase id) := by
  intro j q p hq hp
  have hq' : M[j]? = some q := by
    rw [ExtTreeMap.getElem?_erase] at hq
    split at hq
    · cases hq
    · exact hq
  rw [ExtTreeMap.mem_erase, Std.compare_eq_iff_eq.ne]
  refine ⟨?_, hc j q p hq' hp⟩
  rintro rfl
  exact absurd h (Nat.pos_iff_ne_zero.mp (children_pos hq' hp))

/-- `M'` is `M` without some attachments. -/
def PrunedOf (M M' : Records) : Prop :=
  (∀ (id : String) (r : Value), M'[id]? = some r → M[id]? = some r) ∧
  (∀ (id : String) (r : Value), M[id]? = some r →
    M'[id]? = some r ∨ typeOf r = some "attachment")

theorem PrunedOf.refl (M : Records) : PrunedOf M M := ⟨fun _ _ h => h, fun _ _ h => .inl h⟩

theorem PrunedOf.erase {M M' : Records} {id : String} {r : Value} (h : M[id]? = some r)
    (ht : typeOf r = some "attachment") (hp : PrunedOf (M.erase id) M') : PrunedOf M M' := by
  refine ⟨fun j q hq => ?_, fun j q hq => ?_⟩
  · have hj := hp.1 j q hq
    rw [ExtTreeMap.getElem?_erase] at hj
    split at hj
    · cases hj
    · exact hj
  · by_cases e : id = j
    · subst e
      obtain rfl : r = q := Option.some.inj (h.symm.trans hq)
      exact .inr ht
    · exact hp.2 j q (by rw [ExtTreeMap.getElem?_erase, if_neg (by simpa using e), hq])

/-- What the loop keeps: exact counts, found parents, and a work list of childless attachments. -/
structure Pruning (M : Records) (counts : ExtTreeMap String Nat compare) (leaves : List String) :
    Prop where
  counted : Counted M counts
  closed : Closed M
  childless : ∀ l ∈ leaves, children M l = 0
  attachments : ∀ l ∈ leaves, ∀ r, M[l]? = some r → typeOf r = some "attachment"

namespace Pruning

variable {M : Records} {counts : ExtTreeMap String Nat compare} {leaves : List String}
  {id : String} {r : Value}

theorem tail (h : Pruning M counts (id :: leaves)) : Pruning M counts leaves :=
  ⟨h.counted, h.closed, fun l hl => h.childless l (List.mem_cons_of_mem _ hl),
    fun l hl => h.attachments l (List.mem_cons_of_mem _ hl)⟩

theorem get_erase {j : String} {q : Value} (h : (M.erase id)[j]? = some q) : M[j]? = some q := by
  rw [ExtTreeMap.getElem?_erase] at h
  split at h
  · cases h
  · exact h

/-- Only the parent's count changes when a record goes. -/
theorem erase (h : Pruning M counts (id :: leaves)) (hr : M[id]? = some r)
    {counts' : ExtTreeMap String Nat compare}
    (hc : ∀ p, counts'.getD p 0 = counts.getD p 0 - if parentOf r = some p then 1 else 0) :
    Pruning (M.erase id) counts' leaves where
  counted p := by rw [hc, children_erase hr, h.counted]
  closed := h.closed.erase (h.childless id (by simp))
  childless l hl := by rw [children_erase hr, h.tail.childless l hl, Nat.zero_sub]
  attachments l hl q hq := h.tail.attachments l hl q (get_erase hq)

/-- The parent's count goes down by one. -/
theorem decrement (h : Pruning M counts (id :: leaves)) (hr : M[id]? = some r) {parent : String}
    (hp : parentOf r = some parent) :
    Pruning (M.erase id) (counts.insert parent (counts[parent]! - 1)) leaves := by
  refine h.erase hr fun p => ?_
  rw [ExtTreeMap.getD_insert]
  by_cases e : parent = p
  · subst e
    simp [hp, ExtTreeMap.getD_eq_getD_getElem?, ExtTreeMap.getElem!_eq_get!_getElem?,
      Option.get!_eq_getD]
  · simp [hp, e]

theorem push (h : Pruning M counts leaves) {p : String} (hp : children M p = 0)
    (ht : typeOf M[p]! = some "attachment") : Pruning M counts (p :: leaves) where
  counted := h.counted
  closed := h.closed
  childless l hl := by
    rcases List.mem_cons.mp hl with rfl | hl
    · exact hp
    · exact h.childless l hl
  attachments l hl q hq := by
    rcases List.mem_cons.mp hl with rfl | hl
    · rwa [getElem!_of_getElem? hq] at ht
    · exact h.attachments l hl q hq

end Pruning

theorem pruneLoop_spec {M : Records} {counts : ExtTreeMap String Nat compare}
    {leaves : List String} (h : Pruning M counts leaves) :
    Closed (pruneLoop M counts leaves) ∧ PrunedOf M (pruneLoop M counts leaves) := by
  fun_induction pruneLoop M counts leaves with
  | case1 M counts => exact ⟨h.closed, .refl M⟩
  | case2 M counts id leaves _ ih => exact ih h.tail
  | case3 M counts id leaves r hr hp ih =>
      have hnone : parentOf r = none := by
        cases hpar : parentOf r with
        | none => rfl
        | some p =>
            have hpos := children_pos hr hpar
            rw [← h.counted p] at hpos
            have hmem : p ∈ counts := by
              by_contra hn
              rw [ExtTreeMap.getD_eq_fallback hn] at hpos
              omega
            simp [hpar, hmem] at hp
      have ht := h.attachments id (by simp) r hr
      have step := ih (h.erase hr (by simp [hnone]))
      exact ⟨step.1, step.2.erase hr ht⟩
  | case4 M counts id leaves r hr parent hp count hcond ih =>
      have ht := h.attachments id (by simp) r hr
      have hrest := h.decrement hr (Option.filter_eq_some_iff.mp hp).1
      have hzero : children (M.erase id) parent = 0 := by
        rw [← hrest.counted parent, ExtTreeMap.getD_insert_self]
        exact hcond.1
      have step := ih (hrest.push hzero hcond.2)
      exact ⟨step.1, step.2.erase hr ht⟩
  | case5 M counts id leaves r hr parent hp count hcond ih =>
      have ht := h.attachments id (by simp) r hr
      have step := ih (h.decrement hr (Option.filter_eq_some_iff.mp hp).1)
      exact ⟨step.1, step.2.erase hr ht⟩

/-- Pruning removes attachments only, and no record loses its parent. -/
theorem pruneAttachments_spec {M : Records} (hc : Closed M) :
    Closed (pruneAttachments M) ∧ PrunedOf M (pruneAttachments M) := by
  refine pruneLoop_spec ⟨childCounts_counted M, hc, fun l hl => ?_, fun l hl r hr => ?_⟩
  all_goals
    simp only [List.mem_reverse, List.mem_map, List.mem_filter,
      ExtTreeMap.mem_toList_iff_getElem?_eq_some, Bool.and_eq_true, Prod.exists] at hl
    obtain ⟨l, q, ⟨hq, ht, hn⟩, rfl⟩ := hl
  · rw [← childCounts_counted M l, ExtTreeMap.getD_eq_fallback_of_contains_eq_false (by simpa using hn)]
  · obtain rfl : q = r := Option.some.inj (hq.symm.trans hr)
    simpa using ht

end Pikamux.Claude
