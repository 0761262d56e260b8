import Pikamux.Claude.Quotient
import Pikamux.Claude.Relink
import Pikamux.Support.Order
import Mathlib.Data.List.Induction
import Mathlib.Data.List.Nodup

/-!
# Claude — Linear

Reconstruction is a lossless linearisation.  Each batch is emitted whole, its records after
their internal parents (`expand_spec`), and after the batch above it; `walkGroups` keeps that as
an invariant of what it has emitted (`Walked`), so no uuid is repeated and every record follows
its parent (`reconstruct_linear`).  Where the batches are in one line without the provider's
help, every retained record is emitted.
-/

namespace Pikamux.Claude

open Std Support Json

/-! ### Groups -/

/-- `G` holds, for some batches, exactly the records of the batch. -/
def GroupsOf (M : Records) (members : Members) (G : ExtTreeMap String (List String) compare) :
    Prop :=
  ∀ (g : String) (ids : List String), G[g]? = some ids →
    ∀ id, id ∈ ids ↔ id ∈ M ∧ members[id]! = g

theorem groupsOf_getElem? (M : Records) (members : Members) (order : List String) (g : String) :
    (groupsOf M members order)[g]? =
      let ids := (order.filter fun id => M.contains id).filter fun id => members[id]! = g
      if ids = [] then none else some ids := by
  unfold groupsOf
  generalize (order.filter fun id => M.contains id) = l
  induction l using List.reverseRecOn with
  | nil => simp
  | append_singleton l id ih =>
      simp only [loop, List.foldl_append, List.foldl_cons, List.foldl_nil,
        ExtTreeMap.getElem?_alter, List.filter_append] at ih ⊢
      by_cases e : members[id]! = g
      · subst e
        rw [if_pos ReflCmp.compare_self, ih]
        split
        case isTrue h => simp [h]
        case isFalse => simp
      · rw [if_neg (by simpa using e), ih]
        simp [e]

theorem groupsOf_groups {M : Records} (members : Members) {order : List String}
    (h : ∀ {id}, id ∈ M → id ∈ order) : GroupsOf M members (groupsOf M members order) := by
  intro g ids hg id
  rw [groupsOf_getElem?] at hg
  dsimp only at hg
  split at hg
  · cases hg
  · obtain rfl := Option.some.inj hg
    simp only [List.mem_filter, decide_eq_true_eq, ← ExtTreeMap.mem_iff_contains]
    exact ⟨fun h => ⟨h.1.2, h.2⟩, fun hm => ⟨⟨h hm.1, hm.1⟩, hm.2⟩⟩

theorem groupsOf_total {M : Records} (members : Members) {order : List String} {id : String}
    (h : id ∈ M) (ho : id ∈ order) : (groupsOf M members order)[members[id]!]?.isSome := by
  rw [groupsOf_getElem?]
  dsimp only
  rw [if_neg]
  · rfl
  · refine List.ne_nil_of_mem (a := id) ?_
    simpa [List.mem_filter, ← ExtTreeMap.mem_iff_contains] using ⟨ho, h⟩

theorem GroupsOf.filter {M : Records} {members : Members}
    {G : ExtTreeMap String (List String) compare} (h : GroupsOf M members G) (p : String → Bool) :
    GroupsOf M members (G.filter fun g _ => p g) := by
  intro g ids hg
  exact h g ids (filtered.mp hg).1

/-! ### Expansion of one batch -/

/-- The parent of a record within its batch. -/
def internalParent (M : Records) (members : Members) (id : String) : Option String :=
  (parentOf M[id]!).filter fun parent => members[parent]! = members[id]!

/-- Roots have no internal parent, and children are listed under theirs. -/
structure InternalEdges (ids : List String) (M : Records) (members : Members)
    (edges : ExtTreeMap String (List String) compare × List String) : Prop where
  child : ∀ p c, c ∈ (edges.1[p]?).getD [] → c ∈ ids ∧ internalParent M members c = some p
  root : ∀ r ∈ edges.2, r ∈ ids ∧ internalParent M members r = none

theorem internalEdges_spec (ids : List String) (M : Records) (members : Members) :
    InternalEdges ids M members (internalEdges ids M members) := by
  refine List.foldlRecOn ids _ ⟨by simp, by simp⟩ fun (children, roots) ih id hid => ?_
  dsimp only
  rw [← internalParent]
  cases hp : internalParent M members id with
  | none =>
      refine ⟨ih.child, fun r hr => ?_⟩
      rcases List.mem_append.mp hr with hr | hr
      · exact ih.root r hr
      · obtain rfl := List.mem_singleton.mp hr
        exact ⟨hid, hp⟩
  | some parent =>
      refine ⟨fun p c hc => ?_, ih.root⟩
      rw [ExtTreeMap.getElem?_alter] at hc
      split at hc
      case isTrue e =>
        obtain rfl := LawfulEqCmp.eq_of_compare e
        rcases List.mem_append.mp hc with hc | hc
        · exact ih.child parent c hc
        · obtain rfl := List.mem_singleton.mp hc
          exact ⟨hid, hp⟩
      case isFalse => exact ih.child p c hc

/-- Everything ready is in the batch, its internal parent already output. -/
def Ready (ids : List String) (M : Records) (members : Members)
    (ready : ExtTreeSet (Nat × String) comparePosition) (output : List String) : Prop :=
  ∀ i id, (i, id) ∈ ready → id ∈ ids ∧ ∀ p, internalParent M members id = some p → p ∈ output

theorem mem_insert_position {s : ExtTreeSet (Nat × String) comparePosition} {a b : Nat × String}
    (h : b ∈ s.insert a) : b = a ∨ b ∈ s := by
  rw [ExtTreeSet.mem_insert] at h
  rcases h with h | h
  · simp only [comparePosition, compareLex, compareOn, Ordering.then_eq_eq,
      Std.compare_eq_iff_eq] at h
    exact .inl (Prod.ext h.1.symm h.2.symm)
  · exact .inr h

theorem Ready.insertAll {ids : List String} {M : Records} {members : Members}
    {ready : ExtTreeSet (Nat × String) comparePosition} {output l : List String}
    (h : Ready ids M members ready output) (position : String → Nat)
    (hl : ∀ id ∈ l, id ∈ ids ∧ ∀ p, internalParent M members id = some p → p ∈ output) :
    Ready ids M members (loop l ready fun ready id => ready.insert (position id, id)) output := by
  refine List.foldlRecOn (motive := fun ready => Ready ids M members ready output) l _ h
    fun ready ih id hid i j hj => ?_
  rcases mem_insert_position hj with e | hj
  · obtain ⟨rfl, rfl⟩ := Prod.mk.inj e
    exact hl _ hid
  · exact ih i j hj

theorem expandLoop_spec {ids : List String} {M : Records} {members : Members}
    {edges : ExtTreeMap String (List String) compare × List String}
    (he : InternalEdges ids M members edges) (positions : ExtTreeMap String Nat compare)
    (fuel : Nat) {ready : ExtTreeSet (Nat × String) comparePosition} {output : List String}
    (hr : Ready ids M members ready output) (ho : ∀ id ∈ output, id ∈ ids)
    (hp : ParentsFirst (internalParent M members) [] output) :
    (∀ id ∈ expandLoop positions edges.1 fuel ready output, id ∈ ids) ∧
    ParentsFirst (internalParent M members) []
      (expandLoop positions edges.1 fuel ready output) := by
  induction fuel generalizing ready output with
  | zero => exact ⟨ho, hp⟩
  | succ fuel ih =>
      unfold expandLoop
      split
      · exact ⟨ho, hp⟩
      case h_2 position id hmin =>
        rw [← ExtTreeSet.min?_eq_head?_toList] at hmin
        obtain ⟨hid, hpar⟩ := hr position id (ExtTreeSet.min?_mem hmin)
        have hrest : Ready ids M members (ready.erase (position, id)) (output ++ [id]) := by
          intro i j hj
          obtain ⟨hj, hjp⟩ := hr i j (ExtTreeSet.mem_of_mem_erase hj)
          exact ⟨hj, fun p hp => List.mem_append_left _ (hjp p hp)⟩
        refine ih (hrest.insertAll _ fun c hc => ?_) (fun j hj => ?_) ?_
        · obtain ⟨hc, hcp⟩ := he.child id c hc
          refine ⟨hc, fun p hp => ?_⟩
          obtain rfl := Option.some.inj (hcp.symm.trans hp)
          simp
        · rcases List.mem_append.mp hj with hj | hj
          · exact ho j hj
          · exact List.mem_singleton.mp hj ▸ hid
        · exact parentsFirst_concat.mpr ⟨hp, fun p h => by simpa using hpar p h⟩

/-- A batch is expanded to as many of its records, each after its internal parent. -/
theorem expand_spec {ids out : List String} {M : Records} {members : Members}
    (h : expand ids M members = .ok out) :
    (∀ id ∈ out, id ∈ ids) ∧ out.length = ids.length ∧
      ParentsFirst (internalParent M members) [] out := by
  unfold expand at h
  simp only [bind_eq_ok, ensure_eq_ok, pure_eq_ok] at h
  obtain ⟨_, hlen, rfl⟩ := h
  generalize positionsOf ids = positions at hlen ⊢
  have he := internalEdges_spec ids M members
  have hready : Ready ids M members (loop (internalEdges ids M members).2 ∅ fun ready id =>
      ready.insert (positions[id]!, id)) [] := by
    refine Ready.insertAll (fun i id hi => by simp at hi) _ fun r hr => ?_
    obtain ⟨hid, hnone⟩ := he.root r hr
    exact ⟨hid, fun p hp => by simp [hnone] at hp⟩
  have hloop := expandLoop_spec he positions (ids.length + 1) hready (by simp) trivial
  exact ⟨hloop.1, by simpa using hlen, hloop.2⟩

/-! ### Emission -/

/-- `M'` is `M` without the records in `done`. -/
def Without (M : Records) (done : List String) (M' : Records) : Prop :=
  ∀ (id : String), M'[id]? = if id ∈ done then none else M[id]?

theorem emit_spec {ids : List String} {M M' : Records} {output output' : List Value}
    (h : emit ids M output = .ok (M', output')) :
    ids.Nodup ∧ (∀ id ∈ ids, id ∈ M) ∧ Without M ids M' ∧
      output' = output ++ ids.map (M[·]!) := by
  induction ids generalizing M output with
  | nil =>
      obtain ⟨rfl, rfl⟩ : M = M' ∧ output = output' := by simpa [emit, pure_eq_ok] using h
      exact ⟨.nil, by simp, by simp [Without], by simp⟩
  | cons id ids ih =>
      rw [emit, loopM, List.foldlM_cons] at h
      simp only [bind_eq_ok, context_eq_ok, pure_eq_ok] at h
      obtain ⟨_, ⟨r, hr, rfl⟩, h⟩ := h
      obtain ⟨hn, hm, hw, rfl⟩ := ih h
      have herase : ∀ j ∈ ids, j ≠ id ∧ M[j]? = (M.erase id)[j]? := by
        intro j hj
        have hj := hm j hj
        rw [ExtTreeMap.mem_erase] at hj
        rw [ExtTreeMap.getElem?_erase, if_neg hj.1]
        exact ⟨fun e => hj.1 (by simp [e]), rfl⟩
      refine ⟨List.nodup_cons.mpr ⟨fun hid => (herase id hid).1 rfl, hn⟩, fun j hj => ?_,
        fun j => ?_, ?_⟩
      · rcases List.mem_cons.mp hj with rfl | hj
        · exact mem_of_getElem? hr
        · exact ExtTreeMap.mem_of_mem_erase (hm j hj)
      · rw [hw j, ExtTreeMap.getElem?_erase]
        by_cases e : id = j
        · simp [e]
        · simp [e, Ne.symm e]
      · rw [List.map_cons, List.append_assoc, List.singleton_append, getElem!_of_getElem? hr]
        congr 2
        refine List.map_congr_left fun j hj => ?_
        rw [ExtTreeMap.getElem!_eq_get!_getElem?, ExtTreeMap.getElem!_eq_get!_getElem?,
          (herase j hj).2]

/-! ### The walk down the batches -/

section Walk

variable {M : Records} {members : Members} {C : Children}
  {G₀ : ExtTreeMap String (List String) compare}

/-- A batch below `parent` descends from nothing else. -/
def Descends (M : Records) (members : Members) (C : Children) : Prop :=
  ∀ (parent : Option String) (g : String), C[parent]? = some g →
    ∀ (id : String) (r : Value), M[id]? = some r → members[id]! = g →
      batchParent members r = some g ∨ batchParent members r = parent

theorem QuotientOf.descends {P : BatchParents} {keep : String → Prop}
    (h : QuotientOf M members P keep C) : Descends M members C := by
  rintro parent g hg id r hr rfl
  by_cases hin : batchParent members r = some members[id]!
  · exact .inl hin
  · have hext := h.parents.external id r
      (ExtTreeMap.mem_toList_iff_getElem?_eq_some.mpr hr) hin
    have hpar := ((h.child_iff parent members[id]!).mp hg).1
    exact .inr (Option.some.inj (hext.symm.trans hpar))

/-- The parent of a record of `M`. -/
def parentIn (M : Records) (id : String) : Option String := parentOf M[id]!

/-- What has been emitted when the records `done` have been: they are in order, they are gone
from the records, and a batch no longer among the groups was emitted whole. -/
structure Walked (M : Records) (members : Members) (C : Children)
    (G₀ G : ExtTreeMap String (List String) compare) (R : Records) (output : List Value)
    (done : List String) : Prop where
  nodup : done.Nodup
  source : ∀ id ∈ done, id ∈ M ∧ members[id]! ∈ G₀
  order : ParentsFirst (parentIn M) [] done
  records : Without M done R
  emitted : output = done.map (M[·]!)
  groups : ∀ (g : String) (ids : List String), G[g]? = some ids → G₀[g]? = some ids
  whole : ∀ (g : String) (ids : List String), G₀[g]? = some ids →
    G[g]? = some ids ∨ ∀ id ∈ ids, id ∈ done

/-- The batch to come is the first one, or is below a batch emitted whole. -/
def Next (M : Records) (members : Members) (C : Children) (current : Option String)
    (done : List String) : Prop :=
  ∀ g, current = some g → C[(none : Option String)]? = some g ∨
    ∃ above, C[some above]? = some g ∧ ∀ id, id ∈ M → members[id]! = above → id ∈ done

theorem Walked.step {G : ExtTreeMap String (List String) compare} {R R' : Records}
    {output output' : List Value} {done ids out : List String} {g : String}
    (hc : Closed M) (hd : Descends M members C) (hG : GroupsOf M members G₀)
    (hw : Walked M members C G₀ G R output done) (hn : Next M members C (some g) done)
    (hg : G[g]? = some ids) (hx : expand ids R members = .ok out)
    (he : emit out R output = .ok (R', output')) :
    Walked M members C G₀ (G.erase g) R' output' (done ++ out) ∧
      Next M members C C[some g]? (done ++ out) := by
  obtain ⟨hsub, hlen, hint⟩ := expand_spec hx
  obtain ⟨hnd, hmem, hwithout, rfl⟩ := emit_spec he
  have hgroup := hG g ids (hw.groups g ids hg)
  have hall : ∀ id ∈ ids, id ∈ out := fun id => mem_of_nodup_of_length hnd hsub (Nat.le_of_eq hlen.symm)
  -- What is emitted now was still among the records, unchanged.
  have hlive : ∀ id ∈ out, id ∉ done ∧ R[id]? = M[id]? := by
    intro id hid
    have hr := hw.records id
    split at hr
    · exact absurd (hmem id hid) fun hm => by
        obtain ⟨r, hr'⟩ := exists_of_mem hm
        rw [hr] at hr'
        cases hr'
    · exact ⟨by assumption, hr⟩
  have hval : ∀ id ∈ out, R[id]! = M[id]! := fun id hid => by
    rw [ExtTreeMap.getElem!_eq_get!_getElem?, (hlive id hid).2,
      ← ExtTreeMap.getElem!_eq_get!_getElem?]
  have horder : ParentsFirst (parentIn M) done out := by
    refine hint.change (by simp) fun id hid p hp => ?_
    obtain ⟨hM, hgid⟩ := (hgroup id).mp (hsub id hid)
    by_cases hin : members[p]! = members[id]!
    · refine .inl ?_
      rw [internalParent, hval id hid]
      exact Option.filter_eq_some_iff.mpr ⟨hp, by simpa using hin⟩
    · obtain ⟨r, hr⟩ := exists_of_mem hM
      have hp' : parentOf r = some p := by rwa [parentIn, getElem!_of_getElem? hr] at hp
      have hbp : batchParent members r = some members[p]! := by rw [batchParent, hp']; rfl
      have hne : batchParent members r ≠ some g := by
        rw [hbp, ← hgid]
        exact fun e => hin (Option.some.inj e)
      rcases hn g rfl with hroot | ⟨above, habove, hdone⟩
      · rcases hd none g hroot id r hr hgid with h | h
        · exact absurd h hne
        · rw [hbp] at h
          cases h
      · rcases hd (some above) g habove id r hr hgid with h | h
        · exact absurd h hne
        · rw [hbp] at h
          exact .inr (hdone p (hc id r p hr hp') (Option.some.inj h))
  refine ⟨⟨?_, ?_, ?_, ?_, ?_, ?_, ?_⟩, fun g' hg' => .inr ⟨g, hg', fun id hM hgid => ?_⟩⟩
  · exact List.nodup_append.mpr ⟨hw.nodup, hnd, fun a ha b hb e => (hlive b hb).1 (e ▸ ha)⟩
  · intro id hid
    rcases List.mem_append.mp hid with hid | hid
    · exact hw.source id hid
    · obtain ⟨hM, hgid⟩ := (hgroup id).mp (hsub id hid)
      exact ⟨hM, hgid ▸ mem_of_getElem? (hw.groups g ids hg)⟩
  · exact parentsFirst_append.mpr ⟨hw.order, by simpa using horder⟩
  · intro id
    rw [hwithout id, hw.records id]
    simp only [List.mem_append]
    split <;> split <;> simp_all
  · rw [hw.emitted, List.map_append]
    congr 1
    exact List.map_congr_left fun id hid => hval id hid
  · intro g' ids' h
    rw [ExtTreeMap.getElem?_erase] at h
    split at h
    · cases h
    · exact hw.groups g' ids' h
  · intro g' ids' h
    rcases hw.whole g' ids' h with h' | h'
    · by_cases e : g = g'
      · subst e
        obtain rfl := Option.some.inj (hg.symm.trans h')
        exact .inr fun id hid => List.mem_append_right _ (hall id hid)
      · refine .inl ?_
        rwa [ExtTreeMap.getElem?_erase, if_neg (by simpa using e)]
    · exact .inr fun id hid => List.mem_append_left _ (h' id hid)
  · exact List.mem_append_right _ (hall id ((hgroup id).mpr ⟨hM, hgid⟩))

/-- The walk ends with everything it emitted in order. -/
theorem walkGroups_spec {G G' : ExtTreeMap String (List String) compare} {R : Records}
    {current : Option String} {output output' : List Value} {done : List String}
    (hc : Closed M) (hd : Descends M members C) (hG : GroupsOf M members G₀)
    (hw : Walked M members C G₀ G R output done) (hn : Next M members C current done)
    (h : walkGroups members C current G R output = .ok (G', output')) :
    ∃ done' R', Walked M members C G₀ G' R' output' done' := by
  revert h
  fun_induction walkGroups members C current G R output generalizing done with
  | case1 G R output =>
      intro h
      obtain ⟨rfl, rfl⟩ : G = G' ∧ output = output' := by simpa using h
      exact ⟨done, R, hw⟩
  | case2 => exact fun h => nomatch h
  | case3 G R output g ids hg ih =>
      intro h
      simp only [bind_eq_ok] at h
      obtain ⟨out, hx, ⟨R', output₁⟩, he, h⟩ := h
      obtain ⟨hw', hn'⟩ := hw.step hc hd hG hn hg hx he
      exact ih _ _ hw' hn' h

end Walk

/-! ### The chain -/

/-- The records `done` of `M` have been chained: in order, all of them where the batches are in
one line by themselves, and otherwise the batches above the provider's leaf. -/
structure Chained (M : Records) (members : Members) (selector : Except String (Option String))
    (done : List String) : Prop where
  nodup : done.Nodup
  mem : ∀ id ∈ done, id ∈ M
  order : ParentsFirst (parentIn M) [] done
  all : succeeds (quotient M members none) = true → ∀ id ∈ M, id ∈ done
  selected : succeeds (quotient M members none) = false →
    ∃ leaf P path, selector = .ok (some leaf) ∧ leaf ∈ members ∧
      quotientParents M members = .ok P ∧ BatchPath P members[leaf]! path ∧
      ∀ id ∈ done, members[id]! ∈ path

theorem selectQuotient_spec {M : Records} {members : Members}
    {selector : Except String (Option String)} {C : Children} {provider : Bool}
    (h : selectQuotient M members selector = .ok (C, provider)) :
    (provider = false ∧ quotient M members none = .ok C) ∨
    (provider = true ∧ succeeds (quotient M members none) = false ∧
      ∃ leaf, selector = .ok (some leaf) ∧ quotient M members (some leaf) = .ok C) := by
  unfold selectQuotient at h
  split at h
  case h_1 children hq =>
    obtain ⟨rfl, rfl⟩ : children = C ∧ false = provider := by simpa using h
    exact .inl ⟨rfl, hq⟩
  case h_2 ambiguity hq =>
    obtain ⟨leaf, hsel, h⟩ := bind_eq_ok.mp h
    cases leaf with
    | none => cases h
    | some leaf =>
        simp only [bind_eq_ok, pure_eq_ok, Prod.mk.injEq] at h
        obtain ⟨children, hc, rfl, rfl⟩ := h
        exact .inr ⟨rfl, by rw [hq]; rfl, leaf, hsel, hc⟩

theorem walked_nil (M : Records) (members : Members) (C : Children)
    (G : ExtTreeMap String (List String) compare) : Walked M members C G G M [] [] where
  nodup := .nil
  source := by simp
  order := trivial
  records := by simp [Without]
  emitted := rfl
  groups _ _ h := h
  whole _ _ h := .inl h

theorem walk_from_root {M : Records} {members : Members} {C : Children} {P : BatchParents}
    {keep : String → Prop} {G G' : ExtTreeMap String (List String) compare} {out : List Value}
    (hc : Closed M) (hq : QuotientOf M members P keep C) (hG : GroupsOf M members G)
    (h : walkGroups members C C[(none : Option String)]? G M [] = .ok (G', out)) :
    ∃ done R, Walked M members C G G' R out done :=
  walkGroups_spec hc hq.descends hG (walked_nil M members C G) (fun _ hg => .inl hg) h

theorem chain_spec {M : Records} {order : List String} {sources : ResultSources}
    {selector : Except String (Option String)} {out : List Value} (hc : Closed M)
    (ho : ∀ {id}, id ∈ M → id ∈ order) (h : chain M order sources selector = .ok out) :
    ∃ members done, membership M sources = .ok members ∧ out = done.map (M[·]!) ∧
      Chained M members selector done := by
  simp only [chain, bind_eq_ok, ensure_eq_ok, pure_eq_ok] at h
  obtain ⟨members, hm, ⟨C, provider⟩, hsel, ⟨G', output⟩, hwalk, _, hempty, _, -, rfl⟩ := h
  have hG := groupsOf_groups members ho
  have hnone : ∀ g : String, G'[g]? = none := by
    intro g
    have hG' : G' = ∅ := ExtTreeMap.isEmpty_iff.mp hempty
    rw [hG', ExtTreeMap.getElem?_empty]
  rcases selectQuotient_spec hsel with ⟨rfl, hq⟩ | ⟨rfl, hamb, leaf, hleaf, hq⟩
  · obtain ⟨P, -, hquot⟩ := quotient_none_spec hq
    obtain ⟨done, R, hw⟩ := walk_from_root hc hquot hG hwalk
    refine ⟨members, done, hm, hw.emitted, hw.nodup, fun id hid => (hw.source id hid).1,
      hw.order, fun _ id hid => ?_, fun hf => ?_⟩
    · obtain ⟨ids, hids⟩ :=
        Option.isSome_iff_exists.mp (groupsOf_total members hid (ho hid))
      rcases hw.whole _ ids hids with h | h
      · rw [hnone] at h
        cases h
      · exact h id ((hG _ ids hids id).mpr ⟨hid, rfl⟩)
    · rw [hq] at hf
      cases hf
  · obtain ⟨P, path, hP, hmem, hpath, hquot⟩ := quotient_some_spec hq
    obtain ⟨done, R, hw⟩ := walk_from_root hc hquot
      (hG.filter fun g => C.toList.any fun r => r.2 = g) hwalk
    refine ⟨members, done, hm, hw.emitted, hw.nodup, fun id hid => (hw.source id hid).1,
      hw.order, fun ht => ?_, fun _ => ?_⟩
    · rw [hamb] at ht
      cases ht
    · refine ⟨leaf, P, path, hleaf, hmem, hP, hpath, fun id hid => ?_⟩
      obtain ⟨ids, hids⟩ := exists_of_mem (hw.source id hid).2
      obtain ⟨⟨parent, child⟩, hchild, e⟩ := List.any_eq_true.mp (filtered.mp hids).2
      obtain rfl : child = members[id]! := by simpa using e
      rw [ExtTreeMap.mem_toList_iff_getElem?_eq_some] at hchild
      exact ((hquot.child_iff parent _).mp hchild).2

/-! ### Reconstruction -/

/-- What reconstruction has before it chains: the order and the original results of the collected
records, the records relinked by compaction, and those left after pruning. -/
structure Retained where
  order : List String
  sources : ResultSources
  linked : Records
  records : Records

/-- The steps of `reconstruct` before `chain`. -/
def retained (records : List Value) (identity : String) : Except String Retained := do
  let (order, collected) ← collect records identity
  let linked ← compact order collected
  validateParents linked
  validateCycles linked
  return ⟨order, resultSources collected, linked, pruneAttachments linked⟩

/-- The provider's leaf, walked up to the conversation. -/
def leafSelector (records : List Value) (identity : String) (linked : Records) :
    Except String (Option String) := do
  conversationalSelector (← providerSelector records identity) linked

theorem reconstruct_eq (records : List Value) (identity : String) :
    reconstruct records identity = (retained records identity >>= fun s =>
      chain s.records s.order s.sources (leafSelector records identity s.linked)) := by
  simp [reconstruct, retained, leafSelector]

/-- A record of `s` is an owned transcript record, its parent reassigned by compaction. -/
structure RetainedOf (records : List Value) (identity : String) (s : Retained) : Prop where
  keyed : Keyed s.records
  closed : Closed s.records
  ordered : ∀ {id}, id ∈ s.records → id ∈ s.order
  pruned : PrunedOf s.linked s.records
  source : ∀ (id : String) (r : Value), s.records[id]? = some r →
    ∃ r₀ ∈ records, owned identity r₀ = true ∧ transcript r₀ = .ok true ∧ Relinked r₀ r

theorem retained_spec {records : List Value} {identity : String} {s : Retained}
    (h : retained records identity = .ok s) : RetainedOf records identity s := by
  simp only [retained, bind_eq_ok, pure_eq_ok] at h
  obtain ⟨⟨order, collected⟩, hcol, linked, hcompact, _, hparents, _, -, rfl⟩ := h
  have hcol := collect_collected hcol
  have hfrom := compact_from hcompact
  obtain ⟨hclosed, hpruned⟩ := pruneAttachments_spec (validateParents_closed hparents)
  have hfrom' : From collected (pruneAttachments linked) := fun id r hr =>
    hfrom id r (hpruned.1 id r hr)
  refine ⟨hcol.keyed.from hfrom', hclosed, fun hid => hcol.mem_iff.mpr (hfrom'.mem hid), hpruned,
    fun id r hr => ?_⟩
  obtain ⟨r₀, h₀, hl⟩ := hfrom' id r hr
  obtain ⟨hm, ho, ht⟩ := hcol.sound h₀
  exact ⟨r₀, hm, ho, ht, hl⟩

/-- A successful reconstruction retains some records and chains some of those. -/
theorem reconstruct_spec {records out : List Value} {identity : String}
    (h : reconstruct records identity = .ok out) :
    ∃ s members done, retained records identity = .ok s ∧ RetainedOf records identity s ∧
      membership s.records s.sources = .ok members ∧ out = done.map (s.records[·]!) ∧
      Chained s.records members (leafSelector records identity s.linked) done := by
  rw [reconstruct_eq, bind_eq_ok] at h
  obtain ⟨s, hs, h⟩ := h
  have hr := retained_spec hs
  obtain ⟨members, done, hm, hout, hchain⟩ := chain_spec hr.closed hr.ordered h
  exact ⟨s, members, done, hs, hr, hm, hout, hchain⟩

theorem RetainedOf.uuid {records : List Value} {identity id : String} {s : Retained}
    (h : RetainedOf records identity s) (hm : id ∈ s.records) :
    (s.records[id]!)["uuid"] = .string id := by
  obtain ⟨r, hr⟩ := exists_of_mem hm
  rw [getElem!_of_getElem? hr]
  exact Value.asStr_eq_some.mp (h.keyed.uuid hr)

theorem RetainedOf.parent {records : List Value} {identity id : String} {s : Retained}
    (h : RetainedOf records identity s) (hm : id ∈ s.records) :
    (s.records[id]!)["parentUuid"] = .null ∨
      ∃ p, parentIn s.records id = some p ∧ (s.records[id]!)["parentUuid"] = .string p := by
  obtain ⟨r, hr⟩ := exists_of_mem hm
  rw [parentIn, getElem!_of_getElem? hr]
  rcases h.keyed.parent hr with hp | ⟨p, hp⟩
  · exact .inl hp
  · exact .inr ⟨p, by rw [parentOf, hp]; rfl, hp⟩

/-- **Reconstruction is a lossless linearisation.**  No uuid occurs twice; the parent of every
record, relinked by compaction, is `null` or the uuid of an earlier record; and where the batches
are unambiguous without the provider's leaf, the uuids are those of the retained records, each an
owned transcript record of the input. -/
theorem reconstruct_linear {records out : List Value} {identity : String}
    (h : reconstruct records identity = .ok out) :
    (out.map fun r => r["uuid"]).Nodup ∧
    (∀ before r after, out = before ++ r :: after →
      r["parentUuid"] = .null ∨ ∃ q ∈ before, q["uuid"] = r["parentUuid"]) ∧
    ∃ s members, retained records identity = .ok s ∧
      membership s.records s.sources = .ok members ∧
      (∀ r ∈ out, ∃ id, s.records[id]? = some r ∧ r["uuid"] = .string id ∧
        ∃ r₀ ∈ records, owned identity r₀ = true ∧ transcript r₀ = .ok true ∧ Relinked r₀ r) ∧
      (succeeds (quotient s.records members none) = true →
        ∀ (id : String) (r : Value), s.records[id]? = some r → r ∈ out) := by
  obtain ⟨s, members, done, hs, hr, hm, rfl, hchain⟩ := reconstruct_spec h
  have huuid : ∀ id ∈ done, (s.records[id]!)["uuid"] = .string id := fun id hid =>
    hr.uuid (hchain.mem id hid)
  refine ⟨?_, fun before r after e => ?_, s, members, hs, hm, fun r hrm => ?_, fun hq id r hid => ?_⟩
  · rw [List.map_map]
    refine (List.nodup_map_iff_inj_on hchain.nodup).mpr fun a ha b hb e => ?_
    simp only [Function.comp, huuid a ha, huuid b hb] at e
    exact Value.string.inj e
  · obtain ⟨pre, rest, rfl, rfl, hrest⟩ := List.map_eq_append_iff.mp e
    obtain ⟨id, post, rfl, rfl, rfl⟩ := List.map_eq_cons_iff.mp hrest
    rcases hr.parent (hchain.mem id (by simp)) with hp | ⟨p, hpar, hp⟩
    · exact .inl hp
    · have hbefore := parentsFirst_split hchain.order hpar
      refine .inr ⟨s.records[p]!, List.mem_map_of_mem hbefore, ?_⟩
      rw [hp, huuid p (List.mem_append_left _ hbefore)]
  · obtain ⟨id, hid, rfl⟩ := List.mem_map.mp hrm
    obtain ⟨r, hget⟩ := exists_of_mem (hchain.mem id hid)
    have huid := huuid id hid
    rw [getElem!_of_getElem? hget] at huid ⊢
    exact ⟨id, hget, huid, hr.source id r hget⟩
  · have hmem := hchain.all hq id (mem_of_getElem? hid)
    exact List.mem_map.mpr ⟨id, hmem, getElem!_of_getElem? hid⟩

/-- A user record with the given content blocks. -/
def userRecord (id : String) (parent : Value) (content : List Value) : Value :=
  .object [("message", .object [("content", .array content), ("role", .string "user")]),
    ("parentUuid", parent), ("sessionId", .string "owned"), ("type", .string "user"),
    ("uuid", .string id)]

/-- An assistant record of the response `response` that makes one tool call. -/
def callRecord (id parent response call : String) : Value :=
  .object [("message", .object [("content", .array [.object
      [("id", .string call), ("type", .string "tool_use")]]), ("id", .string response),
      ("role", .string "assistant")]),
    ("parentUuid", .string parent), ("sessionId", .string "owned"), ("type", .string "assistant"),
    ("uuid", .string id)]

def resultBlock (call : String) : Value :=
  .object [("tool_use_id", .string call), ("type", .string "tool_result")]

/-- One response in two records, the result of the first call recorded between them. -/
def parallelResponse : List Value :=
  [userRecord "root" .null [], callRecord "a1" "root" "response" "call1",
    userRecord "r1" (.string "a1") [resultBlock "call1"], callRecord "a2" "a1" "response" "call2",
    userRecord "r2" (.string "a2") [resultBlock "call2"], userRecord "next" (.string "r2") []]

theorem reconstruct_linear_parallelResponse :
    ∃ out, reconstruct parallelResponse "owned" = .ok out ∧
      (out.map fun r => r["uuid"]).Nodup := by
  obtain ⟨out, h⟩ := succeeds_iff.mp
    (show succeeds (reconstruct parallelResponse "owned") = true by decide +kernel)
  exact ⟨out, h, (reconstruct_linear h).1⟩

end Pikamux.Claude
