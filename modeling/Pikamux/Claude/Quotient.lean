import Pikamux.Claude.Batches

/-!
# Claude — Quotient

The graph of batches.  `quotientParents` gives every batch the one batch its records descend
from (`quotientParents_spec`), `quotientChildren` inverts it (`quotientChildren_spec`), and a
provider leaf keeps the batches from its own up to a root (`selectedGroups_spec`).
-/

namespace Pikamux.Claude

open Std Support Json

/-! ### Parents -/

/-- `P` holds the batch above every batch that has a record with a parent outside it. -/
structure ParentsOf (entries : List (String × Value)) (members : Members) (P : BatchParents) :
    Prop where
  external : ∀ (id : String) (r : Value), (id, r) ∈ entries →
    batchParent members r ≠ some members[id]! → P[members[id]!]? = some (batchParent members r)
  source : ∀ (g : String) (parent : Option String), P[g]? = some parent →
    ∃ id r, (id, r) ∈ entries ∧ members[id]! = g ∧ batchParent members r = parent ∧
      parent ≠ some g

theorem quotientParents_spec {M : Records} {members : Members} {P : BatchParents}
    (h : quotientParents M members = .ok P) : ParentsOf M.toList members P := by
  refine foldlM_prefix (fun pre P => ParentsOf pre members P) h ⟨by simp, by simp⟩ ?_
  rintro pre ⟨id, r⟩ P P' - hstep ih
  dsimp only at hstep
  by_cases hin : batchParent members r = some members[id]!
  · rw [if_pos hin, pure_eq_ok] at hstep
    subst hstep
    refine ⟨fun j q hq hne => ?_, fun g parent hg => ?_⟩
    · rcases List.mem_append.mp hq with hq | hq
      · exact ih.external j q hq hne
      · obtain ⟨rfl, rfl⟩ : j = id ∧ q = r := by simpa using hq
        exact absurd hin hne
    · obtain ⟨j, q, hq, hrest⟩ := ih.source g parent hg
      exact ⟨j, q, List.mem_append_left _ hq, hrest⟩
  · rw [if_neg hin] at hstep
    -- What was known of this batch before agrees with what is inserted.
    obtain ⟨hsame, rfl⟩ : (∀ parent, P[members[id]!]? = some parent →
        parent = batchParent members r) ∧
        P.insert members[id]! (batchParent members r) = P' := by
      cases hp : P[members[id]!]? with
      | none => simpa [hp, pure_eq_ok] using hstep
      | some previous =>
          simp only [hp, bind_eq_ok, ensure_eq_ok, pure_eq_ok, decide_eq_true_eq] at hstep
          obtain ⟨_, rfl, rfl⟩ := hstep
          exact ⟨fun parent e => (Option.some.inj e).symm, rfl⟩
    refine ⟨fun j q hq hne => ?_, fun g parent hg => ?_⟩
    · rw [ExtTreeMap.getElem?_insert]
      rcases List.mem_append.mp hq with hq | hq
      · have hold := ih.external j q hq hne
        split
        case isTrue e =>
          obtain e := LawfulEqCmp.eq_of_compare e
          rw [← e] at hold
          rw [hsame _ hold]
        case isFalse => exact hold
      · obtain ⟨rfl, rfl⟩ : j = id ∧ q = r := by simpa using hq
        simp
    · rw [ExtTreeMap.getElem?_insert] at hg
      split at hg
      case isTrue e =>
        obtain rfl := LawfulEqCmp.eq_of_compare e
        obtain rfl := Option.some.inj hg
        exact ⟨id, r, by simp, rfl, rfl, hin⟩
      case isFalse =>
        obtain ⟨j, q, hq, hrest⟩ := ih.source g parent hg
        exact ⟨j, q, List.mem_append_left _ hq, hrest⟩

/-! ### Children -/

theorem quotientChildren_spec {P : BatchParents} {C : Children}
    (h : quotientChildren P = .ok C) (parent : Option String) (g : String) :
    C[parent]? = some g ↔ P[g]? = some parent := by
  rw [← ExtTreeMap.mem_toList_iff_getElem?_eq_some (t := P)]
  revert parent g
  refine foldlM_prefix (fun pre C => ∀ (parent : Option String) (g : String),
    C[parent]? = some g ↔ (g, parent) ∈ pre) h (by simp) ?_
  rintro pre ⟨group, up⟩ C C' - hstep ih parent g
  simp only [bind_eq_ok, ensure_eq_ok, pure_eq_ok] at hstep
  obtain ⟨_, hfree, rfl⟩ := hstep
  have hnone : C[up]? = none := by
    rw [ExtTreeMap.getElem?_eq_none_of_contains_eq_false]
    simpa using hfree
  rw [ExtTreeMap.getElem?_insert, List.mem_append, List.mem_singleton, ← ih]
  by_cases e : up = parent
  · subst e
    simp [hnone, eq_comm]
  · simp [e, Ne.symm e]

/-! ### The selected line -/

/-- The batches from `g` up to a root, in that order. -/
inductive BatchPath (P : BatchParents) : String → List String → Prop where
  | root {g : String} (h : P[g]? = some none) : BatchPath P g [g]
  | up {g parent : String} {path : List String} (h : P[g]? = some (some parent))
      (t : BatchPath P parent path) : BatchPath P g (g :: path)

theorem selectedGroups_spec {P : BatchParents} {S S' : ExtTreeSet String compare}
    {current : Option String} (h : selectedGroups P S current = .ok S') :
    (current = none → S' = S) ∧
    ∀ g, current = some g → ∃ path, BatchPath P g path ∧ ∀ x, x ∈ S' ↔ x ∈ S ∨ x ∈ path := by
  revert h
  fun_induction selectedGroups P S current with
  | case1 S =>
      intro h
      exact ⟨fun _ => (Except.ok.inj h).symm, fun g hg => nomatch hg⟩
  | case2 => exact fun h => nomatch h
  | case3 => exact fun h => nomatch h
  | case4 S g hs parent hp ih =>
      refine fun h => ⟨fun hn => (nomatch hn), fun g' hg' => ?_⟩
      obtain rfl := Option.some.inj hg'
      obtain ⟨hroot, hup⟩ := ih h
      cases parent with
      | none =>
          refine ⟨[g], .root hp, fun x => ?_⟩
          rw [hroot rfl, ExtTreeSet.mem_insert, Std.compare_eq_iff_eq, List.mem_singleton, or_comm,
            eq_comm]
      | some parent =>
          obtain ⟨path, hpath, hmem⟩ := hup parent rfl
          refine ⟨g :: path, .up hp hpath, fun x => ?_⟩
          rw [hmem, ExtTreeSet.mem_insert, Std.compare_eq_iff_eq, List.mem_cons, or_assoc,
            or_left_comm, eq_comm]

/-! ### The quotient -/

/-- `C` inverts the part of `P` that `keep` retains. -/
structure QuotientOf (M : Records) (members : Members) (P : BatchParents) (keep : String → Prop)
    (C : Children) : Prop where
  parents : ParentsOf M.toList members P
  child_iff : ∀ (parent : Option String) (g : String),
    C[parent]? = some g ↔ P[g]? = some parent ∧ keep g

theorem quotient_none_spec {M : Records} {members : Members} {C : Children}
    (h : quotient M members none = .ok C) :
    ∃ P, quotientParents M members = .ok P ∧ QuotientOf M members P (fun _ => True) C := by
  obtain ⟨P, hP, h⟩ := bind_eq_ok.mp h
  exact ⟨P, hP, quotientParents_spec hP, fun parent g => by simp [quotientChildren_spec h]⟩

theorem quotient_some_spec {M : Records} {members : Members} {leaf : String} {C : Children}
    (h : quotient M members (some leaf) = .ok C) :
    ∃ P path, quotientParents M members = .ok P ∧ leaf ∈ members ∧
      BatchPath P members[leaf]! path ∧ QuotientOf M members P (· ∈ path) C := by
  obtain ⟨P, hP, h⟩ := bind_eq_ok.mp h
  simp only [bind_eq_ok, context_eq_ok] at h
  obtain ⟨group, hg, S, hS, h⟩ := h
  obtain ⟨path, hpath, hmem⟩ := (selectedGroups_spec hS).2 group rfl
  refine ⟨P, path, hP, mem_of_getElem? hg, ?_, quotientParents_spec hP, fun parent g => ?_⟩
  · rwa [getElem!_of_getElem? hg]
  · rw [quotientChildren_spec h]
    simp [hmem]

end Pikamux.Claude
