import Mathlib.Logic.Relation
import Pikamux.Support.Map

/-!
# Support — Reach

Walks over a graph whose nodes are the keys of a map.

* `traverse` goes down: depth first from the nodes on a stack, each node once.  It finds what can
  be reached and nothing else, whatever cycles the graph has (`mem_traverse`).
* `climbs` goes up, from a node to its parent, and stops at a node it has seen, at the root and
  where a parent is missing.  It meets the target exactly when the chain of parents does before it
  leaves the root (`climbs_iff`).
-/

namespace Support

open Std Relation

variable {α β : Type} {cmp : α → α → Ordering} [TransCmp cmp]

theorem remaining_le {m : ExtTreeMap α β cmp} {p q : α → Bool} (h : ∀ j, q j = true → p j = true) :
    remaining m q ≤ remaining m p := by
  unfold remaining
  rw [← List.countP_eq_length_filter, ← List.countP_eq_length_filter]
  exact List.countP_mono_left fun j _ => h j

/-! ### Down -/

section Traverse

variable (m : ExtTreeMap α β cmp) (next : α → List α)

/-- The nodes met from the nodes on a stack, without those that were seen. -/
def traverse [LawfulEqCmp cmp] (stack : List α) (seen : ExtTreeSet α cmp) : List α :=
  match stack with
  | [] => []
  | a :: stack =>
      if seen.contains a then traverse stack seen
      else if a ∈ m then a :: traverse (next a ++ stack) (seen.insert a)
      else traverse stack (seen.insert a)
termination_by (remaining m fun j => !seen.contains j, stack.length)
decreasing_by
  · exact Prod.Lex.right _ (Nat.lt_succ_self _)
  case _ hseen ha =>
    exact Prod.Lex.left _ _ (remaining_insert_lt ha (Bool.eq_false_iff.mpr hseen))
  · have hle : remaining m (fun j => !(seen.insert a).contains j) ≤
        remaining m fun j => !seen.contains j := by
      refine remaining_le fun j hj => ?_
      simp only [ExtTreeSet.contains_insert, Bool.not_or, Bool.and_eq_true] at hj
      exact hj.2
    rcases Nat.lt_or_eq_of_le hle with hlt | heq
    · exact Prod.Lex.left _ _ hlt
    · rw [heq]
      exact Prod.Lex.right _ (Nat.lt_succ_self _)

/-- One step down, to a node of the map. -/
def Down (a b : α) : Prop := b ∈ next a ∧ b ∈ m

variable [LawfulEqCmp cmp] {m next} {a b : α} {stack : List α} {seen : ExtTreeSet α cmp}

theorem traverse_sound (h : b ∈ traverse m next stack seen) :
    ∃ a ∈ stack, a ∈ m ∧ ReflTransGen (Down m next) a b := by
  fun_induction traverse m next stack seen with
  | case1 seen => cases h
  | case2 seen a stack hseen ih =>
      obtain ⟨c, hc, hreach⟩ := ih h
      exact ⟨c, List.mem_cons_of_mem a hc, hreach⟩
  | case3 seen a stack hseen ha ih =>
      rcases List.mem_cons.mp h with rfl | h
      · exact ⟨b, List.mem_cons_self, ha, .refl⟩
      · obtain ⟨c, hc, hin, hreach⟩ := ih h
        rcases List.mem_append.mp hc with hc | hc
        · exact ⟨a, List.mem_cons_self, ha, .head ⟨hc, hin⟩ hreach⟩
        · exact ⟨c, List.mem_cons_of_mem a hc, hin, hreach⟩
  | case4 seen a stack hseen ha ih =>
      obtain ⟨c, hc, hreach⟩ := ih h
      exact ⟨c, List.mem_cons_of_mem a hc, hreach⟩

/-- What follows a seen node is seen or on the stack. -/
def Closed (m : ExtTreeMap α β cmp) (next : α → List α) (stack : List α)
    (seen : ExtTreeSet α cmp) : Prop :=
  ∀ a ∈ seen, a ∈ m → ∀ b ∈ next a, b ∈ seen ∨ b ∈ stack

/-- A node leaves the stack for the seen ones, and what follows it takes its place. -/
theorem Closed.insert {l : List α} (h : Closed m next (a :: stack) seen)
    (hl : a ∈ m → ∀ b ∈ next a, b ∈ l) : Closed m next (l ++ stack) (seen.insert a) := by
  intro c hc hin b hb
  rw [List.mem_append, ExtTreeSet.mem_insert]
  rcases ExtTreeSet.mem_insert.mp hc with hca | hc
  · obtain rfl := LawfulEqCmp.eq_of_compare hca
    exact .inr (.inl (hl hin b hb))
  · rcases h c hc hin b hb with hb | hb
    · exact .inl (.inr hb)
    · rcases List.mem_cons.mp hb with rfl | hb
      · exact .inl (.inl ReflCmp.compare_self)
      · exact .inr (.inr hb)

/-- The walk ends with all that was on the stack, and with all that follows. -/
theorem traverse_closed (h : Closed m next stack seen) :
    (∀ a ∈ stack, a ∈ m → a ∈ seen ∨ a ∈ traverse m next stack seen) ∧
      ∀ a ∈ m, a ∈ seen ∨ a ∈ traverse m next stack seen → ∀ b ∈ next a, b ∈ m →
        b ∈ seen ∨ b ∈ traverse m next stack seen := by
  fun_induction traverse m next stack seen with
  | case1 seen =>
      refine ⟨fun a ha => absurd ha List.not_mem_nil, fun a ha hfound b hb hin => .inl ?_⟩
      have hseen := hfound.resolve_right List.not_mem_nil
      exact (h a hseen ha b hb).resolve_right List.not_mem_nil
  | case2 seen a stack hseen ih =>
      rw [ExtTreeSet.contains_iff_mem] at hseen
      have hclosed : Closed m next stack seen := by
        intro c hc hin b hb
        rcases h c hc hin b hb with hb | hb
        · exact .inl hb
        · rcases List.mem_cons.mp hb with rfl | hb
          · exact .inl hseen
          · exact .inr hb
      obtain ⟨hstack, hnext⟩ := ih hclosed
      refine ⟨fun c hc hin => ?_, hnext⟩
      rcases List.mem_cons.mp hc with rfl | hc
      · exact .inl hseen
      · exact hstack c hc hin
  | case3 seen a stack hseen ha ih =>
      obtain ⟨hstack, hnext⟩ := ih (h.insert fun _ b hb => hb)
      have hmove (c : α) : (c ∈ seen.insert a ∨ c ∈ traverse m next (next a ++ stack)
          (seen.insert a)) ↔ c ∈ seen ∨ c ∈ a :: traverse m next (next a ++ stack)
          (seen.insert a) := by
        rw [ExtTreeSet.mem_insert, List.mem_cons, LawfulEqCmp.compare_eq_iff_eq, eq_comm]
        tauto
      refine ⟨fun c hc hin => (hmove c).mp ?_, fun c hin hc b hb hb' => (hmove b).mp
        (hnext c hin ((hmove c).mpr hc) b hb hb')⟩
      rcases List.mem_cons.mp hc with rfl | hc
      · exact .inl ExtTreeSet.mem_insert_self
      · exact hstack c (List.mem_append_right _ hc) hin
  | case4 seen a stack hseen ha ih =>
      obtain ⟨hstack, hnext⟩ := ih (h.insert (l := []) fun hin => absurd hin ha)
      -- the node itself is not one of the map
      have hmove {c : α} (hin : c ∈ m) (hc : c ∈ seen.insert a) : c ∈ seen := by
        rcases ExtTreeSet.mem_insert.mp hc with hca | hc
        · exact absurd (LawfulEqCmp.eq_of_compare hca ▸ hin) ha
        · exact hc
      refine ⟨fun c hc hin => ?_, fun c hin hc b hb hb' => ?_⟩
      · rcases List.mem_cons.mp hc with rfl | hc
        · exact absurd hin ha
        · exact (hstack c hc hin).imp_left (hmove hin)
      · have hc : c ∈ seen.insert a ∨ c ∈ traverse m next stack (seen.insert a) :=
          hc.imp_left fun hc => ExtTreeSet.mem_insert.mpr (.inr hc)
        exact (hnext c hin hc b hb hb').imp_left (hmove hb')

/-- The walk from a node finds what can be reached from it. -/
theorem mem_traverse (ha : a ∈ m) :
    b ∈ traverse m next [a] ∅ ↔ ReflTransGen (Down m next) a b := by
  constructor
  · intro h
    obtain ⟨c, hc, -, hreach⟩ := traverse_sound h
    rwa [List.mem_singleton.mp hc] at hreach
  · intro h
    have hclosed : Closed m next [a] (∅ : ExtTreeSet α cmp) :=
      fun c hc => absurd hc ExtTreeSet.not_mem_empty
    obtain ⟨hstack, hnext⟩ := traverse_closed hclosed
    have hall : b ∈ m ∧ (b ∈ (∅ : ExtTreeSet α cmp) ∨ b ∈ traverse m next [a] ∅) := by
      induction h with
      | refl => exact ⟨ha, hstack a List.mem_cons_self ha⟩
      | tail _ hstep ih => exact ⟨hstep.2, hnext _ ih.1 ih.2 _ hstep.1 hstep.2⟩
    exact hall.2.resolve_left ExtTreeSet.not_mem_empty

end Traverse

/-! ### Up -/

section Climb

variable [DecidableEq α] (m : ExtTreeMap α β cmp) (parent : β → Option α) (target root : α)

/-- Whether the chain of parents meets the target. -/
def climbs [LawfulEqCmp cmp] (current : α) (seen : ExtTreeSet α cmp) : Bool :=
  if seen.contains current then false
  else if current = target then true
  else if current = root then false
  else
    match _h : m[current]?.bind parent with
    | none => false
    | some above => climbs above (seen.insert current)
termination_by remaining m fun j => !seen.contains j
decreasing_by
  obtain ⟨b, hb, -⟩ := Option.bind_eq_some_iff.mp _h
  exact remaining_insert_lt (mem_of_getElem? hb) (Bool.eq_false_iff.mpr ‹_›)

/-- One step up, neither from the target nor from the root. -/
def Up (a b : α) : Prop := a ≠ target ∧ a ≠ root ∧ m[a]?.bind parent = some b

variable [LawfulEqCmp cmp] {m parent target root} {a b : α} {seen : ExtTreeSet α cmp}

theorem climbs_sound (h : climbs m parent target root a seen = true) :
    ReflTransGen (Up m parent target root) a target := by
  fun_induction climbs m parent target root a seen with
  | case1 => cases h
  | case2 seen => exact .refl
  | case3 => cases h
  | case4 => cases h
  | case5 current seen hseen htarget hroot above habove ih =>
      exact .head ⟨htarget, hroot, habove⟩ (ih h)

omit [DecidableEq α] [LawfulEqCmp cmp] in
/-- A chain that ends at the target does not come back to where it was. -/
theorem not_cycle (h : ReflTransGen (Up m parent target root) a target) :
    ¬TransGen (Up m parent target root) a a := by
  intro hcycle
  induction h using ReflTransGen.head_induction_on with
  | refl =>
      obtain ⟨b, hstep, -⟩ := TransGen.head'_iff.mp hcycle
      exact hstep.1 rfl
  | head hstep _ ih =>
      obtain ⟨c, hfirst, hrest⟩ := TransGen.head'_iff.mp hcycle
      obtain rfl := Option.some.inj (hfirst.2.2.symm.trans hstep.2.2)
      exact ih (TransGen.tail' hrest hstep)

theorem climbs_complete (h : ReflTransGen (Up m parent target root) a target)
    (hseen : ∀ b ∈ seen, TransGen (Up m parent target root) b a) :
    climbs m parent target root a seen = true := by
  fun_induction climbs m parent target root a seen with
  | case1 current seen hin =>
      exact absurd (hseen current (ExtTreeSet.contains_iff_mem.mp hin)) (not_cycle h)
  | case2 => rfl
  | case3 seen _ htarget =>
      rcases ReflTransGen.cases_head h with rfl | ⟨b, hstep, -⟩
      · exact absurd rfl htarget
      · exact absurd rfl hstep.2.1
  | case4 current seen _ htarget _ hnone =>
      rcases ReflTransGen.cases_head h with rfl | ⟨b, hstep, -⟩
      · exact absurd rfl htarget
      · cases hnone.symm.trans hstep.2.2
  | case5 current seen _ htarget hroot above habove ih =>
      have hstep : Up m parent target root current above := ⟨htarget, hroot, habove⟩
      refine ih ?_ fun b hb => ?_
      · rcases ReflTransGen.cases_head h with rfl | ⟨b, hfirst, hrest⟩
        · exact absurd rfl htarget
        · obtain rfl := Option.some.inj (hfirst.2.2.symm.trans habove)
          exact hrest
      · rcases ExtTreeSet.mem_insert.mp hb with hcur | hb
        · obtain rfl := LawfulEqCmp.eq_of_compare hcur
          exact .single hstep
        · exact (hseen b hb).tail hstep

theorem climbs_iff : climbs m parent target root a ∅ = true ↔
    ReflTransGen (Up m parent target root) a target :=
  ⟨climbs_sound, fun h => climbs_complete h fun _ hb => absurd hb ExtTreeSet.not_mem_empty⟩

end Climb

end Support
