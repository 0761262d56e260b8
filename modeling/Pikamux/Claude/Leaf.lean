import Pikamux.Claude.Linear

/-!
# Claude — Leaf

A branch is never guessed.  Where the batches alone are ambiguous, reconstruction succeeds only
with the provider's leaf: a `last-prompt` pointer written after the last transcript record and
naming it (`providerSelector_spec`), which every later pointer agrees with.  The records returned
are in the batches from that leaf's conversation up to a root (`reconstruct_selected`).
-/

namespace Pikamux.Claude

open Std Support Json

/-! ### Observing the records -/

/-- The leaf an owned `last-prompt` record names. -/
def pointerOf (identity : String) (record : Value) : Option Value :=
  if owned identity record ∧ typeOf record = some "last-prompt" then record.get? "leafUuid"
  else none

/-- An owned transcript record. -/
def isMain (identity : String) (record : Value) : Bool :=
  owned identity record && mainType (typeOf record)

/-- The selector after `records`, the first of which has index `n`. -/
def observeFrom (identity : String) (self : ProviderSelector) (records : List Value) (n : Nat) :
    ProviderSelector :=
  loop (records.zipIdx n) self fun selector (record, index) =>
    if owned identity record then selector.observe record index else selector

theorem observeAll_eq (records : List Value) (identity : String) :
    observeAll records identity = observeFrom identity {} records 0 := rfl

section Observe

variable {identity : String} {self : ProviderSelector} {record : Value} {n : Nat}

theorem observeFrom_cons (records : List Value) :
    observeFrom identity self (record :: records) n =
      observeFrom identity (observeFrom identity self [record] n) records (n + 1) := rfl

theorem observeFrom_append (l₁ l₂ : List Value) :
    observeFrom identity self (l₁ ++ l₂) n =
      observeFrom identity (observeFrom identity self l₁ n) l₂ (n + l₁.length) := by
  simp [observeFrom, List.zipIdx_append, loop]

/-- A transcript record becomes the last one and forgets the conflict. -/
theorem observe_main (h : isMain identity record = true) :
    observeFrom identity self [record] n =
      { self with main := record["uuid"].asStr.map (·, n), conflict := false } := by
  obtain ⟨ho, hm⟩ : owned identity record = true ∧ mainType (typeOf record) = true := by
    simpa [isMain] using h
  simp [observeFrom, ho, ProviderSelector.observe, hm]

/-- A pointer is recorded, and conflicts with the previous one of its generation unless equal. -/
theorem observe_pointer (self : ProviderSelector) (n : Nat) {v : Value}
    (h : pointerOf identity record = some v) :
    (observeFrom identity self [record] n).main = self.main ∧
    (observeFrom identity self [record] n).pointer = some (v, n, self.main.map (·.2)) ∧
    ((observeFrom identity self [record] n).conflict = false ↔ self.conflict = false ∧
      ∀ w j, self.pointer = some (w, j, self.main.map (·.2)) → w.eq v = true) := by
  unfold pointerOf at h
  split at h
  case isTrue hc =>
    have hm : mainType (some "last-prompt") = false := by decide
    simp only [observeFrom, List.zipIdx_cons, List.zipIdx_nil, loop, List.foldl_cons,
      List.foldl_nil, hc.1, if_true, ProviderSelector.observe, hc.2, hm, Bool.false_eq_true,
      if_false, h, true_and, Bool.or_eq_false_iff]
    refine and_congr_right fun _ => ?_
    cases hpt : self.pointer with
    | none => simp
    | some previous =>
        obtain ⟨w, j, g⟩ := previous
        by_cases hg : g = self.main.map (·.2)
        · simp [hg]
        · simp [hg]
  case isFalse => cases h

/-- Anything else changes nothing. -/
theorem observe_other (hm : isMain identity record = false)
    (hp : pointerOf identity record = none) : observeFrom identity self [record] n = self := by
  simp only [observeFrom, List.zipIdx_cons, List.zipIdx_nil, loop, List.foldl_cons,
    List.foldl_nil]
  cases ho : owned identity record with
  | false => simp
  | true =>
      simp only [isMain, ho, Bool.true_and] at hm
      simp only [if_true, ProviderSelector.observe, hm, Bool.false_eq_true, if_false]
      split
      case isTrue ht =>
        rw [pointerOf, if_pos ⟨ho, ht⟩] at hp
        simp [hp]
      case isFalse => rfl

end Observe

/-- Pointers are recorded at indices already passed. -/
def PointerBelow (self : ProviderSelector) (n : Nat) : Prop :=
  ∀ w j g, self.pointer = some (w, j, g) → j < n

theorem pointerBelow_observeFrom {identity : String} {self : ProviderSelector} {n : Nat}
    (records : List Value) (h : PointerBelow self n) :
    PointerBelow (observeFrom identity self records n) (n + records.length) := by
  induction records generalizing self n with
  | nil => exact h
  | cons record records ih =>
      suffices hs : PointerBelow (observeFrom identity self [record] n) (n + 1) by
        have hrest := ih hs
        rwa [Nat.add_right_comm] at hrest
      cases hm : isMain identity record with
      | true =>
          rw [observe_main hm]
          exact fun w j g hw => Nat.lt_succ_of_lt (h w j g hw)
      | false =>
          cases hp : pointerOf identity record with
          | none =>
              rw [observe_other hm hp]
              exact fun w j g hw => Nat.lt_succ_of_lt (h w j g hw)
          | some v =>
              intro w j g hw
              rw [(observe_pointer _ _ hp).2.1] at hw
              cases hw
              exact Nat.lt_succ_self n

/-! ### After the last transcript record -/

/-- The selector after `seen`, which holds no transcript record: the last one is still the same,
and the pointer is an old one or that of the last pointer record in `seen`, which without a
conflict all pointers of `seen` equal when it is a string. -/
structure AfterMain (identity : String) (start now : ProviderSelector) (seen : List Value) :
    Prop where
  main : now.main = start.main
  pointer : now.pointer = start.pointer ∧ (∀ p ∈ seen, pointerOf identity p = none) ∨
    ∃ w j, now.pointer = some (w, j, start.main.map (·.2)) ∧
      (∃ p ∈ seen, pointerOf identity p = some w) ∧
      (now.conflict = false → ∀ x, w = .string x →
        ∀ p ∈ seen, ∀ v, pointerOf identity p = some v → v = .string x)

theorem AfterMain.step {identity : String} {start self : ProviderSelector} {seen : List Value}
    {record : Value} {n : Nat} (h : AfterMain identity start self seen)
    (hm : isMain identity record = false) :
    AfterMain identity start (observeFrom identity self [record] n) (seen ++ [record]) := by
  have hmem : ∀ p ∈ seen ++ [record], p ∈ seen ∨ p = record := fun p hp => by simpa using hp
  cases hp : pointerOf identity record with
  | none =>
      rw [observe_other hm hp]
      refine ⟨h.main, ?_⟩
      rcases h.pointer with ⟨hpt, hnone⟩ | ⟨w, j, hpt, ⟨p, hps, hpw⟩, hall⟩
      · refine .inl ⟨hpt, fun q hq => ?_⟩
        rcases hmem q hq with hq | rfl
        · exact hnone q hq
        · exact hp
      · refine .inr ⟨w, j, hpt, ⟨p, List.mem_append_left _ hps, hpw⟩, fun hc x hx q hq v hv => ?_⟩
        rcases hmem q hq with hq | rfl
        · exact hall hc x hx q hq v hv
        · rw [hp] at hv
          cases hv
  | some v =>
      obtain ⟨hmain, hpt, hconf⟩ := observe_pointer _ _ hp
      refine ⟨hmain.trans h.main, .inr ⟨v, n, ?_, ⟨record, by simp, hp⟩, fun hc x hx q hq u hu => ?_⟩⟩
      · rw [hpt, h.main]
      · obtain ⟨hc₀, heq⟩ := hconf.mp hc
        rcases hmem q hq with hq | rfl
        · rcases h.pointer with ⟨-, hnone⟩ | ⟨w, j, hw, -, hall⟩
          · rw [hnone q hq] at hu
            cases hu
          · subst hx
            have hwx := Value.eq_string.mp (heq w j (by rw [hw, h.main]))
            exact hall hc₀ x hwx q hq u hu
        · rw [hp] at hu
          exact (Option.some.inj hu).symm.trans hx

theorem afterMain_observeFrom {identity : String} {start self : ProviderSelector}
    {seen : List Value} (after : List Value) {n : Nat} (h : AfterMain identity start self seen)
    (hm : ∀ r ∈ after, isMain identity r = false) :
    AfterMain identity start (observeFrom identity self after n) (seen ++ after) := by
  induction after generalizing self seen n with
  | nil => simpa [observeFrom] using h
  | cons record after ih =>
      rw [observeFrom_cons, List.append_cons]
      exact ih (h.step (hm record (by simp))) fun r hr => hm r (List.mem_cons_of_mem _ hr)

theorem main_observeFrom_of_no_main {identity : String} (records : List Value)
    (hm : ∀ r ∈ records, isMain identity r = false) (self : ProviderSelector) (n : Nat) :
    (observeFrom identity self records n).main = self.main :=
  (afterMain_observeFrom records
    (show AfterMain identity self self [] from ⟨rfl, .inl ⟨rfl, by simp⟩⟩) hm).main

/-- `leaf` is the uuid of the last owned transcript record, the records after that one point to
it, and none of them points elsewhere. -/
def AuthoritativeLeaf (records : List Value) (identity leaf : String) : Prop :=
  ∃ before main after, records = before ++ main :: after ∧
    owned identity main = true ∧ mainType (typeOf main) = true ∧ main["uuid"] = .string leaf ∧
    (∀ r ∈ after, isMain identity r = false) ∧
    (∃ p ∈ after, pointerOf identity p = some (.string leaf)) ∧
    ∀ p ∈ after, ∀ v, pointerOf identity p = some v → v = .string leaf

/-- What `finish` has checked when it returns a leaf. -/
theorem finish_some {self : ProviderSelector} {leaf : String}
    (h : self.finish = .ok (some leaf)) :
    ∃ j g i, self.pointer = some (.string leaf, j, g) ∧ self.conflict = false ∧
      self.main = some (leaf, i) ∧ i < j := by
  unfold ProviderSelector.finish at h
  split at h
  · cases h
  case h_2 w j g hw =>
    simp only [bind_eq_ok, context_eq_ok, ensure_eq_ok, pure_eq_ok, Option.some.injEq] at h
    obtain ⟨x, hx, _, hc, ⟨m, i⟩, hm, _, hcheck, rfl⟩ := h
    obtain rfl := Value.asStr_eq_some.mp hx
    simp only [Bool.and_eq_true, decide_eq_true_eq] at hcheck
    obtain ⟨rfl, hlt⟩ := hcheck
    exact ⟨j, g, i, hw, by simpa using hc, hm, hlt⟩

theorem providerSelector_spec {records : List Value} {identity leaf : String}
    (h : providerSelector records identity = .ok (some leaf)) :
    AuthoritativeLeaf records identity leaf := by
  rw [providerSelector, observeAll_eq] at h
  obtain ⟨j, g, i, hpt, hconf, hmain, hlt⟩ := finish_some h
  have hex : ∃ r ∈ records, isMain identity r = true := by
    by_contra hn
    push Not at hn
    rw [main_observeFrom_of_no_main records (fun r hr => by simpa using hn r hr)] at hmain
    cases hmain
  obtain ⟨before, main, after, rfl, hmain', hafter⟩ := exists_last hex
  rw [observeFrom_append, observeFrom_cons, observe_main hmain'] at hpt hconf hmain
  generalize hstart : ({ observeFrom identity {} before 0 with
    main := main["uuid"].asStr.map (·, 0 + before.length), conflict := false } :
      ProviderSelector) = start at hpt hconf hmain
  have hphase : AfterMain identity start
      (observeFrom identity start after (0 + before.length + 1)) after :=
    afterMain_observeFrom after
      (show AfterMain identity start start [] from ⟨rfl, .inl ⟨rfl, by simp⟩⟩) hafter
  rw [hphase.main, ← hstart] at hmain
  obtain ⟨x, hx, e⟩ := Option.map_eq_some_iff.mp hmain
  obtain ⟨rfl, rfl⟩ := Prod.mk.inj e
  obtain ⟨ho, hm⟩ : owned identity main = true ∧ mainType (typeOf main) = true := by
    simpa [isMain] using hmain'
  refine ⟨before, main, after, rfl, ho, hm, Value.asStr_eq_some.mp hx,
    hafter, ?_⟩
  rcases hphase.pointer with ⟨hold, -⟩ | ⟨w, k, hw, hsome, hall⟩
  · -- An older pointer was written at an earlier index than the last transcript record.
    have hbelow : PointerBelow (observeFrom identity {} before 0) (0 + before.length) :=
      pointerBelow_observeFrom before fun w j g hw => nomatch hw
    rw [hpt, ← hstart] at hold
    have := hbelow _ _ _ hold.symm
    omega
  · rw [hpt] at hw
    cases hw
    exact ⟨hsome, hall hconf x rfl⟩

/-! ### The leaf's conversation -/

/-- `anchor` is the first record that is not an attachment, from `id` up. -/
inductive AttachmentPath (M : Records) : String → String → Prop where
  | here {id : String} (hm : id ∈ M) (ht : typeOf M[id]! ≠ some "attachment") :
      AttachmentPath M id id
  | up {id parent anchor : String} (hm : id ∈ M) (ht : typeOf M[id]! = some "attachment")
      (hp : parentOf M[id]! = some parent) (t : AttachmentPath M parent anchor) :
      AttachmentPath M id anchor

theorem conversationalLeaf_spec {M : Records} {seen : ExtTreeSet String compare}
    {id anchor : String} (h : conversationalLeaf M seen id = .ok anchor) :
    AttachmentPath M id anchor := by
  revert h
  fun_induction conversationalLeaf M seen id with
  | case1 => exact fun h => nomatch h
  | case2 seen id _ hm ht =>
      intro h
      obtain rfl := Except.ok.inj h
      exact .here hm ht
  | case3 seen id _ hm ht parent hp ih =>
      exact fun h => .up hm (not_not.mp ht) hp (ih h)
  | case4 => exact fun h => nomatch h
  | case5 => exact fun h => nomatch h

theorem leafSelector_spec {records : List Value} {identity anchor : String} {linked : Records}
    (h : leafSelector records identity linked = .ok (some anchor)) :
    ∃ leaf, AuthoritativeLeaf records identity leaf ∧ AttachmentPath linked leaf anchor := by
  obtain ⟨selector, hsel, h⟩ := bind_eq_ok.mp h
  cases selector with
  | none => cases h
  | some leaf =>
      simp only [conversationalSelector, bind_eq_ok, pure_eq_ok, Option.some.injEq] at h
      obtain ⟨anchor, hanchor, rfl⟩ := h
      exact ⟨leaf, providerSelector_spec hsel, conversationalLeaf_spec hanchor⟩

/-- **No branch is guessed.**  When reconstruction succeeds although the batches are ambiguous by
themselves, the provider's leaf is the last owned transcript record, pointed to after it was
written and never contradicted, and every record returned belongs to a batch on the path from the
batch of that leaf's conversation up to a root. -/
theorem reconstruct_selected {records out : List Value} {identity : String}
    (h : reconstruct records identity = .ok out) :
    ∃ s members, retained records identity = .ok s ∧
      membership s.records s.sources = .ok members ∧
      (succeeds (quotient s.records members none) = false →
        ∃ leaf anchor P path, AuthoritativeLeaf records identity leaf ∧
          AttachmentPath s.linked leaf anchor ∧ quotientParents s.records members = .ok P ∧
          BatchPath P members[anchor]! path ∧
          ∀ r ∈ out, ∃ id, r["uuid"] = .string id ∧ s.records[id]? = some r ∧
            members[id]! ∈ path) := by
  obtain ⟨s, members, done, hs, hr, hm, rfl, hchain⟩ := reconstruct_spec h
  refine ⟨s, members, hs, hm, fun hamb => ?_⟩
  obtain ⟨anchor, P, path, hsel, -, hP, hpath, hin⟩ := hchain.selected hamb
  obtain ⟨leaf, hleaf, hup⟩ := leafSelector_spec hsel
  refine ⟨leaf, anchor, P, path, hleaf, hup, hP, hpath, fun r hrm => ?_⟩
  obtain ⟨id, hid, rfl⟩ := List.mem_map.mp hrm
  obtain ⟨r, hget⟩ := exists_of_mem (hchain.mem id hid)
  refine ⟨id, hr.uuid (hchain.mem id hid), ?_, hin id hid⟩
  rw [getElem!_of_getElem? hget, hget]

/-- Two prompts under one root, and a pointer to the second. -/
def pointedBranch : List Value :=
  [userRecord "root" .null [], userRecord "old" (.string "root") [],
    userRecord "selected" (.string "root") [],
    .object [("leafUuid", .string "selected"), ("sessionId", .string "owned"),
      ("type", .string "last-prompt")]]

theorem reconstruct_selected_pointedBranch :
    ∃ out, reconstruct pointedBranch "owned" = .ok out ∧ ∃ s members,
      retained pointedBranch "owned" = .ok s ∧
      membership s.records s.sources = .ok members ∧
      succeeds (quotient s.records members none) = false ∧
      ∃ leaf, AuthoritativeLeaf pointedBranch "owned" leaf := by
  obtain ⟨out, h⟩ := succeeds_iff.mp
    (show succeeds (reconstruct pointedBranch "owned") = true by decide +kernel)
  have hamb : (match retained pointedBranch "owned" with
      | .ok s => match membership s.records s.sources with
        | .ok members => succeeds (quotient s.records members none)
        | .error _ => true
      | .error _ => true) = false := by decide +kernel
  obtain ⟨s, members, hs, hm, hsel⟩ := reconstruct_selected h
  simp only [hs, hm] at hamb
  obtain ⟨leaf, -, -, -, hleaf, -⟩ := hsel hamb
  exact ⟨out, h, s, members, hs, hm, hamb, leaf, hleaf⟩

end Pikamux.Claude
