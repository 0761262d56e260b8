import Pikamux.Claude.Scan

/-!
# Claude — Equivalence

The ancestry index is equivalent to the full transcript.  Collection takes the same records from
both, up to their essence (`collect_scanned`); the provider selects the same leaf
(`providerSelector_scanned`); so reconstruction succeeds on both or neither and orders the same
uuids (`reconstruct_scan`).
-/

namespace Pikamux.Claude

open Std Support Json

/-! ### The leaf, by the last transcript record and the pointers after it -/

section Leaf

variable {identity : String} {records before after : List Value} {main : Value} {leaf : String}

theorem trailing_append_of_no_main (l : List Value) (h : ∀ r ∈ after, isMain identity r = false) :
    trailing identity (l ++ after) = trailing identity l ++ after.filter (isPrompt identity) := by
  induction after using List.reverseRecOn with
  | nil => simp
  | append_singleton after r ih =>
      have hr : isMain identity r = false := h r (by simp)
      rw [← List.append_assoc, trailing_concat, hr, ih fun q hq => h q (List.mem_append_left _ hq)]
      cases hp : isPrompt identity r <;> simp [hp]

theorem trailing_split (hm : isMain identity main = true)
    (h : ∀ r ∈ after, isMain identity r = false) :
    trailing identity (before ++ main :: after) = after.filter (isPrompt identity) := by
  rw [List.append_cons, trailing_append_of_no_main _ h, trailing_concat, if_pos hm, List.nil_append]

theorem pointerOf_eq (p : Value) :
    pointerOf identity p = if isPrompt identity p then p.get? "leafUuid" else none := by
  simp only [pointerOf, isPrompt, isPointer, Bool.and_eq_true, decide_eq_true_eq]

/-- The uuid of the last owned transcript record. -/
def lastMain (identity : String) (records : List Value) : Option String :=
  ((records.filter (isMain identity)).map fun r => r["uuid"].asStr).getLast?.join

/-- The leaves of the pointers after it. -/
def leaves (identity : String) (records : List Value) : List (Option String) :=
  (trailing identity records).filterMap fun p => (p.get? "leafUuid").map Value.asStr

theorem lastMain_split (hm : isMain identity main = true)
    (h : ∀ r ∈ after, isMain identity r = false) :
    lastMain identity (before ++ main :: after) = main["uuid"].asStr := by
  have hnil : after.filter (isMain identity) = [] :=
    List.filter_eq_nil_iff.mpr fun r hr => by simp [h r hr]
  rw [lastMain, List.filter_append, List.filter_cons_of_pos hm, hnil, List.map_append,
    List.map_cons, List.map_nil, List.getLast?_concat]
  rfl

theorem mem_leaves_split (hm : isMain identity main = true)
    (h : ∀ r ∈ after, isMain identity r = false) {v : Option String} :
    v ∈ leaves identity (before ++ main :: after) ↔
      ∃ p ∈ after, ∃ x, pointerOf identity p = some x ∧ x.asStr = v := by
  rw [leaves, trailing_split hm h]
  simp only [List.mem_filterMap, List.mem_filter, Option.map_eq_some_iff, pointerOf_eq]
  constructor
  · rintro ⟨p, ⟨hp, hprompt⟩, x, hx, rfl⟩
    exact ⟨p, hp, x, by rw [if_pos hprompt, hx], rfl⟩
  · rintro ⟨p, hp, x, hx, rfl⟩
    split at hx
    case isTrue hprompt => exact ⟨p, ⟨hp, hprompt⟩, x, hx, rfl⟩
    case isFalse => cases hx

/-- The leaf is authoritative exactly when it is the last transcript record and the pointers after
that record name it and nothing else. -/
theorem authoritativeLeaf_iff :
    AuthoritativeLeaf records identity leaf ↔
      lastMain identity records = some leaf ∧ some leaf ∈ leaves identity records ∧
        ∀ v ∈ leaves identity records, v = some leaf := by
  constructor
  · rintro ⟨before, main, after, rfl, ho, hm, hu, hafter, ⟨p, hp, hpv⟩, hall⟩
    have hmain : isMain identity main = true := by rw [isMain, ho, hm]; rfl
    rw [lastMain_split hmain hafter, hu]
    simp only [mem_leaves_split hmain hafter]
    refine ⟨rfl, ⟨p, hp, _, hpv, rfl⟩, ?_⟩
    rintro v ⟨q, hq, x, hx, rfl⟩
    rw [hall q hq x hx]
    rfl
  · rintro ⟨hlast, hmem, hall⟩
    have hex : ∃ r ∈ records, isMain identity r = true := by
      by_contra hn
      have hnil : records.filter (isMain identity) = [] :=
        List.filter_eq_nil_iff.mpr fun r hr hm => hn ⟨r, hr, hm⟩
      rw [lastMain, hnil] at hlast
      cases hlast
    obtain ⟨before, main, after, rfl, hmain, hafter⟩ := exists_last hex
    rw [lastMain_split hmain hafter] at hlast
    simp only [mem_leaves_split hmain hafter] at hmem hall
    obtain ⟨ho, hm⟩ : owned identity main = true ∧ mainType (typeOf main) = true := by
      simpa [isMain] using hmain
    obtain ⟨p, hp, x, hx, hxv⟩ := hmem
    refine ⟨before, main, after, rfl, ho, hm, Value.asStr_eq_some.mp hlast, hafter,
      ⟨p, hp, ?_⟩, fun q hq v hv => ?_⟩
    · rw [hx, Value.asStr_eq_some.mp hxv]
    · exact Value.asStr_eq_some.mp (hall _ ⟨q, hq, v, hv, rfl⟩)

end Leaf

/-! ### An authoritative leaf is selected -/

/-- Everything recorded so far has a smaller index. -/
structure Below (now : ProviderSelector) (n : Nat) : Prop where
  main : ∀ id i, now.main = some (id, i) → i < n
  generation : ∀ w j i, now.pointer = some (w, j, some i) → i < n

theorem below_observeFrom {identity : String} {self : ProviderSelector} {n : Nat}
    (records : List Value) (h : Below self n) :
    Below (observeFrom identity self records n) (n + records.length) := by
  induction records generalizing self n with
  | nil => exact h
  | cons record records ih =>
      suffices hs : Below (observeFrom identity self [record] n) (n + 1) by
        have hrest := ih hs
        rwa [Nat.add_right_comm] at hrest
      cases hm : isMain identity record with
      | true =>
          rw [observe_main hm]
          refine ⟨fun id i hi => ?_, fun w j i hw => Nat.lt_succ_of_lt (h.generation w j i hw)⟩
          obtain ⟨_, -, e⟩ := Option.map_eq_some_iff.mp hi
          cases e
          exact Nat.lt_succ_self n
      | false =>
          cases hp : pointerOf identity record with
          | none =>
              rw [observe_other hm hp]
              exact ⟨fun id i hi => Nat.lt_succ_of_lt (h.main id i hi),
                fun w j i hw => Nat.lt_succ_of_lt (h.generation w j i hw)⟩
          | some v =>
              obtain ⟨hmain, hpt, -⟩ := observe_pointer self n hp
              refine ⟨fun id i hi => Nat.lt_succ_of_lt (h.main id i (hmain ▸ hi)),
                fun w j i hw => ?_⟩
              rw [hpt] at hw
              simp only [Option.some.injEq, Prod.mk.injEq] at hw
              obtain ⟨-, -, hi⟩ := hw
              obtain ⟨⟨id, _⟩, hid, rfl⟩ := Option.map_eq_some_iff.mp hi
              exact Nat.lt_succ_of_lt (h.main id _ hid)

/-- The selector since the record `main` at index `n`, while every pointer names `leaf`. -/
structure Agreed (leaf : String) (n : Nat) (now : ProviderSelector) : Prop where
  main : now.main = some (leaf, n)
  conflict : now.conflict = false
  pointer : (∀ w j, now.pointer ≠ some (w, j, some n)) ∨
    ∃ j, now.pointer = some (.string leaf, j, some n) ∧ n < j

theorem Agreed.step {identity leaf : String} {n m : Nat} {now : ProviderSelector} {record : Value}
    (h : Agreed leaf n now) (hm : isMain identity record = false)
    (hp : ∀ v, pointerOf identity record = some v → v = .string leaf) (hlt : n < m) :
    Agreed leaf n (observeFrom identity now [record] m) ∧
      ((pointerOf identity record).isSome = true →
        ∃ j, (observeFrom identity now [record] m).pointer = some (.string leaf, j, some n) ∧
          n < j) := by
  cases hrec : pointerOf identity record with
  | none =>
      rw [observe_other hm hrec]
      exact ⟨h, fun e => by cases e⟩
  | some v =>
      obtain rfl := hp v hrec
      obtain ⟨hmain, hpt, hconf⟩ := observe_pointer now m hrec
      rw [h.main] at hpt
      refine ⟨⟨hmain.trans h.main, hconf.mpr ⟨h.conflict, fun w j hw => ?_⟩, .inr ⟨m, hpt, hlt⟩⟩,
        fun _ => ⟨m, hpt, hlt⟩⟩
      rw [h.main] at hw
      rcases h.pointer with hne | ⟨k, hk, -⟩
      · exact absurd hw (hne w j)
      · rw [hk] at hw
        cases hw
        exact Value.eq_string.mpr rfl

theorem Agreed.run {identity leaf : String} {n : Nat} (after : List Value) {m : Nat}
    {now : ProviderSelector} (h : Agreed leaf n now)
    (hm : ∀ r ∈ after, isMain identity r = false)
    (hp : ∀ r ∈ after, ∀ v, pointerOf identity r = some v → v = .string leaf) (hlt : n < m)
    (hsome : (∃ j, now.pointer = some (.string leaf, j, some n) ∧ n < j) ∨
      ∃ p ∈ after, (pointerOf identity p).isSome = true) :
    Agreed leaf n (observeFrom identity now after m) ∧
      ∃ j, (observeFrom identity now after m).pointer = some (.string leaf, j, some n) ∧ n < j := by
  induction after generalizing now m with
  | nil =>
      refine ⟨h, hsome.resolve_right ?_⟩
      rintro ⟨p, hp, -⟩
      cases hp
  | cons record after ih =>
      obtain ⟨hstep, hset⟩ := h.step (hm record (by simp)) (hp record (by simp)) hlt
      rw [observeFrom_cons]
      refine ih hstep (fun r hr => hm r (List.mem_cons_of_mem _ hr))
        (fun r hr => hp r (List.mem_cons_of_mem _ hr)) (Nat.lt_succ_of_lt hlt) ?_
      cases hrec : pointerOf identity record with
      | some v => exact .inl (hset (by rw [hrec]; rfl))
      | none =>
          rw [observe_other (hm record (by simp)) hrec]
          refine hsome.imp_right ?_
          rintro ⟨p, hp', hs⟩
          rcases List.mem_cons.mp hp' with rfl | hp'
          · rw [hrec] at hs
            cases hs
          · exact ⟨p, hp', hs⟩

theorem finish_of {now : ProviderSelector} {leaf : String} {i j : Nat} {g : Option Nat}
    (hp : now.pointer = some (.string leaf, j, g)) (hc : now.conflict = false)
    (hm : now.main = some (leaf, i)) (hlt : i < j) : now.finish = .ok (some leaf) := by
  simp only [ProviderSelector.finish, hp, hc, hm, Value.asStr, context_some, ok_bind, Bool.not_false,
    decide_true, Bool.true_and, decide_eq_true hlt, ensure, if_true]
  rfl

/-- **The selected leaf is the authoritative one.** -/
theorem providerSelector_iff {records : List Value} {identity leaf : String} :
    providerSelector records identity = .ok (some leaf) ↔
      AuthoritativeLeaf records identity leaf := by
  refine ⟨providerSelector_spec, ?_⟩
  rintro ⟨before, main, after, rfl, ho, hm, hu, hafter, ⟨p, hp, hpv⟩, hall⟩
  have hmain : isMain identity main = true := by rw [isMain, ho, hm]; rfl
  have hbelow : Below (observeFrom identity {} before 0) (0 + before.length) :=
    below_observeFrom before ⟨fun _ _ h => (by cases h), fun _ _ _ h => (by cases h)⟩
  rw [providerSelector, observeAll_eq, observeFrom_append, observeFrom_cons, observe_main hmain, hu]
  have hstart : Agreed leaf (0 + before.length)
      { observeFrom identity {} before 0 with
        main := (Value.string leaf).asStr.map (·, 0 + before.length), conflict := false } := by
    refine ⟨rfl, rfl, .inl fun w j hw => ?_⟩
    exact absurd (hbelow.generation w j _ hw) (Nat.lt_irrefl _)
  obtain ⟨hagreed, j, hpt, hlt⟩ := hstart.run after hafter hall (Nat.lt_succ_self _)
    (.inr ⟨p, hp, by rw [hpv]; rfl⟩)
  exact finish_of hpt hagreed.conflict hagreed.main hlt

/-! ### Collection -/

/-- What of collected records the steps after collection see. -/
def reduced (s : List String × Records) : List String × Records := (s.1, essenceAll s.2)

theorem essenceAll_insert (M : Records) (id : String) (r : Value) :
    essenceAll (M.insert id r) = (essenceAll M).insert id (essence r) := by
  refine ExtTreeMap.ext_getElem? fun k => ?_
  simp only [essenceAll_getElem?, ExtTreeMap.getElem?_insert]
  split <;> rfl

theorem collectRecord_kept {identity : String} {w e : Value} {s s' : List String × Records}
    (h : Kept w e) (hf : isMain identity w = true → Faithful w) (hs : reduced s' = reduced s) :
    (collectRecord identity s' e).map reduced = (collectRecord identity s w).map reduced := by
  obtain ⟨order, M⟩ := s
  obtain ⟨order', M'⟩ := s'
  obtain ⟨rfl, hM⟩ := Prod.mk.inj hs
  have hcontains : ∀ id, M'.contains id = M.contains id := fun id => by
    rw [← essenceAll_contains, hM, essenceAll_contains]
  have huuid := (h.same "uuid" (by decide) (by decide)).asStr_eq
  simp only [collectRecord, h.owned_eq, h.transcript_eq, hcontains, huuid]
  split
  · exact congrArg Except.ok hs
  case isFalse ho =>
    refine map_bind_congr _ fun t ht => ?_
    split
    · exact congrArg Except.ok hs
    case isFalse htrue =>
      have hmain : isMain identity w = true := by
        simp only [Bool.not_eq_true', Bool.not_eq_false] at ho htrue
        rw [isMain, ho, ← transcript_eq_ok ht, htrue]
        rfl
      have hessence := h.essence_eq (typeOf_of_transcript ht) (hf hmain)
      refine map_bind_congr _ fun id _ => map_bind_congr _ fun _ _ => ?_
      cases h.field "parentUuid" (by decide) with
      | inl hnone =>
          rw [hnone.1, hnone.2]
          rfl
      | inr hsome =>
          obtain ⟨tree, x, hw, he, hx⟩ := hsome
          have hsame := hx.sameScalar (by decide)
          rw [hw, he, context_some, context_some, ok_bind, ok_bind, hsame.null, hsame.isString_eq]
          refine map_bind_congr _ fun _ _ => map_bind_congr _ fun _ _ => ?_
          exact congrArg Except.ok
            (Prod.ext rfl (by simp only [reduced, essenceAll_insert, hM, hessence]))

/-! ### The index and the transcript -/

/-- Related lists look the same to a function that does not tell related elements apart. -/
theorem map_eq_of_forall₂ {α : Type} {R : Value → Value → Prop} {f : Value → α}
    {ws es : List Value} (h : List.Forall₂ R ws es) (hf : ∀ w e, R w e → f e = f w) :
    es.map f = ws.map f := by
  induction h with
  | nil => rfl
  | cons hr _ ih => rw [List.map_cons, List.map_cons, hf _ _ hr, ih]

/-- Only owned transcript records are collected. -/
theorem collect_filter {identity : String} {ws : List Value}
    (ht : ∀ w ∈ ws, owned identity w = true → ∃ b, transcript w = .ok b) :
    collect ws identity = collect (ws.filter (isMain identity)) identity := by
  refine foldlM_filter_of_skip (fun w hw hm s => ?_) _
  simp only [collectRecord]
  cases ho : owned identity w with
  | false => rfl
  | true =>
      obtain ⟨b, hb⟩ := ht w hw ho
      rw [isMain, ho, Bool.true_and, ← transcript_eq_ok hb] at hm
      rw [hb, hm]
      rfl

namespace Indexed

variable {identity : String} {ws mains prompts : List Value}

theorem isMain_mains (h : Indexed identity ws mains prompts) :
    ∀ e ∈ mains, isMain identity e = true := by
  intro e he
  obtain ⟨w, hw, hk⟩ := mem_of_forall₂ h.mains he
  exact (hk.isMain_eq identity).trans (List.mem_filter.mp hw).2

theorem isPrompt_prompts (h : Indexed identity ws mains prompts) :
    ∀ e ∈ prompts, isPrompt identity e = true ∧ isMain identity e = false := by
  intro e he
  obtain ⟨w, hw, hk⟩ := mem_of_forall₂ h.prompts he
  have hp := (mem_trailing hw).2
  refine ⟨(hk.isPrompt_eq identity).trans hp, ?_⟩
  rw [hk.isMain_eq, isMain, mainType_of_isPointer ((Bool.and_eq_true _ _).mp hp).2, Bool.and_false]

theorem filter_index (h : Indexed identity ws mains prompts) :
    (mains ++ prompts).filter (isMain identity) = mains := by
  have hnil : prompts.filter (isMain identity) = [] :=
    List.filter_eq_nil_iff.mpr fun e he => by simp [(h.isPrompt_prompts e he).2]
  rw [List.filter_append, hnil, List.append_nil, List.filter_eq_self.mpr h.isMain_mains]

theorem trailing_index (h : Indexed identity ws mains prompts) :
    trailing identity (mains ++ prompts) = prompts := by
  have hmains : trailing identity mains = [] := by
    have hall := h.isMain_mains
    induction mains using List.reverseRecOn with
    | nil => rfl
    | append_singleton l r _ => rw [trailing_concat, if_pos (hall r (by simp))]
  rw [trailing_append_of_no_main _ fun e he => (h.isPrompt_prompts e he).2, hmains,
    List.nil_append, List.filter_eq_self.mpr fun e he => (h.isPrompt_prompts e he).1]

/-- Every owned entry of the index has a known type. -/
theorem typed_index (h : Indexed identity ws mains prompts) :
    ∀ e ∈ mains ++ prompts, owned identity e = true → ∃ b, transcript e = .ok b := by
  intro e he ho
  obtain ⟨w, hw, hk⟩ : ∃ w ∈ ws, Kept w e := by
    rcases List.mem_append.mp he with he | he
    · obtain ⟨w, hw, hk⟩ := mem_of_forall₂ h.mains he
      exact ⟨w, (List.mem_filter.mp hw).1, hk⟩
    · obtain ⟨w, hw, hk⟩ := mem_of_forall₂ h.prompts he
      exact ⟨w, (mem_trailing hw).1, hk⟩
  rw [hk.transcript_eq]
  exact h.typed w hw (hk.owned_eq identity ▸ ho)

/-- **Collection takes the same from the index.** -/
theorem collect_eq (h : Indexed identity ws mains prompts)
    (hf : ∀ w ∈ ws, isMain identity w = true → Faithful w) :
    (collect (mains ++ prompts) identity).map reduced = (collect ws identity).map reduced := by
  rw [collect_filter h.typed_index, collect_filter h.typed, h.filter_index]
  have hkept := (List.forall₂_and_left (p := Faithful) (R := Kept) _ mains).mpr
    ⟨fun w hw => hf w (List.mem_filter.mp hw).1 (List.mem_filter.mp hw).2, h.mains⟩
  exact foldlM_map_congr hkept
    (fun w e s s' hr hs => collectRecord_kept hr.2 (fun _ => hr.1) hs) rfl

/-- **The provider selects the same leaf.** -/
theorem providerSelector_iff (h : Indexed identity ws mains prompts) (leaf : String) :
    providerSelector (mains ++ prompts) identity = .ok (some leaf) ↔
      providerSelector ws identity = .ok (some leaf) := by
  have hlast : lastMain identity (mains ++ prompts) = lastMain identity ws := by
    rw [lastMain, lastMain, h.filter_index, map_eq_of_forall₂ h.mains fun w e hk => ?_]
    exact (hk.same "uuid" (by decide) (by decide)).asStr_eq
  have hleaves : leaves identity (mains ++ prompts) = leaves identity ws := by
    have hmap := map_eq_of_forall₂ (f := fun p => (p.get? "leafUuid").map Value.asStr) h.prompts
      fun w e hk => by
        rcases hk.field "leafUuid" (by decide) with ⟨hw, he⟩ | ⟨t, x, hw, he, hx⟩
        · rw [hw, he]
        · rw [hw, he, Option.map_some, Option.map_some, (hx.sameScalar (by decide)).asStr_eq]
    have := congrArg (List.filterMap id) hmap
    rw [List.filterMap_map, List.filterMap_map] at this
    rwa [leaves, leaves, h.trailing_index]
  rw [Claude.providerSelector_iff, Claude.providerSelector_iff, authoritativeLeaf_iff,
    authoritativeLeaf_iff, hlast, hleaves]

end Indexed

/-! ### Reconstruction -/

/-- Only the leaf a selector yields matters. -/
theorem selectQuotient_congr {M : Records} {members : Members}
    {a b : Except String (Option String)} (h : ∀ l, a = .ok (some l) ↔ b = .ok (some l))
    {q : Children × Bool} (ha : selectQuotient M members a = .ok q) :
    selectQuotient M members b = .ok q := by
  unfold selectQuotient at ha ⊢
  split at ha
  case h_1 hq => exact ha
  case h_2 hq =>
    rw [bind_eq_ok] at ha
    obtain ⟨leaf, hleaf, ha⟩ := ha
    cases leaf with
    | none => cases ha
    | some l =>
        rw [(h l).mp hleaf]
        exact ha

theorem conversationalSelector_congr {M : Records} {a b : Except String (Option String)}
    (h : ∀ l, a = .ok (some l) ↔ b = .ok (some l)) (anchor : String) :
    (do conversationalSelector (← a) M) = .ok (some anchor) →
      (do conversationalSelector (← b) M) = .ok (some anchor) := by
  intro ha
  rw [bind_eq_ok] at ha
  obtain ⟨leaf, hleaf, ha⟩ := ha
  cases leaf with
  | none => cases ha
  | some l =>
      rw [(h l).mp hleaf]
      exact ha

theorem reconstructFrom_congr {order : List String} {M : Records}
    {a b : Except String (Option String)} (h : ∀ l, a = .ok (some l) ↔ b = .ok (some l))
    {out : List Value} (ha : reconstructFrom order M a = .ok out) :
    reconstructFrom order M b = .ok out := by
  simp only [reconstructFrom, chain, bind_eq_ok] at ha ⊢
  obtain ⟨linked, hl, u, hu, v, hv, members, hm, q, hq, ha⟩ := ha
  refine ⟨linked, hl, u, hu, v, hv, members, hm, q, ?_, ha⟩
  exact selectQuotient_congr (fun anchor =>
    ⟨conversationalSelector_congr h anchor, conversationalSelector_congr (fun l => (h l).symm) anchor⟩)
    hq

def uuids (records : List Value) : List (Option String) := records.map fun r => r["uuid"].asStr

theorem uuids_essence (records : List Value) : uuids (records.map essence) = uuids records := by
  simp [uuids]

/-- What reconstruction orders depends on the essence of the collected records. -/
theorem reconstructFrom_of_essence {order : List String} {M M' : Records}
    (h : essenceAll M = essenceAll M') {leaf : Except String (Option String)} {out : List Value}
    (ho : reconstructFrom order M leaf = .ok out) :
    ∃ out', reconstructFrom order M' leaf = .ok out' ∧ uuids out' = uuids out := by
  have he := reconstructFrom_essence order M leaf
  rw [h, reconstructFrom_essence, ho] at he
  cases h' : reconstructFrom order M' leaf with
  | error e =>
      rw [h'] at he
      cases he
  | ok out' =>
      rw [h'] at he
      have he : out'.map essence = out.map essence := Except.ok.inj he
      exact ⟨out', rfl, by rw [← uuids_essence, ← uuids_essence out, he]⟩

theorem reconstruct_transfer {identity : String} {ws ws' out : List Value}
    (hc : (collect ws identity).map reduced = (collect ws' identity).map reduced)
    (hs : ∀ l, providerSelector ws identity = .ok (some l) ↔
      providerSelector ws' identity = .ok (some l))
    (h : reconstruct ws identity = .ok out) :
    ∃ out', reconstruct ws' identity = .ok out' ∧ uuids out' = uuids out := by
  rw [reconstruct_eq_from, bind_eq_ok] at h
  obtain ⟨s, hs₁, h⟩ := h
  rw [hs₁] at hc
  cases hs₂ : collect ws' identity with
  | error e =>
      rw [hs₂] at hc
      cases hc
  | ok s' =>
      rw [hs₂] at hc
      obtain ⟨ho, hM⟩ := Prod.mk.inj (Except.ok.inj hc)
      rw [ho] at h
      rw [reconstruct_eq_from, hs₂, ok_bind]
      exact reconstructFrom_of_essence hM (reconstructFrom_congr hs h)

/-- **The ancestry index is equivalent to the transcript.**  Where no owned transcript record has
an ownership field with an object inside or an identity longer than the bound on text, the index a
scan builds is reconstructed exactly when the full records are, and to the same uuids in the same
order. -/
theorem reconstruct_scan {charge : Value → Except String Nat} {lines : List Line}
    {identity : String} {index : List Value} (h : scan charge lines identity = .ok index)
    (hf : ∀ w ∈ recordsOf lines, isMain identity w = true → Faithful w) :
    ((∃ out, reconstruct index identity = .ok out) ↔
      ∃ out, reconstruct (recordsOf lines) identity = .ok out) ∧
    ∀ out out', reconstruct index identity = .ok out →
      reconstruct (recordsOf lines) identity = .ok out' → uuids out = uuids out' := by
  obtain ⟨mains, prompts, rfl, hi⟩ := scan_spec h
  have hc := hi.collect_eq hf
  have hs := hi.providerSelector_iff
  refine ⟨⟨?_, ?_⟩, ?_⟩
  · rintro ⟨out, ho⟩
    obtain ⟨out', ho', -⟩ := reconstruct_transfer hc hs ho
    exact ⟨out', ho'⟩
  · rintro ⟨out, ho⟩
    obtain ⟨out', ho', -⟩ := reconstruct_transfer hc.symm (fun l => (hs l).symm) ho
    exact ⟨out', ho'⟩
  · intro out out' ho ho'
    obtain ⟨out'', ho'', hu⟩ := reconstruct_transfer hc hs ho
    rw [ho'] at ho''
    cases ho''
    exact hu.symm

/-- A line that holds one record. -/
def recordLine (tree : Value) : Line := ⟨some tree, 512, "digest"⟩

/-- A branch with a pointer that later records made stale, a side conversation and metadata. -/
def recordedBranch : List Line :=
  (.object [("leafUuid", .string "old"), ("sessionId", .string "owned"),
      ("type", .string "last-prompt")] ::
    .object [("sessionId", .string "owned"), ("isSidechain", .bool true), ("type", .string "user")] ::
    .object [("sessionId", .string "owned"), ("type", .string "summary")] ::
    pointedBranch).map recordLine

theorem reconstruct_scan_recordedBranch :
    ∃ index out out', scan metadataCharge recordedBranch "owned" = .ok index ∧
      reconstruct index "owned" = .ok out ∧
      reconstruct (recordsOf recordedBranch) "owned" = .ok out' ∧ uuids out = uuids out' := by
  obtain ⟨index, hindex⟩ := succeeds_iff.mp
    (show succeeds (scan metadataCharge recordedBranch "owned") = true by decide +kernel)
  obtain ⟨out', hout'⟩ := succeeds_iff.mp
    (show succeeds (reconstruct (recordsOf recordedBranch) "owned") = true by decide +kernel)
  obtain ⟨hiff, hsame⟩ := reconstruct_scan hindex (by decide +kernel)
  obtain ⟨out, hout⟩ := hiff.mpr ⟨out', hout'⟩
  exact ⟨index, out, out', hindex, hout, hout', hsame out out' hout hout'⟩

/-- A record that makes one call of a response, by the agent `agent`. -/
def agentRecord (id parent call : String) (agent : Value) : Value :=
  (callRecord id parent "response" call).set "agentId" agent

/-- One response in two records whose agents are objects that differ inside. -/
def conflictingAgents : List Line :=
  [userRecord "root" .null [],
    agentRecord "a1" "root" "call1" (.object [("a", .number (.posInt 1))]),
    agentRecord "a2" "a1" "call2" (.object [("a", .number (.posInt 2))])].map recordLine

/-- Extraction keeps no field of an agent that is an object, so the index does not show that its
records conflict. -/
theorem reconstruct_scan_conflictingAgents :
    ∃ index, scan metadataCharge conflictingAgents "owned" = .ok index ∧
      (∃ out, reconstruct index "owned" = .ok out) ∧
      ¬ ∃ out, reconstruct (recordsOf conflictingAgents) "owned" = .ok out := by
  obtain ⟨index, hindex⟩ := succeeds_iff.mp
    (show succeeds (scan metadataCharge conflictingAgents "owned") = true by decide +kernel)
  have hok : succeeds (scan metadataCharge conflictingAgents "owned" >>= fun index =>
      reconstruct index "owned") = true := by decide +kernel
  rw [hindex, ok_bind] at hok
  refine ⟨index, hindex, succeeds_iff.mp hok, fun h => ?_⟩
  have hfull : succeeds (reconstruct (recordsOf conflictingAgents) "owned") = false := by
    decide +kernel
  exact absurd (succeeds_iff.mpr h) (by rw [hfull]; decide)

end Pikamux.Claude
