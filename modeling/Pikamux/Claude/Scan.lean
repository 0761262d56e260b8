import Pikamux.Claude.Extracted
import Pikamux.Claude.Leaf

/-!
# Claude — Scan

What the index holds when `scan` is done: an entry for every owned transcript record, in order,
and after them one for every owned pointer that came after the last of these (`scan_spec`).  An
entry reads like its record wherever reconstruction looks (`Kept.same`, `Kept.essence_eq`).
-/

namespace Pikamux.Claude

open Std Support Json

/-- An owned `last-prompt` record. -/
def isPrompt (identity : String) (record : Value) : Bool :=
  owned identity record && isPointer record

/-! ### Entries -/

/-- `e` has the ancestry fields that were extracted of the record `w`. -/
def Kept (w e : Value) : Prop :=
  ∃ tree y, w = .ofTree tree ∧ Stream.extract false tree = .ok y ∧
    ∀ key ∈ metadataKeys, e.get? key = y.get? key

theorem asObject_copyField {y init : Value} (h : init.asObject ≠ none) (key : String) :
    (copyField y init key).asObject ≠ none := by
  unfold copyField
  split
  · exact Value.asObject_set h
  · exact h

theorem get?_copyField {y init : Value} (h : init.asObject ≠ none) (k key : String) :
    (copyField y init k).get? key =
      if key = k then (y.get? key).or (init.get? key) else init.get? key := by
  unfold copyField
  by_cases e : key = k
  · subst e
    rw [if_pos rfl]
    split
    case h_1 v hv => rw [Value.get?_set_self h, hv, Option.some_or]
    case h_2 hv => rw [hv, Option.none_or]
  · rw [if_neg e]
    split
    · exact Value.get?_set_ne e
    · rfl

/-- A copied field is read from the entry as from the record. -/
theorem get?_loop_copyField {y init : Value} (h : init.asObject ≠ none) (keys : List String)
    (key : String) : (loop keys init (copyField y)).asObject ≠ none ∧
      (loop keys init (copyField y)).get? key =
        if key ∈ keys then (y.get? key).or (init.get? key) else init.get? key := by
  induction keys generalizing init with
  | nil => exact ⟨h, rfl⟩
  | cons k keys ih =>
      obtain ⟨ho, hget⟩ := ih (asObject_copyField (y := y) h k)
      refine ⟨ho, hget.trans ?_⟩
      rw [get?_copyField h]
      by_cases e : key = k
      · subst e
        rw [if_pos rfl, if_pos (List.mem_cons_self ..)]
        split
        · cases y.get? key <;> rfl
        · rfl
      · simp only [e, if_false, List.mem_cons, false_or]

theorem get?_entry {y : Value} {offset : Nat} {line : Line} {key : String}
    (hk : key ∈ metadataKeys) : (entry y offset line).get? key = y.get? key := by
  have hne : key ≠ "_pikaDigest" ∧ key ≠ "_pikaLength" ∧ key ≠ "_pikaOffset" := by
    refine ⟨?_, ?_, ?_⟩ <;> (rintro rfl; revert hk; decide)
  obtain ⟨hd, hl, ho⟩ := hne
  rw [entry, Value.get?_set_ne hd, metadata, (get?_loop_copyField (by simp [Value.asObject]) _ _).2,
    if_pos hk]
  have hinit : ∀ a b : Value,
      (Value.object [("_pikaLength", a), ("_pikaOffset", b)]).get? key = none := by
    intro a b
    simp [Value.get?, List.lookup_cons, List.lookup_nil, beq_eq_false_iff_ne.mpr hl, beq_eq_false_iff_ne.mpr ho]
  rw [hinit, Option.or_none]

theorem Extracted.of_extract {tree y : Value} (h : Stream.extract false tree = .ok y) :
    Extracted [] tree y := by
  simp only [Stream.extract, bind_eq_ok, pure_eq_ok] at h
  obtain ⟨⟨v, retained⟩, hv, rfl⟩ := h
  exact ⟨0, 0, retained, hv⟩

namespace Kept

variable {w e : Value}

/-- A field of the entry was extracted from that of the record. -/
theorem field (h : Kept w e) (key : String) (hk : key ∈ metadataKeys) :
    FieldExtracted [] key w e := by
  obtain ⟨tree, y, rfl, hy, he⟩ := h
  have hkeep : Stream.keep false [] key = true := by
    revert hk
    simp [metadataKeys, Stream.keep]
    tauto
  have hm : key ≠ "_pikaOversizedText" := by
    rintro rfl
    revert hk
    decide
  rw [FieldExtracted, he key hk]
  exact (Extracted.of_extract hy).field hkeep hm

theorem isNone_eq (h : Kept w e) (key : String) (hk : key ∈ metadataKeys) :
    (e.get? key).isNone = (w.get? key).isNone :=
  (h.field key hk).isNone_eq

theorem of_extract {tree y : Value} (h : Stream.extract false tree = .ok y) :
    Kept (.ofTree tree) y :=
  ⟨tree, y, rfl, h, fun _ _ => rfl⟩

theorem entry {y : Value} (h : Kept w y) (offset : Nat) (line : Line) :
    Kept w (entry y offset line) := by
  obtain ⟨tree, x, hw, hx, he⟩ := h
  exact ⟨tree, x, hw, hx, fun key hk => (get?_entry hk).trans (he key hk)⟩

theorem same (h : Kept w e) (key : String) (hk : key ∈ metadataKeys) (hm : key ≠ "message") :
    SameScalar w[key] e[key] :=
  (h.field key hk).sameScalar (by simpa using hm)

theorem owned_eq (h : Kept w e) (identity : String) : owned identity e = owned identity w := by
  rw [owned, owned, (h.same "sessionId" (by decide) (by decide)).asStr_eq,
    (h.same "isSidechain" (by decide) (by decide)).asBool_eq]

theorem typeOf_eq (h : Kept w e) : typeOf e = typeOf w :=
  (h.same "type" (by decide) (by decide)).asStr_eq

theorem boundary_eq (h : Kept w e) : boundary e = boundary w := by
  rw [boundary, boundary, h.typeOf_eq,
    (h.same "subtype" (by decide) (by decide)).asStr_eq]

theorem transcript_eq (h : Kept w e) : transcript e = transcript w := by
  simp only [transcript, h.typeOf_eq, h.boundary_eq,
    h.isNone_eq "compactMetadata" (by decide)]

theorem isPointer_eq (h : Kept w e) : isPointer e = isPointer w := by
  rw [isPointer, isPointer, h.typeOf_eq]

theorem isPrompt_eq (h : Kept w e) (identity : String) :
    isPrompt identity e = isPrompt identity w := by
  rw [isPrompt, isPrompt, h.owned_eq, h.isPointer_eq]

theorem isMain_eq (h : Kept w e) (identity : String) : isMain identity e = isMain identity w := by
  rw [isMain, isMain, h.owned_eq, h.typeOf_eq]

end Kept

/-- Ownership fields without a field inside, and identities within the bound on text: nothing
ancestry reads of the record is reduced. -/
structure Faithful (record : Value) : Prop where
  agent : plain record["agentId"] = true
  sidechain : plain record["isSidechain"] = true
  message : IdsBounded record["message"]

instance (record : Value) : Decidable (Faithful record) :=
  decidable_of_iff (plain record["agentId"] = true ∧ plain record["isSidechain"] = true ∧
      IdsBounded record["message"])
    ⟨fun h => ⟨h.1, h.2.1, h.2.2⟩, fun h => ⟨h.agent, h.sidechain, h.message⟩⟩

theorem essence_of_typeOf {r : Value} (h : typeOf r ≠ none) :
    essence r = .object (essenceFields r) := by
  cases r with
  | object => rfl
  | _ => exact absurd rfl h

/-- **An entry reads like its record.** -/
theorem Kept.essence_eq {w e : Value} (h : Kept w e) (ht : typeOf w ≠ none) (hf : Faithful w) :
    essence e = essence w := by
  have hplain : ∀ key ∈ ["agentId", "isSidechain"], plain w[key] = true → e[key] = w[key] := by
    intro key hk
    have hm : key ∈ metadataKeys := by
      revert hk
      simp only [metadataKeys, List.mem_cons, List.not_mem_nil]
      tauto
    refine (h.field _ hm).getElem (P := fun w y => plain w = true → y = w) (fun _ => rfl) ?_
    intro tree x _ hx hp
    have hp' : [] ++ [key] = ["agentId"] ∨ [] ++ [key] = ["isSidechain"] := by simpa using hk
    rcases hp' with e | e
    · rw [e] at hx
      exact hx.plain_eq (fun _ => rfl) (by decide) (by decide) tree hp
    · rw [e] at hx
      exact hx.plain_eq (fun _ => rfl) (by decide) (by decide) tree hp
  have hmessage : essenceMessage e["message"] = essenceMessage w["message"] := by
    refine (h.field _ (by decide)).getElem
      (P := fun w y => IdsBounded w → essenceMessage y = essenceMessage w) (fun _ => rfl) ?_
      hf.message
    intro tree x _ hx hb
    exact hx.essenceMessage_eq hb
  have hcompact : essenceCompact e["compactMetadata"] = essenceCompact w["compactMetadata"] := by
    refine (h.field _ (by decide)).getElem (P := fun w y => essenceCompact y = essenceCompact w) rfl ?_
    intro tree x _ hx
    exact hx.essenceCompact_eq
  have he : typeOf e ≠ none := h.typeOf_eq ▸ ht
  rw [essence_of_typeOf he, essence_of_typeOf ht, essenceFields, essenceFields, hmessage,
    hcompact, hplain "agentId" (by decide) hf.agent, hplain "isSidechain" (by decide) hf.sidechain,
    (h.same "isMeta" (by decide) (by decide)).bool,
    (h.same "parentUuid" (by decide) (by decide)).str,
    (h.same "subtype" (by decide) (by decide)).str,
    (h.same "type" (by decide) (by decide)).str,
    (h.same "uuid" (by decide) (by decide)).str]

/-! ### The scan -/

/-- The owned pointers after the last owned transcript record. -/
def trailing (identity : String) (records : List Value) : List Value :=
  loop records [] fun prompts record =>
    if isMain identity record then []
    else if isPrompt identity record then prompts ++ [record] else prompts

theorem trailing_concat (identity : String) (records : List Value) (record : Value) :
    trailing identity (records ++ [record]) =
      if isMain identity record then []
      else if isPrompt identity record then trailing identity records ++ [record]
      else trailing identity records := by
  rw [trailing, loop, List.foldl_append]
  rfl

theorem mem_trailing {identity : String} {records : List Value} {w : Value}
    (h : w ∈ trailing identity records) : w ∈ records ∧ isPrompt identity w = true := by
  induction records using List.reverseRecOn with
  | nil => cases h
  | append_singleton records record ih =>
      rw [trailing_concat] at h
      split at h
      · cases h
      · split at h
        case isTrue hp =>
          rcases List.mem_append.mp h with h | h
          · exact ⟨List.mem_append_left _ (ih h).1, (ih h).2⟩
          · obtain rfl := List.mem_singleton.mp h
            exact ⟨by simp, hp⟩
        case isFalse => exact ⟨List.mem_append_left _ (ih h).1, (ih h).2⟩

/-- The records that `mains` and `prompts` are entries of, and the type of every owned record. -/
structure Indexed (identity : String) (ws mains prompts : List Value) : Prop where
  typed : ∀ w ∈ ws, owned identity w = true → ∃ b, transcript w = .ok b
  mains : List.Forall₂ Kept (ws.filter (isMain identity)) mains
  prompts : List.Forall₂ Kept (trailing identity ws) prompts

/-- The index after the records `ws`. -/
def Scanned (identity : String) (ws index : List Value) : Prop :=
  ∃ mains prompts, index = mains ++ prompts ∧ Indexed identity ws mains prompts

theorem transcript_eq_ok {w : Value} {b : Bool} (h : transcript w = .ok b) :
    b = mainType (typeOf w) := by
  simp only [transcript, bind_eq_ok, context_eq_ok] at h
  obtain ⟨kind, hk, h⟩ := h
  rw [hk]
  split at h
  case isTrue hm =>
    simp only [bind_eq_ok, pure_eq_ok] at h
    obtain ⟨_, -, rfl⟩ := h
    exact hm.symm
  case isFalse hm =>
    simp only [bind_eq_ok, pure_eq_ok] at h
    obtain ⟨_, -, rfl⟩ := h
    simpa using hm

theorem typeOf_of_transcript {w : Value} {b : Bool} (h : transcript w = .ok b) :
    typeOf w ≠ none := by
  simp only [transcript, bind_eq_ok, context_eq_ok] at h
  obtain ⟨kind, hk, -⟩ := h
  simp [hk]

/-- A pointer is not a transcript record. -/
theorem mainType_of_isPointer {w : Value} (h : isPointer w = true) :
    mainType (typeOf w) = false := by
  rw [isPointer, decide_eq_true_eq] at h
  rw [h]
  decide

/-- What is selected are the owned transcript records and pointers, all of a known type. -/
theorem selectedRecord_eq_ok {identity : String} {y : Value} {b : Bool}
    (h : selectedRecord y identity = .ok b) :
    (owned identity y = true → ∃ b, transcript y = .ok b) ∧
      b = (isMain identity y || isPrompt identity y) := by
  rw [selectedRecord] at h
  split at h
  case isTrue ho =>
    simp only [bind_eq_ok, pure_eq_ok] at h
    obtain ⟨t, ht, rfl⟩ := h
    refine ⟨fun _ => ⟨t, ht⟩, ?_⟩
    rw [transcript_eq_ok ht, isMain, isPrompt, isPointer, ho, Bool.true_and, Bool.true_and]
  case isFalse ho =>
    cases h
    exact ⟨fun h => absurd h ho, by simp [isMain, isPrompt, ho]⟩

theorem popPointers_eq {charge : Value → Except String Nat} {mains prompts rest : List Value}
    {used used' : Nat} (hm : ∀ e ∈ mains, isPointer e = false)
    (hp : ∀ e ∈ prompts, isPointer e = true)
    (h : popPointers charge (prompts ++ mains) used = .ok (rest, used')) : rest = mains := by
  induction prompts generalizing used with
  | nil =>
      cases mains with
      | nil =>
          rw [List.nil_append, popPointers] at h
          cases h
          rfl
      | cons e mains =>
          rw [List.nil_append, popPointers, if_neg (by simp [hm e])] at h
          cases h
          rfl
  | cons e prompts ih =>
      rw [List.cons_append, popPointers, if_pos (hp e (by simp)), bind_eq_ok] at h
      obtain ⟨n, -, h⟩ := h
      exact ih (fun e he => hp e (List.mem_cons_of_mem _ he)) h

theorem mem_of_forall₂ {R : Value → Value → Prop} {ws es : List Value}
    (h : List.Forall₂ R ws es) {e : Value} (he : e ∈ es) : ∃ w ∈ ws, R w e := by
  induction h with
  | nil => cases he
  | cons hr _ ih =>
      rcases List.mem_cons.mp he with rfl | he
      · exact ⟨_, List.mem_cons_self .., hr⟩
      · obtain ⟨w, hw, hr⟩ := ih he
        exact ⟨w, List.mem_cons_of_mem _ hw, hr⟩

section Run

variable {charge : Value → Except String Nat} {identity : String} {ws index : List Value}
  {w y : Value}

theorem Scanned.nil : Scanned identity [] [] :=
  ⟨[], [], rfl, fun _ h => (List.not_mem_nil h).elim, .nil, .nil⟩

theorem Indexed.concat_typed {mains prompts : List Value} (h : Indexed identity ws mains prompts)
    (ht : owned identity w = true → ∃ b, transcript w = .ok b) :
    ∀ v ∈ ws ++ [w], owned identity v = true → ∃ b, transcript v = .ok b := by
  intro v hv
  rcases List.mem_append.mp hv with hv | hv
  · exact h.typed v hv
  · exact List.mem_singleton.mp hv ▸ ht

/-- A record not selected adds nothing. -/
theorem Scanned.skip (h : Scanned identity ws index)
    (ht : owned identity w = true → ∃ b, transcript w = .ok b)
    (hm : isMain identity w = false) (hp : isPrompt identity w = false) :
    Scanned identity (ws ++ [w]) index := by
  obtain ⟨mains, prompts, rfl, h⟩ := h
  have hmains := h.mains
  have hprompts := h.prompts
  refine ⟨mains, prompts, rfl, h.concat_typed ht, ?_, ?_⟩
  · simpa [List.filter_append, List.filter_cons, hm] using hmains
  · rw [trailing_concat, hm, hp]
    simpa using hprompts

/-- A transcript record adds its entry and discards the pointers before it. -/
theorem Scanned.main (h : Scanned identity ws index) (hk : Kept w y) (offset : Nat) (line : Line)
    (ht : owned identity w = true → ∃ b, transcript w = .ok b) (hm : isMain identity w = true)
    {rest : List Value} {used used' : Nat}
    (hd : discardStaleSelectors charge y index used = .ok (rest, used')) :
    Scanned identity (ws ++ [w]) (rest ++ [entry y offset line]) := by
  obtain ⟨mains, prompts, rfl, h⟩ := h
  have hmains := h.mains
  have hprompts := h.prompts
  have hmain : ∀ e ∈ mains, isPointer e = false := by
    intro e he
    obtain ⟨v, hv, hke⟩ := mem_of_forall₂ hmains he
    have hv := (List.mem_filter.mp hv).2
    rw [hke.isPointer_eq, ← Bool.not_eq_true]
    intro hpt
    simp [isMain, mainType_of_isPointer hpt] at hv
  have hprompt : ∀ e ∈ prompts, isPointer e = true := by
    intro e he
    obtain ⟨v, hv, hke⟩ := mem_of_forall₂ hprompts he
    rw [hke.isPointer_eq]
    exact ((Bool.and_eq_true _ _).mp (mem_trailing hv).2).2
  have hy : isPointer y = false := by
    rw [hk.isPointer_eq, ← Bool.not_eq_true]
    intro hpt
    simp [isMain, mainType_of_isPointer hpt] at hm
  rw [discardStaleSelectors, if_neg (by simp [hy]), bind_eq_ok] at hd
  obtain ⟨⟨reversed, u⟩, hpop, hd⟩ := hd
  rw [List.reverse_append] at hpop
  have hrev := popPointers_eq (fun e he => hmain e (List.mem_reverse.mp he))
    (fun e he => hprompt e (List.mem_reverse.mp he)) hpop
  cases hd
  subst hrev
  rw [List.reverse_reverse]
  refine ⟨mains ++ [entry y offset line], [], by simp, h.concat_typed ht, ?_, ?_⟩
  · rw [List.filter_append, List.filter_cons_of_pos hm, List.filter_nil]
    exact List.rel_append (R := Kept) hmains (.cons (hk.entry offset line) .nil)
  · rw [trailing_concat, if_pos hm]
    exact .nil

/-- A pointer adds its entry. -/
theorem Scanned.prompt (h : Scanned identity ws index) (hk : Kept w y) (offset : Nat) (line : Line)
    (ht : owned identity w = true → ∃ b, transcript w = .ok b) (hp : isPrompt identity w = true)
    {rest : List Value} {used used' : Nat}
    (hd : discardStaleSelectors charge y index used = .ok (rest, used')) :
    Scanned identity (ws ++ [w]) (rest ++ [entry y offset line]) := by
  obtain ⟨mains, prompts, rfl, h⟩ := h
  have hmains := h.mains
  have hprompts := h.prompts
  have hpt : isPointer w = true := ((Bool.and_eq_true _ _).mp hp).2
  have hm : isMain identity w = false := by simp [isMain, mainType_of_isPointer hpt]
  rw [discardStaleSelectors, if_pos (hk.isPointer_eq.trans hpt)] at hd
  cases hd
  refine ⟨mains, prompts ++ [entry y offset line], by simp, h.concat_typed ht, ?_, ?_⟩
  · simpa [List.filter_append, List.filter_cons, hm] using hmains
  · rw [trailing_concat, hm, hp]
    exact List.rel_append (R := Kept) hprompts (.cons (hk.entry offset line) .nil)

theorem recordsOf_concat (lines : List Line) (line : Line) :
    recordsOf (lines ++ [line]) = recordsOf lines ++ (line.tree.map Value.ofTree).toList := by
  rw [recordsOf, List.filterMap_append, List.filterMap_cons, List.filterMap_nil]
  cases line.tree <;> rfl

theorem Scanned.step {lines : List Line} {line : Line} {state state' : Scan}
    (h : Scanned identity (recordsOf lines) state.records)
    (hs : scanLine charge identity state line = .ok state') :
    Scanned identity (recordsOf (lines ++ [line])) state'.records := by
  rw [recordsOf_concat]
  unfold scanLine at hs
  cases htree : line.tree with
  | none =>
      rw [htree] at hs
      cases hs
      simpa using h
  | some tree =>
      rw [htree] at hs
      simp only [bind_eq_ok] at hs
      obtain ⟨y, hy, selected, hsel, hs⟩ := hs
      have hk := Kept.of_extract hy
      obtain ⟨ht, hselected⟩ := selectedRecord_eq_ok hsel
      rw [hk.owned_eq, hk.transcript_eq] at ht
      rw [hk.isMain_eq, hk.isPrompt_eq] at hselected
      rw [Option.map_some, Option.toList_some]
      split at hs
      case isTrue hsel =>
        simp only [bind_eq_ok, pure_eq_ok, chargedMetadata] at hs
        obtain ⟨⟨rest, used⟩, hd, _, ⟨n, -, _, -, rfl⟩, rfl⟩ := hs
        rw [hsel] at hselected
        rcases (Bool.or_eq_true _ _).mp hselected.symm with hm | hp
        · exact h.main hk _ _ ht hm hd
        · exact h.prompt hk _ _ ht hp hd
      case isFalse hsel =>
        rw [pure_eq_ok] at hs
        subst hs
        rw [Bool.not_eq_true] at hsel
        rw [hsel] at hselected
        obtain ⟨hm, hp⟩ := (Bool.or_eq_false_iff).mp hselected.symm
        exact h.skip ht hm hp

theorem scan_spec {lines : List Line} (h : scan charge lines identity = .ok index) :
    Scanned identity (recordsOf lines) index := by
  simp only [scan, bind_eq_ok, pure_eq_ok] at h
  obtain ⟨state, hs, rfl⟩ := h
  exact foldlM_prefix (fun seen state => Scanned identity (recordsOf seen) state.records) hs
    .nil fun _ _ _ _ _ hstep hseen => hseen.step hstep

end Run

end Pikamux.Claude
