import Mathlib.Algebra.Order.BigOperators.Group.List
import Mathlib.Algebra.Order.Ring.Nat
import Mathlib.Data.Set.List
import Pikamux.Claude.Reader

/-!
# Claude — Pages

The pages of a frozen history partition its items.  A page is the longest run of items before the
cursor that is within its bounds (`page_succeeded`), so reads that follow the cursor go through all
items without a gap or a repetition, and a read of another source or of other items fails
(`pages_partition`).
-/

namespace Pikamux.Claude

open Std Support Json

/-! ### The window -/

/-- An item with its encoded size. -/
def sized (entry : Value) : Value × Nat := (entry, encodedLength entry + 1)

/-- The bytes of a page: its brackets, and its items with their commas. -/
def pageSize (items : List Value) : Nat := 2 + (items.map fun entry => (sized entry).2).sum

/-- A page is within its bounds. -/
def PageFits (items : List Value) : Prop :=
  items.length ≤ pageItems ∧ pageSize items ≤ claudePageBytes

instance : DecidablePred PageFits := fun _ => inferInstanceAs (Decidable (_ ∧ _))

/-- An item fits a page alone. -/
def ItemFits (entry : Value) : Prop := encodedLength entry + 1 + 2 ≤ claudePageBytes

theorem pageSize_cons (entry : Value) (items : List Value) :
    pageSize (entry :: items) = pageSize items + (sized entry).2 := by
  simp only [pageSize, List.map_cons, List.sum_cons]
  omega

theorem pageSize_concat (items : List Value) (entry : Value) :
    pageSize (items ++ [entry]) = pageSize items + (sized entry).2 := by
  simp [pageSize, Nat.add_assoc]

theorem pageFits_monotone : Monotone PageFits where
  nil := by decide
  sublist hs h := by
    refine ⟨hs.length_le.trans h.1, Nat.le_trans (Nat.add_le_add_left ?_ 2) h.2⟩
    exact (hs.map _).sum_le_sum fun _ _ => Nat.zero_le _

theorem PageFits.singleton {entry : Value} (h : ItemFits entry) : PageFits [entry] := by
  refine ⟨by simp [pageItems], ?_⟩
  rw [ItemFits] at h
  simp only [pageSize, sized, List.map_cons, List.map_nil, List.sum_cons, List.sum_nil]
  omega

/-- Dropping from the front until the page is within its bounds leaves its longest suffix that
is. -/
theorem shrink_eq (items : List Value) :
    shrink (items.map sized) (pageSize items) =
      .ok ((lastFit PageFits items).map sized, pageSize (lastFit PageFits items)) := by
  induction items with
  | nil => rfl
  | cons entry items ih =>
      simp only [List.map_cons, sized, shrink, lastFit]
      by_cases h : PageFits (entry :: items)
      · obtain ⟨hl, hs⟩ := h
        rw [List.length_cons] at hl
        rw [if_neg (by simp; omega), if_pos ⟨by simpa using hl, hs⟩]
        rfl
      · have hbounds : items.length + 1 > pageItems ∨ pageSize (entry :: items) > claudePageBytes := by
          rw [PageFits, List.length_cons] at h
          omega
        rw [if_pos (by simpa using hbounds), if_neg h, pageSize_cons]
        simpa [sized] using ih

/-- The items before `target`. -/
def upTo (target : Option Nat) (items : List Value) : List Value := items.take (target.getD items.length)

/-- The window once `items` have been projected. -/
def windowOf (target : Option Nat) (items : List Value) : Window where
  page := (lastFit PageFits (upTo target items)).map sized
  count := items.length
  pageBytes := pageSize (lastFit PageFits (upTo target items))
  digested := '[' :: commaSep (items.map Value.chars)

theorem upTo_concat_of_le {target : Option Nat} {items : List Value} {entry : Value}
    (h : target.all (items.length + 1 ≤ ·) = true) :
    upTo target (items ++ [entry]) = upTo target items ++ [entry] := by
  cases target with
  | none => simp [upTo]
  | some k =>
      have hk : items.length + 1 ≤ k := by simpa using h
      simp only [upTo, Option.getD_some]
      rw [List.take_of_length_le (by simpa using hk), List.take_of_length_le (by omega)]

theorem upTo_concat_of_not_le {target : Option Nat} {items : List Value} {entry : Value}
    (h : target.all (items.length + 1 ≤ ·) = false) :
    upTo target (items ++ [entry]) = upTo target items := by
  cases target with
  | none => cases h
  | some k =>
      have hk : ¬items.length + 1 ≤ k := by simpa using h
      simp only [upTo, Option.getD_some]
      exact List.take_append_of_le_length (by omega)

theorem digested_concat (target : Option Nat) (items : List Value) (entry : Value) :
    (windowOf target items).digested ++
        (if (windowOf target items).count > 0 then ',' :: entry.chars else entry.chars) =
      (windowOf target (items ++ [entry])).digested := by
  simp only [windowOf, List.map_append, List.map_singleton, commaSep_concat]
  cases items <;> simp

section Entry

variable {target : Option Nat} {items : List Value} {entry : Value} {w : Window}

theorem addEntry_of_not_fits (h : ¬ItemFits entry) : ∃ e, addEntry target w entry = .error e := by
  have hensure : decide (encodedLength entry + 1 + 2 ≤ claudePageBytes) = false := decide_eq_false h
  exact ⟨_, by simp only [addEntry, hensure]; rfl⟩

theorem addEntry_of_fits (h : ItemFits entry) :
    addEntry target w entry =
      if target.all (w.count + 1 ≤ ·) then
        (shrink (w.page ++ [sized entry]) (w.pageBytes + (sized entry).2)).map fun r =>
          ⟨r.1, w.count + 1, r.2,
            w.digested ++ (if w.count > 0 then ',' :: entry.chars else entry.chars)⟩
      else .ok { w with
        count := w.count + 1
        digested := w.digested ++ (if w.count > 0 then ',' :: entry.chars else entry.chars) } := by
  have hensure : decide (encodedLength entry + 1 + 2 ≤ claudePageBytes) = true := decide_eq_true h
  simp only [addEntry, hensure]
  rfl

theorem addEntry_windowOf (h : ItemFits entry) :
    addEntry target (windowOf target items) entry = .ok (windowOf target (items ++ [entry])) := by
  rw [addEntry_of_fits h, digested_concat]
  by_cases hbefore : target.all ((windowOf target items).count + 1 ≤ ·) = true
  · have hpage : (windowOf target items).page ++ [sized entry] =
        (lastFit PageFits (upTo target items) ++ [entry]).map sized := by
      rw [List.map_append]
      rfl
    have hsize : (windowOf target items).pageBytes + (sized entry).2 =
        pageSize (lastFit PageFits (upTo target items) ++ [entry]) := (pageSize_concat _ entry).symm
    rw [if_pos hbefore, hpage, hsize, shrink_eq, lastFit_concat pageFits_monotone,
      ← upTo_concat_of_le hbefore]
    simp [windowOf, Except.map]
  · rw [if_neg hbefore]
    simp [windowOf, upTo_concat_of_not_le (Bool.eq_false_iff.mpr hbefore)]

/-- An entry is added when it fits a page, and refused when it does not. -/
theorem addEntry_eq_ok :
    addEntry target (windowOf target items) entry = .ok w ↔
      ItemFits entry ∧ w = windowOf target (items ++ [entry]) := by
  by_cases hfit : ItemFits entry
  · rw [addEntry_windowOf hfit, Except.ok.injEq]
    exact ⟨fun e => ⟨hfit, e.symm⟩, fun e => e.2.symm⟩
  · obtain ⟨e, he⟩ : ∃ e, addEntry target (windowOf target items) entry = .error e :=
      addEntry_of_not_fits hfit
    rw [he]
    exact ⟨nofun, fun h => absurd h.1 hfit⟩

end Entry

theorem addEntries_eq_ok {target : Option Nat} {entries items : List Value} {w : Window} :
    loopM entries (windowOf target items) (addEntry target) = .ok w ↔
      (∀ entry ∈ entries, ItemFits entry) ∧ w = windowOf target (items ++ entries) := by
  induction entries generalizing items with
  | nil => simp [pure, Except.pure, eq_comm]
  | cons entry entries ih =>
      simp only [loopM, List.foldlM_cons, bind_eq_ok, addEntry_eq_ok] at ih ⊢
      constructor
      · rintro ⟨_, ⟨hfit, rfl⟩, h⟩
        obtain ⟨hfits, rfl⟩ := ih.mp h
        exact ⟨List.forall_mem_cons.mpr ⟨hfit, hfits⟩, by simp⟩
      · rintro ⟨hfits, rfl⟩
        obtain ⟨hfit, hfits⟩ := List.forall_mem_cons.mp hfits
        exact ⟨_, ⟨hfit, rfl⟩, ih.mpr ⟨hfits, by simp⟩⟩

/-! ### One read -/

/-- The bytes that are digested of a list of items. -/
def encodedItems (items : List Value) : Bytes := utf8 (Value.array items).toText

/-- The source a read is of. -/
def View.source (view : View) (state : Cursor) : Bytes := view.scanned.take state.snapshot

section Read

variable (hash : Bytes → String) (parse : Bytes → Except String Value)
  (decode : String → Except String Channel.Operation) (charge : Value → Except String Nat)

/-- Project every record. -/
def projectAll (file : Bytes) (ordered : List Value) (projector : Projector) :
    Except String (List Value × Projector) :=
  loopM ordered ([], projector) fun state metadata => do
    let (entries, projector) ← projectRecord hash parse decode file state.2 metadata
    return (state.1 ++ entries, projector)

/-- The items of a whole history. -/
def projection (view : View) (state : Cursor) : Except String (List Value) := do
  let (metadata, _) ← scanSource hash parse charge view.scanned state.snapshot state.id
  let ordered ← reconstruct metadata state.id
  let proofs ← HistoricalSnapshot.open view.journal state.id
  let projector ← preparePreservedFetches hash parse decode view.reread (sourceCallsOf metadata)
    ordered ⟨proofs, ∅, ∅⟩
  return (← projectAll hash parse decode view.reread ordered projector).1

/-- Where a read of `items` ends. -/
def EndsAt (state : Cursor) (initial : Bool) (items : List Value) (n : Nat) : Prop :=
  if initial then n = items.length else state.claudeBefore = some n ∧ n ≤ items.length

/-- A read that succeeds: what it checked, and the page and the cursor that follow from it. -/
structure PageRead (view : View) (state : Cursor) (initial : Bool)
    (items page : List Value) (more : Bool) (next : Cursor) : Prop where
  projected : projection hash parse decode charge view state = .ok items
  fits : ∀ entry ∈ items, ItemFits entry
  source : initial = true ∨ state.claudeSourceHash = some (hash (view.source state))
  canonical : initial = true ∨ state.claudeItemsHash = some (hash (encodedItems items))
  verified : sourceDigest hash view.verified state.snapshot = .ok (hash (view.source state))
  window : ∃ n, EndsAt state initial items n ∧ page = lastFit PageFits (items.take n) ∧
    more = decide (0 < n - page.length) ∧
    next = { state with
      claudeBefore := some (n - page.length)
      claudeItemsHash := some (hash (encodedItems items))
      claudeSourceHash := some (hash (view.source state)) }

variable {hash parse decode charge}

/-- Projecting more records only adds items. -/
theorem projectAll_extends {file : Bytes} {ordered items all : List Value} {projector p : Projector}
    (h : (loopM ordered (items, projector) fun state metadata => do
        let (entries, projector) ← projectRecord hash parse decode file state.2 metadata
        return (state.1 ++ entries, projector)) = .ok (all, p)) : items <+: all := by
  refine foldlM_invariant (fun state => items <+: state.1) h (List.prefix_refl items) ?_
  intro metadata _ state state' hstep hprefix
  obtain ⟨⟨entries, q⟩, -, hstep⟩ := bind_eq_ok.mp hstep
  obtain rfl := pure_eq_ok.mp hstep
  exact hprefix.trans (List.prefix_append _ entries)

theorem projectWindow_loop {file : Bytes} {ordered items : List Value} {projector p : Projector}
    {target : Option Nat} {w : Window} (hitems : ∀ entry ∈ items, ItemFits entry) :
    (loopM ordered (windowOf target items, projector) fun state metadata => do
        let (entries, projector) ← projectRecord hash parse decode file state.2 metadata
        return (← loopM entries state.1 (addEntry target), projector)) = .ok (w, p) ↔
      ∃ all, (loopM ordered (items, projector) fun state metadata => do
          let (entries, projector) ← projectRecord hash parse decode file state.2 metadata
          return (state.1 ++ entries, projector)) = .ok (all, p) ∧
        (∀ entry ∈ all, ItemFits entry) ∧ w = windowOf target all := by
  induction ordered generalizing items projector with
  | nil =>
      simp only [loopM, List.foldlM_nil, pure_eq_ok, Prod.mk.injEq]
      constructor
      · rintro ⟨rfl, rfl⟩
        exact ⟨items, ⟨rfl, rfl⟩, hitems, rfl⟩
      · rintro ⟨_, ⟨rfl, rfl⟩, -, rfl⟩
        exact ⟨rfl, rfl⟩
  | cons metadata ordered ih =>
      simp only [loopM, List.foldlM_cons, bind_eq_ok, pure_eq_ok] at ih ⊢
      constructor
      · rintro ⟨_, ⟨⟨entries, q⟩, hrecord, _, hadd, rfl⟩, hrest⟩
        obtain ⟨hfits, rfl⟩ := addEntries_eq_ok.mp hadd
        obtain ⟨all, hall, hspec⟩ := (ih (List.forall_mem_append.mpr ⟨hitems, hfits⟩)).mp hrest
        exact ⟨all, ⟨_, ⟨_, hrecord, rfl⟩, hall⟩, hspec⟩
      · rintro ⟨all, ⟨_, ⟨⟨entries, q⟩, hrecord, rfl⟩, hall⟩, hfits, rfl⟩
        -- The entries of this record are among all items, which fit.
        have hmore : ∀ entry ∈ items ++ entries, ItemFits entry := fun entry hentry =>
          hfits entry ((projectAll_extends hall).subset hentry)
        have hentries := (List.forall_mem_append.mp hmore).2
        refine ⟨_, ⟨_, hrecord, _, addEntries_eq_ok.mpr ⟨hentries, rfl⟩, rfl⟩, ?_⟩
        exact (ih hmore).mpr ⟨all, hall, hfits, rfl⟩

theorem windowOf_nil (target : Option Nat) : windowOf target [] = {} := by
  rw [windowOf, upTo, List.take_nil]
  rfl

/-- The second pass keeps the last items before the target that fit a page, out of all of them. -/
theorem projectWindow_eq_ok {file : Bytes} {ordered page : List Value} {projector : Projector}
    {target : Option Nat} {count : Nat} {canonical : String} :
    projectWindow hash parse decode file ordered projector target = .ok (page, count, canonical) ↔
      ∃ items p, projectAll hash parse decode file ordered projector = .ok (items, p) ∧
        (∀ entry ∈ items, ItemFits entry) ∧ page = lastFit PageFits (upTo target items) ∧
        count = items.length ∧ canonical = hash (encodedItems items) := by
  have hloop (w : Window) (p : Projector) :=
    @projectWindow_loop hash parse decode file ordered [] projector p target w (by simp)
  have hpage (items : List Value) : (windowOf target items).page.map (·.1) =
      lastFit PageFits (upTo target items) := by
    simp [windowOf, sized, List.map_map, Function.comp_def]
  have hdigest (items : List Value) : utf8 (String.ofList ((windowOf target items).digested ++
      [']'])) = encodedItems items := by
    rw [encodedItems, Value.toText, Value.chars, Value.charsItems_eq]
    rfl
  simp only [windowOf_nil] at hloop
  simp only [projectWindow, projectAll, bind_eq_ok, pure_eq_ok, Prod.mk.injEq] at hloop ⊢
  constructor
  · rintro ⟨⟨w, p⟩, hw, rfl, rfl, rfl⟩
    obtain ⟨items, hall, hfits, rfl⟩ := (hloop w p).mp hw
    exact ⟨items, p, hall, hfits, hpage items, rfl, by rw [hdigest]⟩
  · rintro ⟨items, p, hall, hfits, rfl, rfl, rfl⟩
    exact ⟨⟨_, p⟩, (hloop _ p).mpr ⟨items, hall, hfits, rfl⟩, hpage items, rfl, by rw [hdigest]⟩

section Page

variable {view : View} {state next : Cursor} {initial more : Bool} {items p : List Value}

theorem scanSource_hash {metadata : List Value} {sourceHash : String}
    (h : scanSource hash parse charge view.scanned state.snapshot state.id =
      .ok (metadata, sourceHash)) : sourceHash = hash (view.source state) := by
  obtain ⟨_, -, h⟩ := bind_eq_ok.mp h
  exact (congrArg Prod.snd (pure_eq_ok.mp h)).symm

theorem checkFrozenHash_eq_ok {expected : Option String} {actual reason : String} {u : Unit} :
    checkFrozenHash initial expected actual reason = .ok u ↔
      (initial = true ∨ expected = some actual) := by
  simp [checkFrozenHash]

/-- The target of a read, and the bound it is checked against, say where the read ends. -/
theorem endsAt_iff {n : Nat} :
    EndsAt state initial items n ↔ ∃ target, targetOf state initial = .ok target ∧
      target.all (· ≤ items.length) = true ∧ n = target.getD items.length := by
  cases initial with
  | true => simp [EndsAt, targetOf]
  | false =>
      simp only [EndsAt, targetOf, Bool.false_eq_true, if_false, bind_eq_ok, context_eq_ok,
        pure_eq_ok]
      constructor
      · rintro ⟨hbefore, hle⟩
        exact ⟨some n, ⟨n, hbefore, rfl⟩, by simpa using hle, rfl⟩
      · rintro ⟨_, ⟨k, hbefore, rfl⟩, hle, rfl⟩
        exact ⟨hbefore, by simpa using hle⟩

theorem page_eq_ok :
    page hash parse decode charge view state initial = .ok (p, more, next) ↔
      ∃ items, PageRead hash parse decode charge view state initial items p more next := by
  simp only [page, bind_eq_ok, checkFrozenHash_eq_ok, ensure_eq_ok, pure_eq_ok, Prod.mk.injEq,
    decide_eq_true_eq]
  constructor
  · rintro ⟨⟨metadata, sourceHash⟩, hscan, _, hsource, ordered, hordered, proofs, hproofs, projector,
      hprojector, target, htarget, ⟨page, count, canonical⟩, hwindow, _, hcanonical, _, hle, digest,
      hverified, _, rfl, rfl, rfl, rfl⟩
    obtain ⟨items, q, hall, hfits, rfl, rfl, rfl⟩ := projectWindow_eq_ok.mp hwindow
    obtain rfl := scanSource_hash hscan
    refine ⟨items, ?_, hfits, hsource, hcanonical, hverified, target.getD items.length,
      endsAt_iff.mpr ⟨target, htarget, hle, rfl⟩, rfl, rfl, rfl⟩
    simp only [projection, bind_eq_ok, pure_eq_ok]
    exact ⟨_, hscan, ordered, hordered, proofs, hproofs, projector, hprojector, _, hall, rfl⟩
  · rintro ⟨items, hread⟩
    have hprojected := hread.projected
    simp only [projection, bind_eq_ok, pure_eq_ok] at hprojected
    obtain ⟨⟨metadata, sourceHash⟩, hscan, ordered, hordered, proofs, hproofs, projector, hprojector,
      ⟨_, q⟩, hall, rfl⟩ := hprojected
    obtain rfl := scanSource_hash hscan
    obtain ⟨n, hends, rfl, rfl, rfl⟩ := hread.window
    obtain ⟨target, htarget, hle, rfl⟩ := endsAt_iff.mp hends
    exact ⟨_, hscan, (), hread.source, ordered, hordered, proofs, hproofs, projector, hprojector,
      target, htarget, _, projectWindow_eq_ok.mpr ⟨_, q, hall, hread.fits, rfl, rfl, rfl⟩, (),
      hread.canonical, (), hle, _, hread.verified, (), rfl, rfl, rfl, rfl⟩

end Page

/-! ### Items are told apart by their digest -/

/-- Two different texts with one digest. -/
def Collision (hash : Bytes → String) (a b : Bytes) : Prop := a ≠ b ∧ hash a = hash b

theorem eq_or_collision {a b : Bytes} (h : hash a = hash b) : a = b ∨ Collision hash a b := by
  by_cases e : a = b
  · exact .inl e
  · exact .inr ⟨e, h⟩

theorem itemValue_prefixFree :
    PrefixFree fun i : String × Bool × String => (itemValue i.1 i.2.1 i.2.2).chars := by
  rintro ⟨id, user, text⟩ ⟨id', user', text'⟩ x y h
  simp only [itemValue, Value.chars, Value.charsFields, commaSep, List.cons_append,
    List.append_assoc, List.cons.injEq, List.append_cancel_left_eq, true_and] at h
  obtain ⟨rfl, h⟩ := quoted_prefixFree _ _ _ _ h
  simp only [List.cons.injEq, List.append_cancel_left_eq, true_and] at h
  obtain ⟨rfl, h⟩ := quoted_prefixFree _ _ _ _ h
  simp only [List.cons.injEq, List.append_cancel_left_eq, true_and] at h
  obtain ⟨huser, h⟩ := quoted_prefixFree _ _ _ _ h
  obtain rfl : user = user' := by
    cases user <;> cases user' <;> simp at huser ⊢
  exact ⟨rfl, by simpa using h⟩

theorem encodedItems_inj {xs ys : List Value} (hxs : ∀ v ∈ xs, IsItem v) (hys : ∀ v ∈ ys, IsItem v)
    (h : encodedItems xs = encodedItems ys) : xs = ys := by
  have lift {l : List Value} (hl : ∀ v ∈ l, IsItem v) :
      ∃ is : List (String × Bool × String), is.map (fun i => itemValue i.1 i.2.1 i.2.2) = l := by
    have hrange : l ∈ Set.range
        (List.map fun i : String × Bool × String => itemValue i.1 i.2.1 i.2.2) := by
      rw [Set.range_list_map]
      intro v hv
      obtain ⟨id, user, text, rfl⟩ := hl v hv
      exact ⟨(id, user, text), rfl⟩
    exact hrange
  obtain ⟨is, rfl⟩ := lift hxs
  obtain ⟨js, rfl⟩ := lift hys
  have htext := String.ofList_injective (utf8_injective h)
  rw [Value.chars, Value.chars, Value.charsItems_eq, Value.charsItems_eq, List.map_map,
    List.map_map] at htext
  refine congrArg _ (commaSep_inj itemValue_prefixFree ?_ (List.cons.inj htext).2)
  intro i x y hb
  exact absurd (List.cons.inj hb).1 (by decide)

theorem projection_items {view : View} {state : Cursor} {items : List Value}
    (h : projection hash parse decode charge view state = .ok items) : ∀ v ∈ items, IsItem v := by
  simp only [projection, bind_eq_ok, pure_eq_ok] at h
  obtain ⟨_, -, _, -, _, -, _, -, ⟨_, _⟩, hall, rfl⟩ := h
  refine foldlM_invariant (fun state => ∀ v ∈ state.1, IsItem v) hall (by simp) ?_
  intro metadata _ state state' hstep hs
  obtain ⟨⟨entries, q⟩, hrecord, hstep⟩ := bind_eq_ok.mp hstep
  obtain ⟨record, -, hentries⟩ := bind_eq_ok.mp hrecord
  obtain rfl := pure_eq_ok.mp hstep
  exact List.forall_mem_append.mpr ⟨hs, Projector.entries_items hentries⟩

theorem projection_congr {view : View} {state cursor : Cursor} (hid : state.id = cursor.id)
    (hs : state.snapshot = cursor.snapshot) :
    projection hash parse decode charge view state =
      projection hash parse decode charge view cursor := by
  rw [projection, projection, hid, hs]

/-! ### The walk -/

section Walk

variable (hash parse decode charge)

/-- Reads that follow the cursor, each of its own view of the file, until `n` have succeeded: the
pages, last read first, whether more is reported, and the cursor. -/
inductive Reads (views : Nat → View) (cursor : Cursor) :
    Nat → List (List Value) → Bool → Cursor → Prop
  | first {p more next} (h : page hash parse decode charge (views 0) cursor true =
      .ok (p, more, next)) : Reads views cursor 1 [p] more next
  | older {n pages state p more next} (h : Reads views cursor n pages true state)
      (hpage : page hash parse decode charge (views n) state false = .ok (p, more, next)) :
      Reads views cursor (n + 1) (p :: pages) more next

/-- Every read sees one source and one sequence of items. -/
structure Frozen (views : Nat → View) (cursor : Cursor) (source : Bytes) (items : List Value) :
    Prop where
  length : source.length = cursor.snapshot
  scanned : ∀ n, (views n).source cursor = source
  verified : ∀ n, (views n).verified.take cursor.snapshot = source
  projected : ∀ n, projection hash parse decode charge (views n) cursor = .ok items

/-- The view is the one the cursor was made from, as far as the digests tell. -/
def Agrees (view : View) (cursor state : Cursor) : Prop :=
  state.claudeSourceHash = some (hash (view.source cursor)) ∧
    ∃ items, projection hash parse decode charge view cursor = .ok items ∧
      state.claudeItemsHash = some (hash (encodedItems items))

variable {hash parse decode charge}
variable {views : Nat → View} {cursor state : Cursor} {source : Bytes} {items : List Value}
  {n : Nat} {pages : List (List Value)} {more : Bool}

/-- What the cursor keeps through a walk, and what all its reads agree on. -/
theorem reads_agree (h : Reads hash parse decode charge views cursor n pages more state) :
    (state.id = cursor.id ∧ state.snapshot = cursor.snapshot) ∧
      ∀ i < n, Agrees hash parse decode charge (views i) cursor state := by
  induction h with
  | first h =>
      obtain ⟨items, hread⟩ := page_eq_ok.mp h
      obtain ⟨k, -, -, -, rfl⟩ := hread.window
      refine ⟨⟨rfl, rfl⟩, fun i hi => ?_⟩
      obtain rfl : i = 0 := by omega
      exact ⟨rfl, items, hread.projected, rfl⟩
  | @older n pages state p more next _ hpage ih =>
      obtain ⟨⟨hid, hs⟩, hagree⟩ := ih
      obtain ⟨items, hread⟩ := page_eq_ok.mp hpage
      obtain ⟨k, -, -, -, rfl⟩ := hread.window
      -- The read checked both digests against those it writes into its cursor.
      have hsource : state.claudeSourceHash = some (hash ((views n).source state)) := by
        simpa using hread.source
      have hitems : state.claudeItemsHash = some (hash (encodedItems items)) := by
        simpa using hread.canonical
      refine ⟨⟨hid, hs⟩, fun i hi => ?_⟩
      by_cases hin : i < n
      · obtain ⟨hsource', items', hprojected, hitems'⟩ := hagree i hin
        exact ⟨hsource.symm.trans hsource', items', hprojected, hitems.symm.trans hitems'⟩
      · obtain rfl : i = n := by omega
        refine ⟨?_, items, ?_, rfl⟩
        · rw [View.source, View.source, hs]
        · rw [← hread.projected]
          exact (projection_congr hid hs).symm

/-- The cursor of a frozen walk whose pages begin at the item `start`. -/
def Cursor.at (hash : Bytes → String) (cursor : Cursor) (source : Bytes) (items : List Value)
    (start : Nat) : Cursor :=
  { cursor with
    claudeBefore := some start
    claudeItemsHash := some (hash (encodedItems items))
    claudeSourceHash := some (hash source) }

/-- A page that ends after the first item has one. -/
theorem lastFit_take_ne_nil (fits : ∀ entry ∈ items, ItemFits entry) (hn : 0 < n)
    (hle : n ≤ items.length) : lastFit PageFits (items.take n) ≠ [] := by
  have hlt : n - 1 < items.length := by omega
  have htake : items.take n = items.take (n - 1) ++ [items[n - 1]] := by
    rw [List.take_append_getElem]
    congr 1
    omega
  rw [htake]
  exact lastFit_ne_nil (PageFits.singleton (fits _ (List.getElem_mem hlt)))

/-- What the pages of a frozen walk are: all items from `start` on, within their bounds. -/
structure Paged (hash : Bytes → String) (cursor : Cursor) (source : Bytes) (items : List Value)
    (pages : List (List Value)) (more : Bool) (state : Cursor) (start : Nat) : Prop where
  cursor_eq : state = cursor.at hash source items start
  le : start ≤ items.length
  more_eq : more = decide (0 < start)
  split : items.take start ++ pages.flatten = items
  fits : ∀ p ∈ pages, PageFits p
  nonempty : items ≠ [] → ∀ p ∈ pages, p ≠ []

/-- A page before the item `n` extends the pages from `n` on. -/
theorem Paged.older {l p : List Value}
    (fits : ∀ entry ∈ items, ItemFits entry) (hle : n ≤ items.length)
    (hpos : items ≠ [] → 0 < n) (hrest : items.take n ++ l = items)
    (hp : p = lastFit PageFits (items.take n)) :
    n - p.length ≤ items.length ∧ items.take (n - p.length) ++ (p ++ l) = items ∧
      PageFits p ∧ (items ≠ [] → p ≠ []) := by
  have hsplit : _ ++ lastFit PageFits (items.take n) = _ := take_lastFit (items.take n)
  rw [← hp, List.length_take, Nat.min_eq_left hle, List.take_take] at hsplit
  rw [Nat.min_eq_left (Nat.sub_le n p.length)] at hsplit
  refine ⟨by omega, ?_, hp ▸ fits_lastFit pageFits_monotone _, fun hne => ?_⟩
  · rw [← List.append_assoc, hsplit, hrest]
  · exact hp ▸ lastFit_take_ne_nil fits (hpos hne) hle

theorem reads_paged (frozen : Frozen hash parse decode charge views cursor source items)
    (h : Reads hash parse decode charge views cursor n pages more state) :
    ∃ start, Paged hash cursor source items pages more state start := by
  induction h with
  | first h =>
      obtain ⟨_, hread⟩ := page_eq_ok.mp h
      obtain rfl := Except.ok.inj ((frozen.projected 0).symm.trans hread.projected)
      obtain ⟨k, hends, hp, hmore, rfl⟩ := hread.window
      obtain rfl : k = _ := hends
      obtain ⟨hle, hitems, hfits, hne⟩ := Paged.older hread.fits le_rfl
        (fun hne => List.length_pos_iff.mpr hne) (l := []) (by simp) hp
      exact ⟨_, by rw [frozen.scanned 0]; rfl, hle, hmore, by simpa using hitems,
        by simpa using hfits, by simpa using hne⟩
  | @older n pages state p more next _ hpage ih =>
      obtain ⟨start, hpaged⟩ := ih
      obtain rfl := hpaged.cursor_eq
      obtain ⟨_, hread⟩ := page_eq_ok.mp hpage
      obtain rfl := Except.ok.inj ((frozen.projected n).symm.trans hread.projected)
      obtain ⟨k, hends, hp, hmore, rfl⟩ := hread.window
      obtain ⟨hk, -⟩ : some start = some k ∧ k ≤ items.length := hends
      cases hk
      have hpos : 0 < start := by simpa using hpaged.more_eq.symm
      obtain ⟨hle, hitems, hfits, hne⟩ := Paged.older hread.fits hpaged.le (fun _ => hpos)
        hpaged.split hp
      refine ⟨_, ?_, hle, hmore, hitems, List.forall_mem_cons.mpr ⟨hfits, hpaged.fits⟩,
        fun hitems => List.forall_mem_cons.mpr ⟨hne hitems, hpaged.nonempty hitems⟩⟩
      have hsource : (views n).source (cursor.at hash source items start) = source :=
        frozen.scanned n
      rw [hsource]
      rfl

/-- A frozen history has a page before any item. -/
theorem exists_page (n : Nat) (initial : Bool) (state : Cursor)
    (frozen : Frozen hash parse decode charge views cursor source items)
    (fits : ∀ entry ∈ items, ItemFits entry)
    (hid : state.id = cursor.id) (hs : state.snapshot = cursor.snapshot)
    (hstate : initial = true ∨ ∃ start ≤ items.length, state = cursor.at hash source items start) :
    ∃ p more next, page hash parse decode charge (views n) state initial = .ok (p, more, next) := by
  have hsource : (views n).source state = source := by
    rw [View.source, hs]
    exact frozen.scanned n
  obtain ⟨k, hends⟩ : ∃ k, EndsAt state initial items k := by
    rcases hstate with rfl | ⟨start, hle, rfl⟩
    · exact ⟨_, rfl⟩
    · cases initial
      · exact ⟨start, rfl, hle⟩
      · exact ⟨_, rfl⟩
  refine ⟨_, _, _, page_eq_ok.mpr ⟨items, ?_, fits, ?_, ?_, ?_, k, hends, rfl, rfl, rfl⟩⟩
  · rw [projection_congr hid hs, frozen.projected n]
  · refine hstate.imp id ?_
    rintro ⟨start, -, rfl⟩
    rw [hsource]
    rfl
  · refine hstate.imp id ?_
    rintro ⟨start, -, rfl⟩
    rfl
  · simp only [sourceDigest, hs, frozen.verified n, frozen.length, hsource]
    rfl

/-- From any read on, the walk comes to its end. -/
theorem exists_last_read (frozen : Frozen hash parse decode charge views cursor source items)
    (fits : ∀ entry ∈ items, ItemFits entry) {start : Nat}
    (h : Reads hash parse decode charge views cursor n pages more state)
    (hw : Paged hash cursor source items pages more state start) :
    ∃ n pages state, Reads hash parse decode charge views cursor n pages false state := by
  induction start using Nat.strong_induction_on generalizing n pages more state with
  | _ start ih =>
      by_cases hpos : 0 < start
      · obtain rfl : more = true := by simpa [hpos] using hw.more_eq
        obtain rfl := hw.cursor_eq
        obtain ⟨p, more, next, hpage⟩ := exists_page n false (cursor.at hash source items start)
          frozen fits rfl rfl (.inr ⟨start, hw.le, rfl⟩)
        have hread := Reads.older h hpage
        obtain ⟨start', hw'⟩ := reads_paged frozen hread
        refine ih start' ?_ hread hw'
        -- The page is not empty, so it begins before the pages that were read.
        have hne : items ≠ [] := List.length_pos_iff.mp (Nat.lt_of_lt_of_le hpos hw.le)
        have hp := List.length_pos_iff.mpr (hw'.nonempty hne p (by simp))
        have hlen := congrArg List.length (hw.split.trans hw'.split.symm)
        simp only [List.length_append, List.length_take, List.flatten_cons,
          Nat.min_eq_left hw.le, Nat.min_eq_left hw'.le] at hlen
        omega
      · obtain rfl : more = false := by simpa [hpos] using hw.more_eq
        exact ⟨n, pages, state, h⟩

/-- Claude history pages partition the frozen history.  The walk comes to its end; its pages are
within their bounds and not empty unless there is nothing to show; put together from the last read
to the first they are exactly the items.  Reads of changed views only succeed as long as source and
items stay what they were, or a digest collides. -/
theorem pages_partition (frozen : Frozen hash parse decode charge views cursor source items)
    (fits : ∀ entry ∈ items, ItemFits entry) :
    (∃ n pages state, Reads hash parse decode charge views cursor n pages false state) ∧
    (∀ n pages more state, Reads hash parse decode charge views cursor n pages more state →
      (∀ p ∈ pages, p.length ≤ pageItems ∧ pageSize p ≤ claudePageBytes ∧
        (items ≠ [] → p ≠ [])) ∧
      (more = false → pages.flatten = items)) ∧
    ∀ views' n pages more state, Reads hash parse decode charge views' cursor n pages more state →
      ∀ i < n, ∀ j < n, ∃ before after,
        projection hash parse decode charge (views' i) cursor = .ok before ∧
        projection hash parse decode charge (views' j) cursor = .ok after ∧
        (before = after ∨ Collision hash (encodedItems before) (encodedItems after)) ∧
        ((views' i).source cursor = (views' j).source cursor ∨
          Collision hash ((views' i).source cursor) ((views' j).source cursor)) := by
  refine ⟨?_, ?_, ?_⟩
  · obtain ⟨p, more, next, hpage⟩ := exists_page 0 true cursor frozen fits rfl rfl (.inl rfl)
    obtain ⟨start, hw⟩ := reads_paged frozen (.first hpage)
    exact exists_last_read frozen fits (.first hpage) hw
  · intro n pages more state h
    obtain ⟨start, hw⟩ := reads_paged frozen h
    refine ⟨fun p hp => ⟨(hw.fits p hp).1, (hw.fits p hp).2, fun hne => hw.nonempty hne p hp⟩, ?_⟩
    intro hmore
    have hstart : start = 0 := by simpa [hmore] using hw.more_eq
    simpa [hstart] using hw.split
  · intro views' n pages more state h i hi j hj
    obtain ⟨hsource, before, hbefore, hitems⟩ := (reads_agree h).2 i hi
    obtain ⟨hsource', after, hafter, hitems'⟩ := (reads_agree h).2 j hj
    refine ⟨before, after, hbefore, hafter, ?_,
      eq_or_collision (Option.some.inj (hsource.symm.trans hsource'))⟩
    refine (eq_or_collision (Option.some.inj (hitems.symm.trans hitems'))).imp_left fun e => ?_
    exact encodedItems_inj (projection_items hbefore) (projection_items hafter) e

end Walk

end Read

/-! ### A history of one message -/

section OneMessage

/-- The line of one message. -/
def messageLine : Bytes := utf8
  "\x7b\"type\":\"user\",\"uuid\":\"u1\",\"parentUuid\":null,\"sessionId\":\"aaaaaaaa-aaaa-4aaa-8aaa-aaaaaaaaaaaa\",\"message\":\x7b\"role\":\"user\",\"content\":\"hi\"\x7d\x7d\n"

def messageTree : Value :=
  .object [("type", .string "user"), ("uuid", .string "u1"), ("parentUuid", .null),
    ("sessionId", .string "aaaaaaaa-aaaa-4aaa-8aaa-aaaaaaaaaaaa"),
    ("message", .object [("role", .string "user"), ("content", .string "hi")])]

def messageItems : String := "[\x7b\"id\":\"u1\",\"text\":\"hi\",\"type\":\"userMessage\"\x7d]"

/-- SHA-256 of the line and of its items. -/
def messageHash (bytes : Bytes) : String :=
  if bytes = messageLine then "4f9268531efbefbd2b0ce3bf8f3da94fbe2c983d00b9b3f5fa201c3ead71fa1c"
  else if bytes = utf8 messageItems then
    "2ce2f0b52aa58f1e08a5ff0c59247e58b93f144e7f804ab7c32411352c5eaed7"
  else ""

def messageParse (bytes : Bytes) : Except String Value :=
  if bytes = messageLine then .ok messageTree else .error "EOF while parsing a value"

def messageView : View := ⟨messageLine, messageLine, messageLine, none⟩

def messageCursor : Cursor := ⟨"aaaaaaaa-aaaa-4aaa-8aaa-aaaaaaaaaaaa", 138, none, none, none⟩

/-- The journal has no rows to decode. -/
def noRows (_ : String) : Except String Channel.Operation := .error "invalid type"

theorem message_projection :
    ∃ items, projection messageHash messageParse noRows metadataCharge messageView messageCursor =
        .ok items ∧ (Value.array items).toText = messageItems ∧
      ∀ entry ∈ items, ItemFits entry := by
  have h : (match projection messageHash messageParse noRows metadataCharge messageView
      messageCursor with
    | .ok items => decide ((Value.array items).toText = messageItems) &&
        items.all fun entry => decide (encodedLength entry + 1 + 2 ≤ claudePageBytes)
    | .error _ => false) = true := by decide +kernel
  split at h
  case h_1 items hitems =>
    refine ⟨items, hitems, ?_⟩
    simpa [ItemFits] using h
  case h_2 => cases h

theorem pages_partition_oneMessage :
    ∃ n pages state, Reads messageHash messageParse noRows metadataCharge (fun _ => messageView)
        messageCursor n pages false state ∧
      (Value.array pages.flatten).toText = messageItems := by
  obtain ⟨items, hitems, htext, hfits⟩ := message_projection
  have frozen : Frozen messageHash messageParse noRows metadataCharge (fun _ => messageView)
      messageCursor messageLine items :=
    ⟨by decide +kernel, fun _ => by decide +kernel, fun _ => by decide +kernel, fun _ => hitems⟩
  have hpages := pages_partition frozen hfits
  obtain ⟨n, pages, state, hreads⟩ := hpages.1
  refine ⟨n, pages, state, hreads, ?_⟩
  rw [(hpages.2.1 n pages false state hreads).2 rfl, htext]

end OneMessage

end Pikamux.Claude
