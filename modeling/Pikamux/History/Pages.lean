import Mathlib.Data.List.Induction
import Pikamux.History.Items

/-!
# History — Pages

`jsonl_page` in `mobile_history.rs`: a history of lines, page by page from its end.

A page reads a window of 4 MiB that ends where the page before it has begun, and takes lines from
its end until it has 40 items.  The first line of a window that does not begin the file may be cut,
so it is left to the next page, even when it is not.  What follows the last newline of the file is
not read.

* `jsonlPage_spec` — a page takes the last lines that are left, at least one of them.
* `pages_partition_lines` — the pages are what one pass backwards over the lines shows.
-/

namespace Pikamux.History

open Std Support Json

def window : Nat := 4 * 1024 * 1024
def pageSize : Nat := 40
def newline : UInt8 := 10

/-- The fields of the cursor that reading lines uses. -/
structure Cursor where
  provider : Provider
  id : String
  before : Nat
  displayedRuns : Runs := ∅

/-- Lines with the places where they begin. -/
def placed : Nat → List Bytes → List (Nat × Bytes)
  | _, [] => []
  | offset, line :: lines => (offset, line) :: placed (offset + line.length + 1) lines

section Page

variable (fromSlice : Bytes → Option Value)

/-- What a line shows. -/
def recordItem (provider : Provider) (id : String) (displayedRuns : Runs) (line : Bytes) :
    Except String (Option Value × Runs) := do
  ensure (line.length ≤ Claude.recordBytes) "Provider record exceeds history bounds"
  if line = [] then return (none, displayedRuns)
  else
    let value ← context "Malformed durable history record" (fromSlice line)
    pageItem value provider id displayedRuns

/-- Take lines, the last one first, until the page is full. -/
def readBack : List (Nat × Bytes) → Cursor → List Value → Except String (List Value × Cursor)
  | [], state, items => .ok (items, state)
  | (offset, line) :: older, state, items => do
      let (entry, displayedRuns) ← recordItem fromSlice state.provider state.id state.displayedRuns line
      let state := { state with before := offset, displayedRuns }
      let items := items ++ entry.toList
      if line ≠ [] ∧ pageSize ≤ items.length then return (items, state)
      else readBack older state items

/-- `jsonl_page`: the items of the page in the order of the file, whether there is more, and the
cursor. -/
def jsonlPage (file : Bytes) (state : Cursor) : Except String (List Value × Bool × Cursor) := do
  let start := state.before - window
  ensure (state.before ≤ file.length) "failed to fill whole buffer"
  let bytes := (file.take state.before).drop start
  let first :=
    if 0 < start then ((bytes.findIdx? (· = newline)).map (· + 1)).getD bytes.length else 0
  ensure (first < bytes.length || start = 0) "History record exceeds read window"
  let positions := placed (start + first) (complete newline (bytes.drop first))
  let (items, state) ← readBack fromSlice positions.reverse
    { state with before := start + first } []
  return (items.reverse, 0 < state.before, state)

/-- One pass over lines, the last one first. -/
def backwards (provider : Provider) (id : String) :
    List Bytes → Runs → Except String (List Value × Runs)
  | [], displayedRuns => .ok ([], displayedRuns)
  | line :: older, displayedRuns => do
      let (entry, displayedRuns) ← recordItem fromSlice provider id displayedRuns line
      let (items, displayedRuns) ← backwards provider id older displayedRuns
      return (entry.toList ++ items, displayedRuns)

end Page

/-! ### Places -/

section Places

variable {offset : Nat} {line : Bytes} {lines : List Bytes}

theorem placed_append (offset : Nat) (lines : List Bytes) (line : Bytes) :
    placed offset (lines ++ [line]) =
      placed offset lines ++ [(offset + (joined newline lines).length, line)] := by
  induction lines generalizing offset with
  | nil => simp [placed]
  | cons first lines ih =>
      rw [List.cons_append, placed, placed, ih, joined_cons, List.length_append, List.length_cons,
        List.cons_append]
      have hplace : offset + first.length + 1 + (joined newline lines).length =
          offset + (first.length + ((joined newline lines).length + 1)) := by omega
      rw [hplace]

end Places

/-! ### Reading back -/

section ReadBack

variable {fromSlice : Bytes → Option Value} {provider : Provider} {id : String}
  {lines newer older : List Bytes} {state : Cursor} {runs runs' : Runs} {all items : List Value}

theorem backwards_cons {line : Bytes} {entry : Option Value}
    (hentry : recordItem fromSlice provider id runs line = .ok (entry, runs'))
    {last : Runs} (hrest : backwards fromSlice provider id older runs' = .ok (items, last)) :
    backwards fromSlice provider id (line :: older) runs = .ok (entry.toList ++ items, last) := by
  simp only [backwards, hentry, ok_bind, hrest]
  rfl

theorem backwards_append (h : backwards fromSlice provider id (newer ++ older) runs =
      .ok (all, runs')) :
    ∃ first mid last, backwards fromSlice provider id newer runs = .ok (first, mid) ∧
      backwards fromSlice provider id older mid = .ok (last, runs') ∧ all = first ++ last := by
  induction newer generalizing runs all with
  | nil => exact ⟨[], runs, all, rfl, h, rfl⟩
  | cons line newer ih =>
      rw [List.cons_append, backwards] at h
      obtain ⟨⟨entry, next⟩, hentry, h⟩ := bind_eq_ok.mp h
      obtain ⟨⟨rest, last⟩, hrest, h⟩ := bind_eq_ok.mp h
      cases h
      obtain ⟨first, mid, later, hfirst, hlater, rfl⟩ := ih hrest
      exact ⟨entry.toList ++ first, mid, later, backwards_cons hentry hfirst, hlater,
        (List.append_assoc _ _ _).symm⟩

theorem recordItem_nil {entry : Option Value}
    (h : recordItem fromSlice provider id runs [] = .ok (entry, runs')) : entry = none := by
  rw [recordItem] at h
  obtain ⟨_, -, h⟩ := bind_eq_ok.mp h
  rw [if_pos rfl] at h
  cases h
  rfl

/-- A page takes the last lines, until it is full or none is left. -/
theorem readBack_spec {base : Nat} (hlines : lines ≠ [])
    (hpass : backwards fromSlice state.provider state.id lines.reverse state.displayedRuns =
      .ok (all, runs'))
    (hitems : items.length < pageSize) :
    ∃ kept taken shown mid, lines = kept ++ taken ∧ taken ≠ [] ∧
      readBack fromSlice (placed base lines).reverse state items = .ok (items ++ shown,
        { state with before := base + (joined newline kept).length, displayedRuns := mid }) ∧
      backwards fromSlice state.provider state.id taken.reverse state.displayedRuns =
        .ok (shown, mid) ∧
      (items ++ shown).length ≤ pageSize := by
  induction lines using List.reverseRecOn generalizing state items all with
  | nil => exact absurd rfl hlines
  | append_singleton lines line ih =>
      rw [List.reverse_append, List.reverse_singleton, List.singleton_append, backwards] at hpass
      obtain ⟨⟨entry, next⟩, hentry, hpass⟩ := bind_eq_ok.mp hpass
      obtain ⟨⟨rest, last⟩, hrest, hpass⟩ := bind_eq_ok.mp hpass
      cases hpass
      have hone : backwards fromSlice state.provider state.id [line] state.displayedRuns =
          .ok (entry.toList, next) := by
        simpa using backwards_cons hentry (show backwards fromSlice state.provider state.id [] next =
          .ok ([], next) from rfl)
      have hlength : (items ++ entry.toList).length ≤ pageSize := by
        rw [List.length_append]
        have hle : entry.toList.length ≤ 1 := by cases entry <;> simp
        omega
      rw [placed_append, List.reverse_append, List.reverse_singleton, List.singleton_append,
        readBack, hentry, ok_bind]
      by_cases hfull : line ≠ [] ∧ pageSize ≤ (items ++ entry.toList).length
      · refine ⟨lines, [line], entry.toList, next, rfl, List.cons_ne_nil _ _, ?_, hone, hlength⟩
        simp only [if_pos hfull]
        rfl
      · simp only [if_neg hfull]
        by_cases hnil : lines = []
        · subst hnil
          exact ⟨[], [line], entry.toList, next, rfl, List.cons_ne_nil _ _, rfl, hone, hlength⟩
        · have hroom : (items ++ entry.toList).length < pageSize := by
            by_cases hline : line = []
            · subst hline
              rw [recordItem_nil hentry]
              simpa using hitems
            · exact Nat.lt_of_not_le fun hle => hfull ⟨hline, hle⟩
          have hih := @ih { state with
            before := base + (joined newline lines).length, displayedRuns := next } _ _
            hnil hrest hroom
          obtain ⟨kept, taken, shown, mid, rfl, htaken, hread, hshown, hbound⟩ := hih
          refine ⟨kept, taken ++ [line], entry.toList ++ shown, mid, ?_, ?_, ?_, ?_, ?_⟩
          · rw [List.append_assoc]
          · simp
          · rw [hread, List.append_assoc]
          · rw [List.reverse_append, List.reverse_singleton, List.singleton_append]
            exact backwards_cons hentry hshown
          · rwa [List.append_assoc] at hbound

theorem backwards_bound (h : backwards fromSlice provider id lines runs = .ok (all, runs')) :
    ∀ line ∈ lines, line.length ≤ Claude.recordBytes := by
  induction lines generalizing runs all with
  | nil => simp
  | cons line lines ih =>
      rw [backwards] at h
      obtain ⟨⟨entry, next⟩, hentry, h⟩ := bind_eq_ok.mp h
      obtain ⟨⟨rest, last⟩, hrest, h⟩ := bind_eq_ok.mp h
      cases h
      refine List.forall_mem_cons.mpr ⟨?_, ih hrest⟩
      rw [recordItem] at hentry
      obtain ⟨_, hbound, -⟩ := bind_eq_ok.mp hentry
      simpa using hbound

end ReadBack

/-! ### The window -/

section Window

variable {content bytes t : Bytes} {lines : List Bytes} {start i k : Nat}

theorem exists_findIdx? (h : bytes[k]? = some newline) :
    ∃ i ≤ k, bytes.findIdx? (· = newline) = some i ∧ bytes[i]? = some newline := by
  cases hfound : bytes.findIdx? (· = newline) with
  | none =>
      have hnone := List.findIdx?_eq_none_iff.mp hfound newline (List.mem_of_getElem? h)
      simp at hnone
  | some i =>
      obtain ⟨hi, hnewline, hfirst⟩ := List.findIdx?_eq_some_iff_getElem.mp hfound
      refine ⟨i, ?_, rfl, ?_⟩
      · by_contra hlt
        obtain ⟨hk, hvalue⟩ := List.getElem?_eq_some_iff.mp h
        exact hfirst k (Nat.lt_of_not_le hlt) (by simp [hvalue])
      · rw [List.getElem?_eq_getElem hi, of_decide_eq_true hnewline]

/-- In the window a line ends before the last one does, or before what is not finished. -/
theorem exists_newline (hcontent : content = joined newline lines ++ t)
    (hbound : ∀ line ∈ lines, line.length ≤ Claude.recordBytes) (ht : t.length < window)
    (hstart : content.length = start + window) (hpos : 0 < start) :
    ∃ p, start ≤ p ∧ p + 1 < content.length ∧ content[p]? = some newline := by
  obtain ⟨early, rest, hsplit, hlow, hhigh⟩ : ∃ early rest, content = joined newline early ++ rest ∧
      start < (joined newline early).length ∧ (joined newline early).length < content.length := by
    have hlength := congrArg List.length hcontent
    rw [List.length_append] at hlength
    by_cases hnil : t = []
    · subst hnil
      by_cases hnone : lines = []
      · rw [hnone, joined_nil, List.length_nil] at hlength
        omega
      · obtain ⟨early, line, rfl⟩ : ∃ early line, lines = early ++ [line] :=
          ⟨lines.dropLast, lines.getLast hnone, (List.dropLast_concat_getLast hnone).symm⟩
        have hline := hbound line (by simp)
        refine ⟨early, joined newline [line], by rw [hcontent, joined_append, List.append_nil], ?_⟩
        rw [joined_append, joined_cons, joined_nil] at hlength
        simp only [List.length_append, List.length_cons, List.length_nil] at hlength
        rw [Claude.recordBytes] at hline
        rw [window] at hstart
        omega
    · have hsome := List.length_pos_iff.mpr hnil
      exact ⟨lines, t, hcontent, by omega, by omega⟩
  have hearly : early ≠ [] := by
    rintro rfl
    exact absurd hlow (Nat.not_lt_zero _)
  refine ⟨(joined newline early).length - 1, by omega, by omega, ?_⟩
  rw [hsplit, List.getElem?_append_left (by omega), getElem?_joined hearly]

/-- A page begins behind a line. -/
theorem window_spec (hcontent : content = joined newline lines ++ t)
    (hlines : ∀ line ∈ lines, newline ∉ line) (hnewline : newline ∉ t)
    (hbound : ∀ line ∈ lines, line.length ≤ Claude.recordBytes)
    (ht : t.length < window) (hstart : content.length = start + window) (hpos : 0 < start) :
    ∃ i early late, (content.drop start).findIdx? (· = newline) = some i ∧
      i + 1 < (content.drop start).length ∧ lines = early ++ late ∧
      (joined newline early).length = start + (i + 1) ∧
      (content.drop start).drop (i + 1) = joined newline late ++ t := by
  obtain ⟨p, hlow, hhigh, hp⟩ := exists_newline hcontent hbound ht hstart hpos
  have hin : (content.drop start)[p - start]? = some newline := by
    rw [List.getElem?_drop, Nat.add_sub_cancel' hlow, hp]
  obtain ⟨i, hi, hfound, hvalue⟩ := exists_findIdx? hin
  rw [List.getElem?_drop, hcontent] at hvalue
  obtain ⟨early, late, rfl, hlength⟩ := exists_cut hlines hnewline hvalue
  refine ⟨i, early, late, hfound, ?_, rfl, by omega, ?_⟩
  · rw [List.length_drop]
    omega
  · rw [List.drop_drop, hcontent, joined_append, List.append_assoc]
    exact List.drop_left' (by omega)

end Window

/-! ### A page -/

section Pages

variable {fromSlice : Bytes → Option Value} {file t : Bytes} {lines : List Bytes} {state : Cursor}
  {all : List Value} {runs : Runs}

/-- A page from lines that begin at `base` shows the last of them. -/
theorem readPage_spec {base : Nat} {early late : List Bytes} (hlines : lines = early ++ late)
    (hbase : (joined newline early).length = base) (hlt : base < state.before)
    (hlate : (joined newline lines).length ≤ state.before)
    (hpass : backwards fromSlice state.provider state.id lines.reverse state.displayedRuns =
      .ok (all, runs)) :
    ∃ kept taken shown mid, lines = kept ++ taken ∧
      readBack fromSlice (placed base late).reverse { state with before := base } [] =
        .ok (shown, { state with
          before := (joined newline kept).length, displayedRuns := mid }) ∧
      backwards fromSlice state.provider state.id taken.reverse state.displayedRuns =
        .ok (shown, mid) ∧
      (joined newline kept).length < state.before ∧ shown.length ≤ pageSize := by
  subst hlines
  by_cases hnil : late = []
  · subst hnil
    refine ⟨early, [], [], state.displayedRuns, rfl, ?_, rfl, hbase ▸ hlt, by decide⟩
    rw [placed, List.reverse_nil, readBack, hbase]
  · rw [List.reverse_append] at hpass
    obtain ⟨first, mid, last, hfirst, -, -⟩ := backwards_append hpass
    obtain ⟨kept, taken, shown, mid, rfl, htaken, hread, hshown, hbound⟩ :=
      @readBack_spec fromSlice late { state with before := base } mid first [] base hnil hfirst
        (by decide)
    refine ⟨early ++ kept, taken, shown, mid, by rw [List.append_assoc], ?_, hshown, ?_, hbound⟩
    · rw [hread, List.nil_append, joined_append, List.length_append, hbase]
    · obtain ⟨line, rest, rfl⟩ := List.exists_cons_of_ne_nil htaken
      rw [← List.append_assoc, joined_append, joined_cons, List.length_append, List.length_append,
        List.length_cons] at hlate
      omega

theorem jsonlPage_spec (hfile : file.take state.before = joined newline lines ++ t)
    (hbefore : state.before ≤ file.length) (hlines : ∀ line ∈ lines, newline ∉ line)
    (ht : newline ∉ t) (htail : t.length < window ∨ state.before ≤ window)
    (hpos : 0 < state.before)
    (hpass : backwards fromSlice state.provider state.id lines.reverse state.displayedRuns =
      .ok (all, runs)) :
    ∃ kept taken shown mid, lines = kept ++ taken ∧
      jsonlPage fromSlice file state = .ok (shown.reverse, decide (0 < (joined newline kept).length),
        { state with before := (joined newline kept).length, displayedRuns := mid }) ∧
      backwards fromSlice state.provider state.id taken.reverse state.displayedRuns =
        .ok (shown, mid) ∧
      (joined newline kept).length < state.before ∧ shown.length ≤ pageSize := by
  have hlength := congrArg List.length hfile
  rw [List.length_take, Nat.min_eq_left hbefore] at hlength
  have hjoined : (joined newline lines).length ≤ state.before := by
    rw [hlength, List.length_append]
    exact Nat.le_add_right _ _
  have hbound : ∀ line ∈ lines, line.length ≤ Claude.recordBytes := fun line hline =>
    backwards_bound hpass line (List.mem_reverse.mpr hline)
  have hread : decide (state.before ≤ file.length) = true := decide_eq_true hbefore
  by_cases hstart : 0 < state.before - window
  · have htail : t.length < window := htail.resolve_right (by omega)
    obtain ⟨i, early, late, hfound, hi, hsplit, hbase, hrest⟩ := window_spec hfile hlines ht hbound
      htail (by rw [List.length_take]; omega) hstart
    have hlate : ∀ line ∈ late, newline ∉ line := fun line hline =>
      hlines line (hsplit ▸ List.mem_append_right _ hline)
    have hlt : state.before - window + (i + 1) < state.before := by
      rw [List.length_drop, List.length_take] at hi
      omega
    obtain ⟨kept, taken, shown, mid, htaken, hpage, hshown⟩ :=
      readPage_spec hsplit hbase hlt hjoined hpass
    refine ⟨kept, taken, shown, mid, htaken, ?_, hshown⟩
    simp only [jsonlPage, hread, ensure_true, ok_bind, if_pos hstart, hfound, Option.map_some,
      Option.getD_some, decide_eq_true hi, Bool.true_or, hrest, (complete_joined hlate ht).1, hpage]
    rfl
  · have hzero : state.before - window = 0 := by omega
    obtain ⟨kept, taken, shown, mid, htaken, hpage, hshown⟩ :=
      @readPage_spec fromSlice lines state all runs 0 [] lines rfl rfl hpos hjoined hpass
    refine ⟨kept, taken, shown, mid, htaken, ?_, hshown⟩
    simp only [jsonlPage, hread, ensure_true, ok_bind, hzero, Nat.lt_irrefl, if_false,
      List.drop_zero, decide_true, Bool.or_true, Nat.zero_add, hfile, (complete_joined hlines ht).1, hpage]
    rfl

/-! ### A walk -/

/-- A page that was read, and the cursor before and after it. -/
structure Turn where
  cursor : Cursor
  items : List Value
  next : Cursor

/-- Read pages until nothing is left, with so many calls; the last page of the file comes first. -/
def walk (fromSlice : Bytes → Option Value) (file : Bytes) : Nat → Cursor → Except String (List Turn)
  | 0, state => if state.before = 0 then .ok [] else .error "out of calls"
  | calls + 1, state =>
      if state.before = 0 then .ok []
      else do
        let (items, _, next) ← jsonlPage fromSlice file state
        let older ← walk fromSlice file calls next
        return { cursor := state, items, next } :: older

/-- The items of the pages in the order of the file. -/
def Turn.shown (turns : List Turn) : List Value := (turns.map Turn.items).reverse.flatten

/-- The walk from a cursor ends, every page moves the cursor back and is within its bound, and the
pages show these items. -/
def Walks (fromSlice : Bytes → Option Value) (file : Bytes) (state : Cursor) (all : List Value) :
    Prop :=
  ∀ calls ≥ state.before, ∃ turns, walk fromSlice file calls state = .ok turns ∧
    (∀ turn ∈ turns, turn.next.before < turn.cursor.before ∧ turn.items.length ≤ pageSize) ∧
    Turn.shown turns = all

theorem walks_zero (h : state.before = 0) : Walks fromSlice file state [] := by
  intro calls _
  refine ⟨[], ?_, by simp, rfl⟩
  cases calls <;> rw [walk, if_pos h]

/-- One page, and the walk from where it has begun. -/
theorem Walks.page {next : Cursor} {items rest : List Value} {more : Bool}
    (hpos : 0 < state.before)
    (hpage : jsonlPage fromSlice file state = .ok (items, more, next))
    (hlt : next.before < state.before) (hitems : items.length ≤ pageSize)
    (h : Walks fromSlice file next rest) : Walks fromSlice file state (rest ++ items) := by
  intro calls hcalls
  cases calls with
  | zero => omega
  | succ calls =>
      obtain ⟨turns, hturns, hall, hshown⟩ := h calls (by omega)
      refine ⟨{ cursor := state, items, next } :: turns, ?_,
        List.forall_mem_cons.mpr ⟨⟨hlt, hitems⟩, hall⟩, ?_⟩
      · rw [walk, if_neg (Nat.ne_of_gt hpos), hpage, ok_bind]
        simp only [hturns]
        rfl
      · simp only [Turn.shown] at hshown ⊢
        rw [List.map_cons, List.reverse_cons, List.flatten_append, hshown]
        simp

/-- From a place where a line ends, the walk shows what one pass over the lines before it does. -/
theorem walks_lines (hfile : file.take state.before = joined newline lines ++ t)
    (hbefore : state.before ≤ file.length) (hlines : ∀ line ∈ lines, newline ∉ line)
    (ht : newline ∉ t) (htail : t.length < window ∨ state.before ≤ window)
    (hpass : backwards fromSlice state.provider state.id lines.reverse state.displayedRuns =
      .ok (all, runs)) : Walks fromSlice file state all.reverse := by
  induction hcount : state.before using Nat.strongRecOn generalizing state lines t all with
  | ind count ih =>
      rcases Nat.eq_zero_or_pos state.before with hzero | hpos
      · -- nothing is left, and no line is
        have hlines : lines = [] := by
          rw [hzero, List.take_zero] at hfile
          cases lines with
          | nil => rfl
          | cons line lines => simp [joined_cons] at hfile
        subst hlines
        cases hpass
        exact walks_zero hzero
      · obtain ⟨kept, taken, shown, mid, rfl, hpage, hshown, hlt, hsize⟩ :=
          jsonlPage_spec hfile hbefore hlines ht htail hpos hpass
        rw [List.reverse_append] at hpass
        obtain ⟨first, mid', last, hfirst, hlast, rfl⟩ := backwards_append hpass
        obtain ⟨rfl, rfl⟩ : first = shown ∧ mid' = mid := by
          rw [hshown] at hfirst
          cases hfirst
          exact ⟨rfl, rfl⟩
        have hprefix : file.take (joined newline kept).length = joined newline kept ++ [] := by
          rw [← Nat.min_eq_left (Nat.le_of_lt hlt), ← List.take_take, hfile, joined_append,
            List.append_assoc, List.take_left, List.append_nil]
        rw [List.reverse_append]
        refine Walks.page hpos hpage hlt (by rwa [List.length_reverse]) ?_
        exact ih _ (hcount ▸ hlt) hprefix (Nat.le_trans (Nat.le_of_lt hlt) hbefore)
          (fun line hline => hlines line (List.mem_append_left _ hline)) List.not_mem_nil
          (.inl (by decide)) hlast rfl

/-- The pages of a history are what one pass backwards over its complete lines shows, when what
follows them is shorter than a window. -/
theorem pages_partition_lines (fromSlice : Bytes → Option Value) (file : Bytes)
    (provider : Provider) (id : String) (all : List Value) (runs : Runs)
    (hpass : backwards fromSlice provider id (complete newline file).reverse ∅ = .ok (all, runs))
    (htail : (unfinished newline file).length < window ∨ file.length ≤ window) :
    Walks fromSlice file { provider, id, before := file.length } all.reverse := by
  obtain ⟨lines, t, hfile, hlines, ht⟩ := exists_joined newline file
  obtain ⟨hcomplete, hunfinished⟩ := complete_joined hlines ht
  rw [← hfile] at hcomplete hunfinished
  rw [hcomplete] at hpass
  rw [hunfinished] at htail
  exact walks_lines (by rw [List.take_length]; exact hfile) (Nat.le_refl _) hlines ht htail hpass

end Pages

/-! ### A history of one message -/

/-- The line `1`, and a line that is not finished. -/
def oneMessage : Bytes := [49, newline, 50]

def messageRecord : Value :=
  .object [("id", .string "m"), ("payload", .object [("event", .object
      [("kind", .string "assistant_message_committed"), ("text", .string "hi")])]),
    ("payload_type", .string "runtime.session"), ("schema_version", .number (.posInt 1)),
    ("stream", .object [("id", .string "s"), ("kind", .string "session")])]

theorem pages_partition_lines_one :
    Walks (fun _ => some messageRecord) oneMessage
      { provider := .muse, id := "s", before := oneMessage.length }
      [Claude.itemValue "m" false "hi"] := by
  refine pages_partition_lines (fun _ => some messageRecord) oneMessage .muse "s"
    [Claude.itemValue "m" false "hi"] ∅ ?_ (.inl (by decide))
  have hlines : complete newline oneMessage = [[49]] := by decide
  rw [hlines]
  rfl

/-! ### More than a window behind the last line -/

/-- An append that is not finished. -/
def longAppend : Bytes := List.replicate (window + 1) 97

/-- A page that begins within a line longer than a window stops. -/
theorem jsonlPage_unfinished (fromSlice : Bytes → Option Value) {file : Bytes}
    (hlength : file.length = window + 1) (hnewline : newline ∉ file) :
    jsonlPage fromSlice file { provider := .muse, id := "s", before := window + 1 } =
      .error "History record exceeds read window" := by
  have hnone : (file.drop 1).findIdx? (· = newline) = none := by
    rw [List.findIdx?_eq_none_iff]
    intro byte hbyte
    rw [decide_eq_false_iff_not]
    rintro rfl
    exact hnewline (List.mem_of_mem_drop hbyte)
  have hstart : window + 1 - window = 1 := Nat.add_sub_cancel_left window 1
  have htake : file.take (window + 1) = file := by rw [← hlength, List.take_length]
  simp only [jsonlPage, hstart, hlength, Nat.le_refl, decide_true, ensure_true, ok_bind, htake,
    Nat.one_pos, if_true, hnone, Option.map_none, Option.getD_none, Nat.lt_irrefl, decide_false]
  rfl

/-- There is no complete line, and still no page can be read. -/
theorem pages_stopped :
    backwards (fun _ => none) .muse "s" (complete newline longAppend).reverse ∅ = .ok ([], ∅) ∧
      ¬Walks (fun _ => none) longAppend
        { provider := .muse, id := "s", before := longAppend.length } [] := by
  have hlength : longAppend.length = window + 1 := List.length_replicate
  have hnewline : newline ∉ longAppend := fun h => absurd (List.eq_of_mem_replicate h) (by decide)
  refine ⟨by rw [(complete_of_not_mem hnewline).1]; rfl, fun h => ?_⟩
  obtain ⟨turns, hwalk, -⟩ := h (window + 1) (by simp [hlength])
  rw [walk, hlength, if_neg (Nat.succ_ne_zero window), jsonlPage_unfinished _ hlength hnewline,
    error_bind] at hwalk
  cases hwalk

end Pikamux.History
