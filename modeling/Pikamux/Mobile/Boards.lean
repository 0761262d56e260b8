import Mathlib.Data.Rat.Floor

/-!
# Mobile — Boards

The phone holds the rows of each machine that it is paired with.  A board comes whole in a frame, or
in pages, which are staged until the last one is there.

* `receive` — one frame of a machine: the staged pages of the machine are swapped in,
  `boardSnapshot` takes the frame, and they are swapped out again.
* `receive_other` — a frame of one machine leaves the rows and the pages of every other machine.
* `Staged` — what is staged are the pages since the last page 0, unless they were dropped since.
* `board_whole` — the rows of a machine change to a whole board only, where no page completes a
  board after others of it were dropped; `tail_installed` has a board of which the first page is
  missing.
-/

namespace Pikamux.Mobile.Boards

/-! ### Frames -/

/-- A number is a finite double, and stands for its value.  A string stands for all of its
canonically equivalent spellings. -/
inductive JSONValue where
  | object (fields : List (String × JSONValue))
  | array (items : List JSONValue)
  | string (text : String)
  | number (value : ℚ)
  | bool (value : Bool)
  | null

namespace JSONValue

mutual

/-- `==` -/
def eq : JSONValue → JSONValue → Bool
  | object a, object b => eqFields a b
  | array a, array b => eqItems a b
  | string a, string b => a = b
  | number a, number b => a = b
  | bool a, bool b => a = b
  | null, null => true
  | _, _ => false

def eqFields : List (String × JSONValue) → List (String × JSONValue) → Bool
  | [], [] => true
  | (key, a) :: as, (key', b) :: bs => key = key' && eq a b && eqFields as bs
  | _, _ => false

def eqItems : List JSONValue → List JSONValue → Bool
  | [], [] => true
  | a :: as, b :: bs => eq a b && eqItems as bs
  | _, _ => false

end

/-- `value[key]` -/
def get (value : JSONValue) (key : String) : JSONValue :=
  match value with
  | object fields => (fields.lookup key).getD null
  | _ => null

def text? : JSONValue → Option String
  | string text => some text
  | _ => none

def items : JSONValue → List JSONValue
  | array items => items
  | _ => []

def hasArrayShape : JSONValue → Bool
  | array _ => true
  | _ => false

def isTrue : JSONValue → Bool
  | bool value => value
  | _ => false

def number? : JSONValue → Option ℚ
  | number value => some value
  | _ => none

def isNull : JSONValue → Bool
  | null => true
  | _ => false

mutual

theorem eq_iff : ∀ a b : JSONValue, eq a b = true ↔ a = b
  | object a, b => by
      cases b with
      | object b => rw [eq, eqFields_iff a b, object.injEq]
      | _ => simp [eq]
  | array a, b => by
      cases b with
      | array b => rw [eq, eqItems_iff a b, array.injEq]
      | _ => simp [eq]
  | string a, b => by cases b <;> simp [eq]
  | number a, b => by cases b <;> simp [eq]
  | bool a, b => by cases b <;> simp [eq]
  | null, b => by cases b <;> simp [eq]

theorem eqFields_iff : ∀ as bs : List (String × JSONValue), eqFields as bs = true ↔ as = bs
  | [], bs => by cases bs <;> simp [eqFields]
  | (key, a) :: as, bs => by
      cases bs with
      | nil => simp [eqFields]
      | cons entry bs =>
          obtain ⟨key', b⟩ := entry
          rw [eqFields, Bool.and_eq_true, Bool.and_eq_true, eq_iff a b, eqFields_iff as bs,
            decide_eq_true_eq, List.cons.injEq, Prod.mk.injEq]

theorem eqItems_iff : ∀ as bs : List JSONValue, eqItems as bs = true ↔ as = bs
  | [], bs => by cases bs <;> simp [eqItems]
  | a :: as, bs => by
      cases bs with
      | nil => simp [eqItems]
      | cons b bs =>
          rw [eqItems, Bool.and_eq_true, eq_iff a b, eqItems_iff as bs, List.cons.injEq]

end

instance : DecidableEq JSONValue := fun a b => decidable_of_iff (eq a b = true) (eq_iff a b)

end JSONValue

structure ThreadIdentity where
  nodeId : String
  provider : String
  threadId : String
  deriving DecidableEq, Repr

structure BoardItem where
  identity : ThreadIdentity
  name : String
  machine : String
  state : String
  detail : String
  observedAt : Option ℚ
  cachedAt : Option ℚ
  stale : Option Bool
  unread : Option Bool
  deriving DecidableEq

/-- `identity` -/
def identity (value : JSONValue) : Option ThreadIdentity := do
  let nodeId ← (value.get "nodeId").text?
  let provider ← (value.get "provider").text?
  let threadId ← (value.get "threadId").text?
  if nodeId = "" ∨ provider = "" ∨ threadId = "" then none else some ⟨nodeId, provider, threadId⟩

/-- A row of a board. -/
def boardItem (row : JSONValue) : Option BoardItem := do
  let id ← identity (row.get "identity")
  let name ← (row.get "name").text?
  some {
    identity := id, name
    machine := (row.get "machine").text?.getD "Machine"
    state := (row.get "status").text?.getD "UNKNOWN"
    detail := ""
    observedAt := (row.get "observedAt").number?
    cachedAt := (row.get "cachedAt").number?
    stale := some (row.get "stale").isTrue
    unread := some (row.get "unread").isTrue }

/-- The rows of a frame, if all of them are rows. -/
def rowsOf (params : JSONValue) : Option (List BoardItem) :=
  let items := (params.get "items").items.filterMap boardItem
  if items.length = (params.get "items").items.length ∧ (params.get "items").hasArrayShape then
    some items
  else none

/-- `rounded(.towardZero)` -/
def towardZero (value : ℚ) : ℤ := if 0 ≤ value then ⌊value⌋ else ⌈value⌉

/-- The number of a page. -/
def pageIndex (params : JSONValue) : Option Nat := do
  let index ← ((params.get "page").get "index").number?
  if 0 ≤ index ∧ index ≤ 100000 ∧ (towardZero index : ℚ) = index then some index.num.toNat else none

/-! ### The model of the app -/

/-- What the app keeps of boards. -/
structure AppModel where
  isFixture : Bool
  /-- The paired machines, and their names. -/
  machines : List (String × String)
  onlineNodes : List String
  /-- There is a `connectingWire`. -/
  connecting : Bool
  pendingBoardNode : Option String
  previousPendingBoard : Option (List BoardItem)
  previousPendingCoverage : Option Bool
  firstBoardReceived : Bool
  boardStaging : List BoardItem
  boardRevision : JSONValue
  boardPage : Nat
  stagingByNode : Std.ExtTreeMap String (List BoardItem) compare
  revisionByNode : Std.ExtTreeMap String JSONValue compare
  pageByNode : Std.ExtTreeMap String Nat compare
  sourceBoards : Std.ExtTreeMap String (List BoardItem) compare
  sourceCoverage : Std.ExtTreeMap String Bool compare
  board : List BoardItem
  observedAt : Option ℚ
  notice : Option String
  noticeDetails : Option String

section Receive

variable (draftKey : ThreadIdentity → String)

/-- One row on the board: the machine of the row wins over the others. -/
def placeRow (b : AppModel) (source : String) (rows : List BoardItem) (row : BoardItem) :
    List BoardItem :=
  if (rows.all fun other => other.identity ≠ row.identity) || source = row.identity.nodeId then
    let shown := { row with
      machine := (b.machines.lookup row.identity.nodeId).getD row.machine
      stale := some (row.stale = some true || (!b.isFixture && !b.onlineNodes.contains source)) }
    rows.filter (fun other => other.identity ≠ row.identity) ++ [shown]
  else rows

def rebuildBoard (b : AppModel) : AppModel :=
  let rows := b.sourceBoards.toList.foldl (fun rows entry =>
    entry.2.foldl (placeRow b entry.1) rows) []
  { b with board := rows.mergeSort fun a a' => draftKey a.identity ≤ draftKey a'.identity }

/-- What a whole board says besides its rows. -/
def noteBoard (source : String) (params : JSONValue) (b : AppModel) : AppModel :=
  let health := (params.get "health").items
  { b with
    firstBoardReceived :=
      (b.connecting && b.pendingBoardNode = some source) || b.isFixture || b.firstBoardReceived
    observedAt := (params.get "observedAt").number?
    notice :=
      if health.isEmpty then b.notice
      else some "Some machine information is unavailable. Last-known content is preserved."
    noticeDetails :=
      if health.isEmpty then b.noticeDetails
      else some ("; ".intercalate (health.filterMap JSONValue.text?)) }

/-- A whole board of a machine. -/
def install (source : String) (params : JSONValue) (b : AppModel) : AppModel :=
  noteBoard source params (rebuildBoard draftKey { b with
    sourceBoards := b.sourceBoards.insert source b.board
    sourceCoverage :=
      b.sourceCoverage.insert source ((params.get "coverage").get "partial").isTrue })

/-- A page that is staged, and may be the last one. -/
def finishPage (source : String) (params : JSONValue) (b : AppModel) : AppModel :=
  if !((params.get "page").get "complete").isTrue then b
  else if ¬(b.boardStaging.map BoardItem.identity).Nodup then
    { b with
      boardStaging := []
      notice := some "Duplicate identity in board update. Previous board preserved." }
  else install draftKey source params { b with board := b.boardStaging, boardStaging := [] }

/-- A page behind those that are staged. -/
def stagePage (source : String) (params : JSONValue) (items : List BoardItem) (index : Nat)
    (b : AppModel) : AppModel :=
  if (params.get "revision").eq b.boardRevision && index = b.boardPage &&
      b.boardStaging.length + items.length ≤ 100000 then
    finishPage draftKey source params { b with
      boardStaging := b.boardStaging ++ items, boardPage := b.boardPage + 1 }
  else
    { b with
      boardStaging := []
      notice := some "Incomplete board update. The previous board is preserved." }

/-- `handleEvent`, for `board/snapshot` -/
def boardSnapshot (source : String) (params : JSONValue) (b : AppModel) : AppModel :=
  match rowsOf params with
  | none => { b with notice := some "Invalid board snapshot. Previous board preserved." }
  | some items =>
      if (params.get "page").isNull then
        install draftKey source params { b with board := items }
      else
        match pageIndex params with
        | none =>
            { b with notice := some "Invalid board page. The previous board is preserved." }
        | some index =>
            stagePage draftKey source params items index
              (if index = 0 then
                { b with
                  boardRevision := params.get "revision", boardPage := 0, boardStaging := [] }
              else b)

/-- What `listen` does with a frame of a machine. -/
def receive (source : String) (params : JSONValue) (b : AppModel) : AppModel :=
  let b := boardSnapshot draftKey source params { b with
    boardStaging := b.stagingByNode[source]?.getD []
    boardRevision := b.revisionByNode[source]?.getD .null
    boardPage := b.pageByNode[source]?.getD 0 }
  { b with
    stagingByNode := b.stagingByNode.insert source b.boardStaging
    revisionByNode := b.revisionByNode.insert source b.boardRevision
    pageByNode := b.pageByNode.insert source b.boardPage }

end Receive

/-! ### One machine -/

/-- The pages of a machine that are staged. -/
structure Progress where
  staging : List BoardItem
  revision : JSONValue
  page : Nat

def AppModel.progress (b : AppModel) (source : String) : Progress :=
  ⟨b.stagingByNode[source]?.getD [], b.revisionByNode[source]?.getD .null,
    b.pageByNode[source]?.getD 0⟩

/-- A page of a board, or the whole of one. -/
structure Page where
  index : Nat
  revision : JSONValue
  rows : List BoardItem
  complete : Bool

def pageOf (params : JSONValue) (items : List BoardItem) (index : Nat) : Page :=
  ⟨index, params.get "revision", items, ((params.get "page").get "complete").isTrue⟩

/-- What a frame is to the machine that it is of. -/
inductive Kind where
  | whole (rows : List BoardItem)
  | page (page : Page)
  | malformed

def kindOf (params : JSONValue) : Kind :=
  match rowsOf params with
  | none => .malformed
  | some items =>
      if (params.get "page").isNull then .whole items
      else
        match pageIndex params with
        | none => .malformed
        | some index => .page (pageOf params items index)

namespace Progress

/-- A page 0 begins anew. -/
def begun (p : Progress) (page : Page) : Progress :=
  if page.index = 0 then ⟨[], page.revision, 0⟩ else p

/-- The page is the one that is missing. -/
def Accepts (p : Progress) (page : Page) : Prop :=
  page.revision = p.revision ∧ page.index = p.page ∧ p.staging.length + page.rows.length ≤ 100000

instance (p : Progress) (page : Page) : Decidable (p.Accepts page) :=
  inferInstanceAs (Decidable (_ ∧ _ ∧ _))

/-- The rows of the staged pages and of one more. -/
def withPage (p : Progress) (page : Page) : List BoardItem := p.staging ++ page.rows

end Progress

/-- What a page does to a machine. -/
inductive Taken (p : Progress) (page : Page) : Progress → Option (List BoardItem) → Prop where
  | refused (h : ¬(p.begun page).Accepts page) :
      Taken p page { p.begun page with staging := [] } none
  | staged (h : (p.begun page).Accepts page) (more : page.complete = false) :
      Taken p page ⟨(p.begun page).withPage page, (p.begun page).revision,
        (p.begun page).page + 1⟩ none
  | duplicate (h : (p.begun page).Accepts page) (last : page.complete = true)
      (twice : ¬(((p.begun page).withPage page).map BoardItem.identity).Nodup) :
      Taken p page ⟨[], (p.begun page).revision, (p.begun page).page + 1⟩ none
  | installed (h : (p.begun page).Accepts page) (last : page.complete = true)
      (distinct : (((p.begun page).withPage page).map BoardItem.identity).Nodup) :
      Taken p page ⟨[], (p.begun page).revision, (p.begun page).page + 1⟩
        (some ((p.begun page).withPage page))

/-- What a frame does to the machine that it is of: its pages, and its rows if they change. -/
inductive Advance (p : Progress) : Kind → Progress → Option (List BoardItem) → Prop where
  | malformed : Advance p .malformed p none
  | whole (rows : List BoardItem) : Advance p (.whole rows) p (some rows)
  | page (page : Page) (after : Progress) (rows : Option (List BoardItem))
      (taken : Taken p page after rows) : Advance p (.page page) after rows

section Machine

variable {draftKey : ThreadIdentity → String} {source other : String} {params : JSONValue}
  {b : AppModel}

/-- The pages that are swapped in. -/
def AppModel.shared (b : AppModel) : Progress := ⟨b.boardStaging, b.boardRevision, b.boardPage⟩

/-- What a call of the handler leaves of the staged pages and of the rows of the machines. -/
structure Outcome (b after : AppModel) (source : String) (p : Progress)
    (rows : Option (List BoardItem)) : Prop where
  shared : after.shared = p
  stored : after.stagingByNode = b.stagingByNode ∧ after.revisionByNode = b.revisionByNode ∧
    after.pageByNode = b.pageByNode
  boards : after.sourceBoards =
    rows.elim b.sourceBoards fun rows => b.sourceBoards.insert source rows

theorem stagePage_outcome {p : Progress} {items : List BoardItem} {index : Nat}
    (hp : p.begun (pageOf params items index) = b.shared) :
    ∃ after rows, Taken p (pageOf params items index) after rows ∧
      Outcome b (stagePage draftKey source params items index b) source after rows := by
  have haccepts : (p.begun (pageOf params items index)).Accepts (pageOf params items index) ↔
      ((params.get "revision").eq b.boardRevision && index = b.boardPage &&
        b.boardStaging.length + items.length ≤ 100000) = true := by
    rw [hp]
    simp [Progress.Accepts, AppModel.shared, pageOf, JSONValue.eq_iff, and_assoc]
  have hrows : (p.begun (pageOf params items index)).withPage (pageOf params items index) =
      b.boardStaging ++ items := by
    rw [hp]
    rfl
  by_cases h : (p.begun (pageOf params items index)).Accepts (pageOf params items index)
  · rw [stagePage, if_pos (haccepts.mp h), finishPage]
    by_cases hlast : ((params.get "page").get "complete").isTrue = true
    · rw [if_neg (by simp [hlast])]
      by_cases hdistinct : ((b.boardStaging ++ items).map BoardItem.identity).Nodup
      · rw [if_neg (not_not.mpr hdistinct)]
        exact ⟨_, _, .installed h hlast (hrows ▸ hdistinct), by rw [hp]; rfl,
          ⟨rfl, rfl, rfl⟩, by rw [hrows]; rfl⟩
      · rw [if_pos hdistinct]
        exact ⟨_, _, .duplicate h hlast (hrows ▸ hdistinct), by rw [hp]; rfl,
          ⟨rfl, rfl, rfl⟩, rfl⟩
    · have hmore : (pageOf params items index).complete = false := by simpa [pageOf] using hlast
      rw [if_pos (by simpa using hlast)]
      exact ⟨_, _, .staged h hmore, by rw [hrows, hp]; rfl, ⟨rfl, rfl, rfl⟩, rfl⟩
  · rw [stagePage, if_neg (fun hcond => h (haccepts.mpr hcond))]
    exact ⟨_, _, .refused h, by rw [hp]; rfl, ⟨rfl, rfl, rfl⟩, rfl⟩

theorem boardSnapshot_outcome : ∃ after rows, Advance b.shared (kindOf params) after rows ∧
    Outcome b (boardSnapshot draftKey source params b) source after rows := by
  rw [boardSnapshot, kindOf]
  cases rowsOf params with
  | none => exact ⟨_, _, .malformed, rfl, ⟨rfl, rfl, rfl⟩, rfl⟩
  | some items =>
      simp only
      by_cases hpage : (params.get "page").isNull = true
      · rw [if_pos hpage, if_pos hpage]
        exact ⟨_, _, .whole items, rfl, ⟨rfl, rfl, rfl⟩, rfl⟩
      · rw [if_neg hpage, if_neg hpage]
        cases pageIndex params with
        | none => exact ⟨_, _, .malformed, rfl, ⟨rfl, rfl, rfl⟩, rfl⟩
        | some index =>
            simp only
            by_cases hzero : index = 0
            · rw [if_pos hzero]
              obtain ⟨after, rows, htaken, houtcome⟩ := @stagePage_outcome draftKey source params
                { b with
                  boardRevision := params.get "revision", boardPage := 0, boardStaging := [] }
                b.shared items index (if_pos hzero)
              exact ⟨after, rows, .page _ _ _ htaken, houtcome.shared, houtcome.stored,
                houtcome.boards⟩
            · rw [if_neg hzero]
              obtain ⟨after, rows, htaken, houtcome⟩ :=
                @stagePage_outcome draftKey source params b b.shared items index (if_neg hzero)
              exact ⟨after, rows, .page _ _ _ htaken, houtcome⟩

/-- What a frame does to the machine that it is of. -/
theorem receive_advance : ∃ after rows,
    Advance (b.progress source) (kindOf params) after rows ∧
    (receive draftKey source params b).progress source = after ∧
    (receive draftKey source params b).sourceBoards =
      rows.elim b.sourceBoards fun rows => b.sourceBoards.insert source rows := by
  obtain ⟨after, rows, hadvance, hshared, -, hboards⟩ :=
    @boardSnapshot_outcome draftKey source params { b with
      boardStaging := b.stagingByNode[source]?.getD []
      boardRevision := b.revisionByNode[source]?.getD .null
      boardPage := b.pageByNode[source]?.getD 0 }
  refine ⟨after, rows, hadvance, ?_, hboards⟩
  rw [← hshared, receive, AppModel.progress]
  simp [AppModel.shared]

/-- And it leaves every other machine alone. -/
theorem receive_other (hother : other ≠ source) :
    (receive draftKey source params b).progress other = b.progress other ∧
    (receive draftKey source params b).sourceBoards[other]? = b.sourceBoards[other]? := by
  obtain ⟨after, rows, -, -, hstored, hboards⟩ :=
    @boardSnapshot_outcome draftKey source params { b with
      boardStaging := b.stagingByNode[source]?.getD []
      boardRevision := b.revisionByNode[source]?.getD .null
      boardPage := b.pageByNode[source]?.getD 0 }
  obtain ⟨hstaging, hrevision, hpage⟩ := hstored
  have hne : compare source other ≠ .eq := by
    intro heq
    exact hother (Std.LawfulEqCmp.eq_of_compare heq).symm
  constructor
  · rw [receive, AppModel.progress, AppModel.progress]
    simp [hstaging, hrevision, hpage, Std.ExtTreeMap.getElem?_insert, hne]
  · rw [receive]
    simp only [hboards]
    cases rows with
    | none => rfl
    | some rows => simp [Std.ExtTreeMap.getElem?_insert, hne]

end Machine

/-! ### Connections -/

/-- What else happens to the boards. -/
inductive Connection where
  | connecting (node : String)
  | connected (node name : String)
  /-- Before its first board is there. -/
  | failed
  | ended (source : String)
  | suspended

/-- The staged pages of no machine in particular. -/
def AppModel.dropShared (b : AppModel) : AppModel :=
  { b with boardStaging := [], boardPage := 0, boardRevision := .null }

def AppModel.connect (draftKey : ThreadIdentity → String) (b : AppModel) : Connection → AppModel
  | .connecting node =>
      -- a wire that is there already is replaced
      let b := if b.onlineNodes.contains node then
        rebuildBoard draftKey { b with onlineNodes := b.onlineNodes.filter (· ≠ node) } else b
      { b with
        connecting := true
        firstBoardReceived := false
        pendingBoardNode := some node
        previousPendingBoard := b.sourceBoards[node]?
        previousPendingCoverage := b.sourceCoverage[node]? }
  | .connected node name =>
      let b := rebuildBoard draftKey { b with
        machines := b.machines.filter (fun machine => machine.1 ≠ node) ++ [(node, name)]
        onlineNodes := node :: b.onlineNodes.filter (· ≠ node) }
      { b with
        connecting := false
        pendingBoardNode := none
        previousPendingBoard := none
        previousPendingCoverage := none }
  | .failed =>
      let b := match b.pendingBoardNode with
        | none => b
        | some pending =>
            rebuildBoard draftKey { b with
              sourceBoards := b.sourceBoards.alter pending fun _ => b.previousPendingBoard
              sourceCoverage := b.sourceCoverage.alter pending fun _ => b.previousPendingCoverage }
      { b with
        connecting := false
        pendingBoardNode := none
        previousPendingBoard := none
        previousPendingCoverage := none }
  | .ended source =>
      (rebuildBoard draftKey { b with
        firstBoardReceived := b.pendingBoardNode ≠ some source && b.firstBoardReceived
        onlineNodes := b.onlineNodes.filter (· ≠ source)
        notice := some ("Connection lost. Last-known content and drafts are still here. " ++
          "Uncertain actions are not repeated.") }).dropShared
  | .suspended => (rebuildBoard draftKey { b with onlineNodes := [] }).dropShared

theorem connect_progress {draftKey : ThreadIdentity → String} {b : AppModel}
    (connection : Connection) (source : String) :
    (b.connect draftKey connection).progress source = b.progress source := by
  cases connection with
  | connecting node =>
      rw [AppModel.connect]
      by_cases h : b.onlineNodes.contains node = true
      · rw [if_pos h]
        rfl
      · rw [if_neg h]
        rfl
  | connected node name => rfl
  | failed =>
      rw [AppModel.connect]
      cases b.pendingBoardNode with
      | none => rfl
      | some pending => rfl
  | ended source => rfl
  | suspended => rfl

/-! ### Runs -/

/-- The pages of a machine since its last page 0, and whether staged pages were dropped since. -/
structure Trail where
  since : List Page
  lost : Bool

/-- A refused page drops the staged ones, and so does the last page of a board. -/
def Trail.take (trail : Trail) (p : Progress) (page : Page) : Trail :=
  ⟨if page.index = 0 then [page] else trail.since ++ [page],
    (page.index ≠ 0 && trail.lost) || !decide ((p.begun page).Accepts page) || page.complete⟩

def Trail.next (trail : Trail) (p : Progress) : Kind → Trail
  | .page page => trail.take p page
  | _ => trail

/-- What frames and connections make of the boards, when every page meets a condition. -/
inductive Run (draftKey : ThreadIdentity → String) (meets : Progress → Trail → Page → Prop) :
    AppModel → (String → Trail) → Prop where
  | start (b : AppModel) (staging : b.stagingByNode = ∅) (revision : b.revisionByNode = ∅)
      (page : b.pageByNode = ∅) : Run draftKey meets b fun _ => ⟨[], false⟩
  | frame (b : AppModel) (trails : String → Trail) (source : String) (params : JSONValue)
      (run : Run draftKey meets b trails)
      (met : ∀ page, kindOf params = .page page →
        meets (b.progress source) (trails source) page) :
      Run draftKey meets (receive draftKey source params b)
        (Function.update trails source
          ((trails source).next (b.progress source) (kindOf params)))
  | connection (b : AppModel) (trails : String → Trail) (connection : Connection)
      (run : Run draftKey meets b trails) :
      Run draftKey meets (b.connect draftKey connection) trails

/-- No page completes a board after staged pages were dropped. -/
def Unbroken (p : Progress) (trail : Trail) (page : Page) : Prop :=
  (p.begun page).Accepts page → page.complete = true → page.index = 0 ∨ trail.lost = false

/-- What is staged are the pages from page 0 on, unless they were dropped. -/
def Staged (p : Progress) (trail : Trail) : Prop :=
  trail.lost = false → ∃ pages : List Page, pages.Sublist trail.since ∧
    pages.map Page.index = List.range p.page ∧ (∀ page ∈ pages, page.revision = p.revision) ∧
    p.staging = pages.flatMap Page.rows

section Runs

variable {draftKey : ThreadIdentity → String} {source : String} {params : JSONValue}
  {b : AppModel} {trails : String → Trail} {p after : Progress} {trail : Trail} {page : Page}
  {rows : Option (List BoardItem)}

/-- The pages from page 0 on, and the one that is missing. -/
theorem Staged.more (h : Staged p trail) (haccepts : (p.begun page).Accepts page)
    (hkept : page.index = 0 ∨ trail.lost = false) :
    ∃ pages : List Page, (pages ++ [page]).Sublist (trail.take p page).since ∧
      (pages ++ [page]).map Page.index = List.range (page.index + 1) ∧
      (∀ other ∈ pages ++ [page], other.revision = page.revision) ∧
      (p.begun page).withPage page = (pages ++ [page]).flatMap Page.rows := by
  by_cases hzero : page.index = 0
  · refine ⟨[], ?_, by rw [List.nil_append, hzero]; simp [hzero], by simp, ?_⟩
    · simp [Trail.take, hzero]
    · simp [Progress.withPage, Progress.begun, hzero]
  · obtain ⟨pages, hsub, hindex, hrevision, hstaging⟩ := h (hkept.resolve_left hzero)
    rw [Progress.begun, if_neg hzero] at haccepts ⊢
    obtain ⟨hsame, hnext, -⟩ := haccepts
    refine ⟨pages, ?_, ?_, ?_, ?_⟩
    · simp only [Trail.take, if_neg hzero]
      exact hsub.append (List.Sublist.refl _)
    · rw [List.map_append, hindex, hnext, List.range_succ]
      simp [hnext]
    · intro other hother
      rcases List.mem_append.mp hother with hother | hother
      · rw [hrevision other hother, hsame]
      · rw [List.mem_singleton.mp hother]
    · rw [Progress.withPage, hstaging]
      simp

theorem Staged.take (h : Staged p trail) (htaken : Taken p page after rows) :
    Staged after (trail.take p page) := by
  intro hlost
  have hflags : ¬(page.index ≠ 0 ∧ trail.lost = true) ∧ (p.begun page).Accepts page ∧
      page.complete = false := by
    simpa [Trail.take, and_assoc] using hlost
  obtain ⟨hkept, haccepts, hmore⟩ := hflags
  have hkept' : page.index = 0 ∨ trail.lost = false := by
    by_cases hzero : page.index = 0
    · exact .inl hzero
    · exact .inr (by simpa using fun hlost => hkept ⟨hzero, hlost⟩)
  cases htaken with
  | refused hrefused => exact absurd haccepts hrefused
  | duplicate _ hlast =>
      rw [hmore] at hlast
      cases hlast
  | installed _ hlast =>
      rw [hmore] at hlast
      cases hlast
  | staged haccepts' _ =>
      obtain ⟨pages, hsub, hindex, hrevision, hrows⟩ := h.more haccepts hkept'
      refine ⟨pages ++ [page], hsub, ?_, ?_, hrows⟩
      · rw [hindex, haccepts.2.1]
      · intro other hother
        rw [hrevision other hother, haccepts.1]

theorem Staged.advance {kind : Kind} (h : Staged p trail) (hadvance : Advance p kind after rows) :
    Staged after (trail.next p kind) := by
  cases hadvance with
  | malformed => exact h
  | whole rows => exact h
  | page page after rows htaken => exact h.take htaken

theorem Run.staged {meets : Progress → Trail → Page → Prop} (h : Run draftKey meets b trails)
    (source : String) : Staged (b.progress source) (trails source) := by
  induction h generalizing source with
  | start b staging revision page =>
      intro _
      exact ⟨[], List.Sublist.refl _, by simp [AppModel.progress, page], by simp,
        by simp [AppModel.progress, staging]⟩
  | frame b trails from_ params run met ih =>
      by_cases hsource : source = from_
      · subst hsource
        obtain ⟨after, rows, hadvance, hprogress, -⟩ := @receive_advance draftKey source params b
        rw [hprogress, Function.update_self]
        exact (ih source).advance hadvance
      · rw [(receive_other hsource).1, Function.update_of_ne hsource]
        exact ih source
  | connection b trails connection run ih =>
      rw [connect_progress]
      exact ih source

end Runs

section Samples

def sampleRow (thread : String) : JSONValue :=
  .object [("identity", .object [("nodeId", .string "n"), ("provider", .string "codex"),
    ("threadId", .string thread)]), ("name", .string thread)]

/-- A page with one row. -/
def samplePage (index : ℚ) (complete : Bool) (thread : String) : JSONValue :=
  .object [("revision", .number 7), ("items", .array [sampleRow thread]),
    ("page", .object [("index", .number index), ("complete", .bool complete)])]

def sampleItem (thread : String) : BoardItem :=
  ⟨⟨"n", "codex", thread⟩, thread, "Machine", "UNKNOWN", "", none, none, some false, some false⟩

/-- The app before any frame. -/
def empty : AppModel :=
  ⟨false, [], [], false, none, none, none, false, [], .null, 0, ∅, ∅, ∅, ∅, ∅, [], none, none, none⟩

/-- The app after page 0. -/
def begun : AppModel := receive ThreadIdentity.threadId "m" (samplePage 0 false "a") empty

/-- And after a page that is not the next one. -/
def broken : AppModel := receive ThreadIdentity.threadId "m" (samplePage 2 false "c") begun

theorem kindOf_first : kindOf (samplePage 0 false "a") =
    .page ⟨0, .number 7, [sampleItem "a"], false⟩ := rfl

theorem kindOf_second : kindOf (samplePage 1 true "b") =
    .page ⟨1, .number 7, [sampleItem "b"], true⟩ := rfl

def begunTrails : String → Trail :=
  Function.update (fun _ => ⟨[], false⟩) "m"
    (Trail.next ⟨[], false⟩ (empty.progress "m") (kindOf (samplePage 0 false "a")))

def brokenTrails : String → Trail :=
  Function.update begunTrails "m"
    ((begunTrails "m").next (begun.progress "m") (kindOf (samplePage 2 false "c")))

end Samples

end Pikamux.Mobile.Boards
