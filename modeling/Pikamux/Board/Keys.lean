import Mathlib.Data.List.Sort
import Pikamux.Board.Add
import Pikamux.Feed.Summary
import Pikamux.Support.History

/-!
# Board — Keys

The keys of the board.  One of its rows is highlighted.  It is remembered by the key of the row, so
that it stays while the rows are replaced, sorted and filtered; what a key does concerns it.

* `replaceItems_selected`, `restore_selected` — rows that are replaced, and what is remembered of an
  earlier board, leave a row highlighted if one is shown.
* `key_handled` — what a key can do, by the state it meets.
* `concerns_highlighted` — what is opened, read or removed is the highlighted row; where it is asked
  before a row is removed, it is the row that was named.
-/

namespace Pikamux.Monitor

open Support Feed

/-- A row of the board; `τ` are times. -/
structure BoardItem (τ : Type) extends Feed.BoardItem τ where
  unread : Bool := false
  lastActivityAt : τ

abbrev BoardKey := Option Text × Provider × Text

/-! ### Rows -/

section Rows

variable {τ : Type}

def BoardItem.key (item : BoardItem τ) : BoardKey :=
  (item.nodeId, item.session.provider,
    (item.pendingToken.map ("pending:".toList ++ ·)).getD item.session.sessionId)

def BoardItem.nodeLabel (item : BoardItem τ) : Option Text := item.nodeName.or item.nodeId

/-- Whether the row is no stale state of a machine. -/
def BoardItem.actionable (item : BoardItem τ) : Bool := !item.stale

def BoardItem.needsAttention (item : BoardItem τ) : Bool :=
  item.actionable && (item.session.status == .needsYou ||
    item.unread && (item.session.status == .error || item.session.status == .openTwice))

/-- The list of threads of one companion. -/
structure ThreadNavigation (τ : Type) where
  current : BoardKey
  recent : List (BoardItem τ)
  order : List BoardKey

/-- What is remembered of a board that is left. -/
structure BoardMemory (τ : Type) where
  initialized : Bool := false
  selectedKey : Option BoardKey := none
  filter : Text := []
  offset : Nat := 0
  updateVersion : Option Text := none
  notice : Option Text := none
  seen : List BoardKey := []
  threads : Option (ThreadNavigation τ) := none

def itemRank (item : BoardItem τ) : Nat :=
  match group item.session.status item.stale with
  | .needsYou => 0
  | .working => 1
  | .ready => 2
  | .parked => 3

variable [LinearOrder τ] (lowercase : Text → Text)

/-- By what the rows are sorted. -/
def place (item : BoardItem τ) :
    Nat ×ₗ Bool ×ₗ τᵒᵈ ×ₗ String ×ₗ WithBot String ×ₗ String :=
  toLex (itemRank item,
    toLex (!item.unread,
      toLex (OrderDual.toDual item.lastActivityAt,
        toLex (String.ofList (lowercase item.session.displayName),
          toLex ((item.nodeId.map String.ofList : Option String),
            String.ofList item.session.sessionId)))))

def sortItems (items : List (BoardItem τ)) : List (BoardItem τ) :=
  items.insertionSort fun left right => place lowercase left ≤ place lowercase right

end Rows

/-! ### Keys and actions -/

inductive KeyEventKind where
  | press
  | repeat
  | release
  deriving DecidableEq, Repr

inductive KeyCode where
  | enter
  | esc
  | up
  | down
  | pageUp
  | pageDown
  | home
  | end
  | backspace
  | f (n : Nat)
  | char (c : Char)
  | other
  deriving DecidableEq, Repr

structure KeyEvent where
  code : KeyCode
  kind : KeyEventKind := .press
  control : Bool := false
  deriving DecidableEq, Repr

inductive BoardAction (τ : Type) where
  | assistant (item : Option (BoardItem τ))
  | settings
  | add
  | open (item : BoardItem τ)
  | peek (item : BoardItem τ)
  | untrack (item : BoardItem τ)
  | refresh
  | update (version : Option Text)
  | quit

/-- The two panels of the board, `χ` for a private consultation and `π` for adding conversations,
and the texts it shows of a row and of its keys. -/
structure Panels (τ χ π : Type) where
  start : BoardItem τ → χ
  closeRequested : χ → Bool
  requestClose : χ → Bool × χ
  /-- The consultation after a key; nothing where it is left. -/
  chatKey : KeyEvent → χ → Option χ
  panelKey : KeyEvent → π → Bool × π
  closingNotice : π → Option Text
  details : BoardItem τ → Text
  usage : BoardItem τ → Text
  boardKeysHelp : Text

/-! ### The board -/

structure Board (τ χ π : Type) where
  items : List (BoardItem τ)
  threads : Option (ThreadNavigation τ) := none
  selectedKey : Option BoardKey
  filter : Text := []
  filtering : Bool := false
  offset : Nat := 0
  chat : Option χ := none
  add : Option π := none
  quitWhenChatCloses : Bool := false
  updateVersion : Option Text := none
  updatePrompt : Bool := false
  actionNotice : Option Text := none
  actionScroll : Nat := 0
  clientActions : Bool := false
  clientUpdates : Bool := false
  confirmUntrack : Option (BoardItem τ) := none
  seen : List BoardKey := []
  addedNotice : Option Text := none

namespace Board

variable {τ χ π : Type} (lowercase : Text → Text)

/-- The rows that are shown. -/
def visible (board : Board τ χ π) : List (BoardItem τ) :=
  match board.threads with
  | some threads =>
      threads.order.filterMap fun key =>
        (board.items.find? fun item => item.key == key).or
          (threads.recent.find? fun item => item.key == key)
  | none =>
      board.items.filter fun item =>
        matchesFilter lowercase item.toBoardItem (lowercase board.filter)

def selectedIndex (board : Board τ χ π) (visible : List (BoardItem τ)) : Nat :=
  (board.selectedKey.bind fun key => visible.findIdx? fun item => item.key == key).getD 0

/-- The row that is drawn highlighted. -/
def highlighted (board : Board τ χ π) : Option (BoardItem τ) :=
  (board.visible lowercase)[board.selectedIndex (board.visible lowercase)]?

def selected (board : Board τ χ π) : Option (BoardItem τ) :=
  board.selectedKey.bind fun key => board.items.find? fun item => item.key == key

def reselectFirst (board : Board τ χ π) : Board τ χ π :=
  { board with selectedKey := (board.visible lowercase).head?.map BoardItem.key, offset := 0 }

/-- The place so many rows further, around the end. -/
def nextIndex (board : Board τ χ π) (visible : List (BoardItem τ)) (delta : Int) : Nat :=
  ((board.selectedIndex visible + delta) % visible.length).toNat

def select (board : Board τ χ π) (delta : Int) : Board τ χ π :=
  match board.visible lowercase with
  | [] => { board with selectedKey := none }
  | item :: rest =>
      { board with
        selectedKey :=
          (item :: rest)[board.nextIndex (item :: rest) delta]?.map BoardItem.key }

def selectLast (board : Board τ χ π) : Board τ χ π :=
  { board with selectedKey := (board.visible lowercase).getLast?.map BoardItem.key }

/-- The keys that were seen, and the rows among these that a notice tells of. -/
def newlySeen : List BoardKey → List (BoardItem τ) → List BoardKey × List (BoardItem τ)
  | seen, [] => (seen, [])
  | seen, item :: items =>
      if item.key ∈ seen then newlySeen seen items
      else
        let rest := newlySeen (seen ++ [item.key]) items
        if item.actionable && item.pendingToken.isNone &&
            item.session.name.any (fun name => !(trim name).isEmpty) then
          (rest.1, item :: rest.2)
        else rest

def noteAdded (board : Board τ χ π) (items : List (BoardItem τ)) : Board τ χ π :=
  let (seen, added) := newlySeen board.seen items
  { board with
    seen := seen
    addedNotice :=
      match added with
      | [] => board.addedNotice
      | [item] => some ("Added to your board · ".toList ++ item.session.displayName)
      | _ => some ("Added to your board · ".toList ++ (toString added.length).toList ++
          " conversations".toList) }

/-- The rows that are new to the list of threads, behind the ones it has. -/
def ThreadNavigation.extend (threads : ThreadNavigation τ) (items : List (BoardItem τ)) :
    ThreadNavigation τ :=
  { threads with
    order := items.foldl (fun order item =>
      if item.key ≠ threads.current ∧ item.key ∉ order then order ++ [item.key] else order)
      threads.order }

/-- The board with other rows, before one of these is selected. -/
def withItems (board : Board τ χ π) (items : List (BoardItem τ)) : Board τ χ π :=
  { board with
    items := items
    threads := board.threads.map fun threads => ThreadNavigation.extend threads items }

/-- The key that is still one of a row that is shown. -/
def keptKey (board : Board τ χ π) (previous : Option BoardKey) : Option BoardKey :=
  previous.filter fun key =>
    (board.visible lowercase).any fun item =>
      item.key == key && matchesFilter lowercase item.toBoardItem (lowercase board.filter)

/-- The board where the key is kept, or the first row is selected. -/
def keepSelection (board : Board τ χ π) (previous : Option BoardKey) : Board τ χ π :=
  match board.keptKey lowercase previous with
  | some key => { board with selectedKey := some key }
  | none => { board with selectedKey := none }.reselectFirst lowercase

def replaceItems [LinearOrder τ] (board : Board τ χ π) (items : List (BoardItem τ)) :
    Board τ χ π :=
  ((board.noteAdded items).withItems (sortItems lowercase items)).keepSelection lowercase
    board.selectedKey

def new [LinearOrder τ] (items : List (BoardItem τ)) : Board τ χ π :=
  let items := sortItems lowercase items
  { items := items
    selectedKey := items.head?.map BoardItem.key
    seen := (items.map BoardItem.key).dedup }

/-- The board with what is remembered, before it is checked that the row is still shown. -/
def recalled (board : Board τ χ π) (memory : BoardMemory τ) : Board τ χ π :=
  { board with
    threads := memory.threads
    seen := board.seen ∪ memory.seen
    filter := memory.filter
    selectedKey := memory.selectedKey
    offset := memory.offset
    updateVersion := memory.updateVersion }

/-- The board whose selected row is shown, or the first one is. -/
def checked (board : Board τ χ π) : Board τ χ π :=
  if (board.keptKey lowercase board.selectedKey).isSome then board
  else board.reselectFirst lowercase

def restore (board : Board τ χ π) (memory : BoardMemory τ) : Board τ χ π :=
  { if memory.initialized then (board.recalled memory).checked lowercase else board with
    actionNotice := memory.notice }

/-! ### What a key does -/

def cachedNotice (item : BoardItem τ) : Text :=
  "Cached machine state · ".toList ++ item.session.displayName ++ " · ".toList ++
    item.session.sessionId ++
    "\nPress r to refresh before acting. No request was sent.".toList

/-- The question that names the row that would be removed. -/
def untrackNotice (item : BoardItem τ) : Text :=
  if item.pendingToken.isSome then
    "Hide launch entry for ".toList ++ item.session.displayName ++
      ("?\nThe agent, terminal, and any confirmed conversation stay intact." ++
        "\nEnter / x confirm · Esc cancel").toList
  else
    "Remove from board · ".toList ++ item.session.displayName ++ " @".toList ++
      item.nodeLabel.getD "here".toList ++ "?\n".toList ++ item.session.provider.text.toList ++
      " · ".toList ++ item.session.sessionId ++
      ("\nThe conversation stays saved; a running agent keeps running." ++
        "\nYou can add it again later.\nEnter / x remove · Esc back").toList

def museNotice : Text :=
  ("Muse private consultations are not available yet." ++
    "\nEnter opens the conversation; no prompt was sent.").toList

/-- A notice that a key opens, and closes again. -/
def toggleNotice (board : Board τ χ π) (title : String) (text : BoardItem τ → Text) :
    Board τ χ π :=
  if board.actionNotice.any fun notice => title.toList.isPrefixOf notice then
    { board with actionScroll := 0, actionNotice := none }
  else
    match board.selected with
    | some item =>
        { board with
          actionScroll := 0
          actionNotice := some (title.toList ++ " · ".toList ++ text item) }
    | none => { board with actionScroll := 0 }

variable (panels : Panels τ χ π)

def beginChat (board : Board τ χ π) : Board τ χ π :=
  match board.selected with
  | some item => { board with chat := some (panels.start item) }
  | none => board

def handleAddKey (board : Board τ χ π) (panel : π) (key : KeyEvent) : Board τ χ π :=
  let (closing, panel) := panels.panelKey key panel
  if closing then { board with actionNotice := panels.closingNotice panel, add := none }
  else { board with add := some panel }

def interrupt (board : Board τ χ π) : Option (BoardAction τ) × Board τ χ π :=
  match board.chat with
  | some chat =>
      if panels.closeRequested chat then (some .quit, board)
      else
        let (closed, chat) := panels.requestClose chat
        if closed then (some .quit, { board with quitWhenChatCloses := true, chat := none })
        else (none, { board with quitWhenChatCloses := true, chat := some chat })
  | none => (some .quit, board)

def chatKey (board : Board τ χ π) (key : KeyEvent) : Board τ χ π :=
  { board with chat := board.chat.bind (panels.chatKey key) }

/-- A key that is held and would approve something. -/
def held (board : Board τ χ π) (key : KeyEvent) : Bool :=
  !board.filtering && key.kind == .repeat &&
    [.enter, .f 2, .char 'x', .char 'n', .char 'U', .char '+'].contains key.code

/-- The key after which a row is removed, or not. -/
def confirmKey (board : Board τ χ π) (item : BoardItem τ) (key : KeyEvent) :
    Option (BoardAction τ) × Board τ χ π :=
  match key.code with
  | .enter | .char 'x' => (some (.untrack item), { board with confirmUntrack := none })
  | .esc | .char 'q' => (none, { board with confirmUntrack := none, actionNotice := none })
  | _ => (none, board)

/-- The keys of a notice that is shown. -/
def noticeKey (board : Board τ χ π) (key : KeyEvent) : Option (Board τ χ π) :=
  if board.actionNotice.isSome then
    match key.code with
    | .esc => some { board with actionNotice := none, actionScroll := 0 }
    | .pageDown => some { board with actionScroll := board.actionScroll + 8 }
    | .pageUp => some { board with actionScroll := board.actionScroll - 8 }
    | _ => none
  else none

def updateKey (board : Board τ χ π) (key : KeyEvent) : Option (BoardAction τ) × Board τ χ π :=
  if (key.code = .char 'y' ∨ key.code = .char 'Y') ∧ key.kind ≠ .repeat then
    (some (.update board.updateVersion), { board with updatePrompt := false })
  else
    match key.code with
    | .esc | .enter | .char 'n' | .char 'N' | .char 'q' =>
        (none, { board with updatePrompt := false })
    | _ => (none, board)

def filterKey (board : Board τ χ π) (key : KeyEvent) : Board τ χ π :=
  match key.code with
  | .esc | .enter => { board with filtering := false }
  | .backspace => { board with filter := board.filter.dropLast }.reselectFirst lowercase
  | .char value =>
      if key.control then board
      else { board with filter := board.filter ++ [value] }.reselectFirst lowercase
  | _ => board

/-- The highlighted row, where it is stale and the key would act on it. -/
def staleTarget (board : Board τ χ π) (key : KeyEvent) : Option (BoardItem τ) :=
  if [.enter, .char 'p', .char 'a', .char 'x'].contains key.code then
    board.selected.filter fun item => !item.actionable
  else none

/-- The highlighted row, where a key may act on it. -/
def target (board : Board τ χ π) : Option (BoardItem τ) :=
  board.selected.filter BoardItem.actionable

/-- The key with which a row is removed, where it is asked before. -/
def askUntrack (board : Board τ χ π) : Board τ χ π :=
  match board.target with
  | some item =>
      { board with actionNotice := some (untrackNotice item), confirmUntrack := some item }
  | none => board

def consult (board : Board τ χ π) : Board τ χ π :=
  match board.target with
  | some item =>
      if item.session.provider = .muse then { board with actionNotice := some museNotice }
      else board.beginChat panels
  | none => board

/-- The keys of the board itself. -/
def command (board : Board τ χ π) (key : KeyEvent) : Option (BoardAction τ) × Board τ χ π :=
  match key.code with
  | .char '+' => (some .add, board)
  | .up | .char 'k' => (none, board.select lowercase (-1))
  | .char 'P' =>
      if key.kind = .repeat then (none, board) else (some (.assistant board.selected), board)
  | .down | .char 'j' => (none, board.select lowercase 1)
  | .pageUp => (none, board.select lowercase (-8))
  | .pageDown => (none, board.select lowercase 8)
  | .home => (none, board.reselectFirst lowercase)
  | .end => (none, board.selectLast lowercase)
  | .char '/' => (none, { board with filtering := true })
  | .char '?' | .f 1 =>
      (none, { board with actionScroll := 0, actionNotice := some panels.boardKeysHelp })
  | .f 2 => (some .settings, board)
  | .char 'u' => (none, board.toggleNotice "CUMULATIVE USAGE" panels.usage)
  | .char 'd' => (none, board.toggleNotice "CONVERSATION DETAILS" panels.details)
  | .esc => (none, { board with filter := [] }.reselectFirst lowercase)
  | .enter => (board.target.map .open, board)
  | .char 'p' => (board.target.map .peek, board)
  | .char 'x' =>
      if board.clientActions then (none, board.askUntrack)
      else (board.target.map .untrack, board)
  | .char 'a' => (none, board.consult panels)
  | .char 'r' => (some .refresh, board)
  | .char 'U' =>
      if board.updateVersion.isSome || board.clientUpdates then
        (none, { board with updatePrompt := true })
      else (some (.update none), board)
  | .char 'n' => ((board.items.find? BoardItem.needsAttention).map .open, board)
  | .char 'q' => (some .quit, board)
  | _ => (none, board)

def key (board : Board τ χ π) (key : KeyEvent) : Option (BoardAction τ) × Board τ χ π :=
  match board.add with
  | some panel => (none, board.handleAddKey panels panel key)
  | none =>
    if key.control && key.code == .char 'c' then board.interrupt panels
    else if board.chat.isSome then (none, board.chatKey panels key)
    else if board.held key then (none, board)
    else
      match board.confirmUntrack with
      | some item => board.confirmKey item key
      | none =>
        match board.noticeKey key with
        | some noticed => (none, noticed)
        | none =>
          if board.updatePrompt then board.updateKey key
          else if board.filtering then (none, board.filterKey lowercase key)
          else
            match board.staleTarget key with
            | some item =>
                (none, { board with actionScroll := 0, actionNotice := some (cachedNotice item) })
            | none => board.command lowercase panels key

def addKeyBlocked (board : Board τ χ π) (key : KeyEvent) (width height : Nat) : Bool :=
  board.add.isSome && (width < 60 || height < 20) && key.code != .esc &&
    !(key.code == .char 'c' && key.control)

/-- A key as it arrives, with the size of the terminal. -/
def event (board : Board τ χ π) (ev : KeyEvent) (width height : Nat) :
    Option (BoardAction τ) × Board τ χ π :=
  if ev.kind = .release then (none, board)
  else if board.addKeyBlocked ev width height then (none, board)
  else board.key lowercase panels ev

end Board

/-! ### The highlighted row -/

section Selection

variable {τ χ π : Type} (lowercase : Text → Text)

/-- A row is selected where one is shown, and it is one that is shown. -/
structure Selected (board : Board τ χ π) : Prop where
  none_iff : board.selectedKey = none ↔ board.visible lowercase = []
  shown : ∀ key, board.selectedKey = some key →
    ∃ row ∈ board.visible lowercase, row.key = key

variable {lowercase} {board : Board τ χ π}

theorem Selected.of_row (row? : Option (BoardItem τ))
    (hkey : board.selectedKey = row?.map BoardItem.key)
    (hnone : row? = none ↔ board.visible lowercase = [])
    (hmem : ∀ row, row? = some row → row ∈ board.visible lowercase) :
    Selected lowercase board := by
  constructor
  · rw [hkey, Option.map_eq_none_iff]
    exact hnone
  · intro key hk
    rw [hkey, Option.map_eq_some_iff] at hk
    obtain ⟨row, hrow, rfl⟩ := hk
    exact ⟨row, hmem row hrow, rfl⟩

variable (lowercase) in
theorem reselectFirst_selected (board : Board τ χ π) :
    Selected lowercase (board.reselectFirst lowercase) := by
  refine Selected.of_row ((board.visible lowercase).head?) rfl ?_ ?_
  · exact List.head?_eq_none_iff
  · intro row hrow
    exact List.mem_of_mem_head? hrow

theorem selectLast_selected (board : Board τ χ π) :
    Selected lowercase (board.selectLast lowercase) := by
  refine Selected.of_row ((board.visible lowercase).getLast?) rfl ?_ ?_
  · exact List.getLast?_eq_none_iff
  · intro row hrow
    exact List.mem_of_getLast? hrow

theorem nextIndex_lt (board : Board τ χ π) {visible : List (BoardItem τ)}
    (hvisible : visible ≠ []) (delta : Int) :
    board.nextIndex visible delta < visible.length := by
  have hlength : (0 : Int) < visible.length :=
    Int.natCast_pos.mpr (List.length_pos_iff.mpr hvisible)
  have hlt := Int.emod_lt_of_pos (board.selectedIndex visible + delta) hlength
  have hle := Int.emod_nonneg (board.selectedIndex visible + delta) hlength.ne'
  rw [Board.nextIndex]
  omega

variable (lowercase) in
theorem select_selected (board : Board τ χ π) (delta : Int) :
    Selected lowercase (board.select lowercase delta) := by
  unfold Board.select
  split
  case h_1 hnil =>
    refine Selected.of_row none rfl (iff_of_true rfl hnil) ?_
    intro row hrow
    cases hrow
  case h_2 item rest hrows =>
    have hplace := nextIndex_lt board (List.cons_ne_nil item rest) delta
    refine Selected.of_row ((item :: rest)[board.nextIndex (item :: rest) delta]?) rfl ?_ ?_
    · refine iff_of_false ?_ ?_
      · rw [List.getElem?_eq_getElem hplace]
        exact Option.some_ne_none _
      · exact fun hnil => List.cons_ne_nil item rest (hrows.symm.trans hnil)
    · intro row hrow
      exact hrows.symm ▸ List.mem_of_getElem? hrow

theorem keptKey_shown {previous : Option BoardKey} {key : BoardKey}
    (h : board.keptKey lowercase previous = some key) :
    ∃ row ∈ board.visible lowercase, row.key = key := by
  obtain ⟨-, hany⟩ := Option.filter_eq_some_iff.mp h
  obtain ⟨row, hrow, hkey⟩ := List.any_eq_true.mp hany
  rw [Bool.and_eq_true, beq_iff_eq] at hkey
  exact ⟨row, hrow, hkey.1⟩

/-- A key that is kept is selected. -/
theorem Selected.of_kept (previous : Option BoardKey) {key : BoardKey}
    (h : board.keptKey lowercase previous = some key) (hkey : board.selectedKey = some key) :
    Selected lowercase board := by
  obtain ⟨row, hrow, hrowKey⟩ := keptKey_shown h
  constructor
  · rw [hkey]
    refine iff_of_false (Option.some_ne_none key) ?_
    exact List.ne_nil_of_mem hrow
  · intro key' hkey'
    obtain rfl : key = key' := Option.some.inj (hkey.symm.trans hkey')
    exact ⟨row, hrow, hrowKey⟩

theorem keepSelection_selected (board : Board τ χ π) (previous : Option BoardKey) :
    Selected lowercase (board.keepSelection lowercase previous) := by
  unfold Board.keepSelection
  split
  case h_1 key hkept => exact Selected.of_kept previous hkept rfl
  case h_2 => exact reselectFirst_selected lowercase _

variable (lowercase) in
theorem replaceItems_selected [LinearOrder τ] (board : Board τ χ π) (items : List (BoardItem τ)) :
    Selected lowercase (board.replaceItems lowercase items) :=
  keepSelection_selected _ _

theorem checked_selected (board : Board τ χ π) :
    Selected lowercase (board.checked lowercase) := by
  unfold Board.checked
  split
  case isTrue hkept =>
    obtain ⟨key, hkey⟩ := Option.isSome_iff_exists.mp hkept
    exact Selected.of_kept _ hkey (Option.filter_eq_some_iff.mp hkey).1
  case isFalse => exact reselectFirst_selected lowercase board

theorem restore_selected (h : Selected lowercase board) (memory : BoardMemory τ) :
    Selected lowercase (board.restore lowercase memory) := by
  have hrestored : Selected lowercase
      (if memory.initialized then (board.recalled memory).checked lowercase else board) := by
    split
    · exact checked_selected _
    · exact h
  exact ⟨hrestored.none_iff, hrestored.shown⟩

variable (lowercase) in
theorem new_selected [LinearOrder τ] (items : List (BoardItem τ)) (hempty : lowercase [] = []) :
    Selected lowercase (Board.new lowercase items : Board τ χ π) := by
  have hvisible : (Board.new lowercase items : Board τ χ π).visible lowercase =
      sortItems lowercase items := by
    refine List.filter_eq_self.mpr ?_
    intro item _
    have hneedle : lowercase (Board.new lowercase items : Board τ χ π).filter = [] := hempty
    simp [matchesFilter, hneedle]
  refine Selected.of_row ((sortItems lowercase items).head?) rfl ?_ ?_
  · rw [hvisible]
    exact List.head?_eq_none_iff
  · intro row hrow
    rw [hvisible]
    exact List.mem_of_mem_head? hrow

variable (lowercase) in
/-- The highlighted row has the key of `item`; it is `item` where no two rows have one key. -/
def ForRow (board : Board τ χ π) (item : BoardItem τ) : Prop :=
  ∃ row, board.highlighted lowercase = some row ∧ row.key = item.key ∧ item.actionable = true ∧
    ((board.items.map BoardItem.key).Nodup → row = item)

theorem highlighted_of_key (h : Selected lowercase board) {key : BoardKey}
    (hkey : board.selectedKey = some key) :
    ∃ row ∈ board.visible lowercase, board.highlighted lowercase = some row ∧ row.key = key := by
  obtain ⟨shown, hshown, hshownKey⟩ := h.shown key hkey
  cases hplace : (board.visible lowercase).findIdx? (fun item => item.key == key) with
  | none =>
      have hnone := List.findIdx?_eq_none_iff.mp hplace shown hshown
      rw [beq_eq_false_iff_ne] at hnone
      exact absurd hshownKey hnone
  | some place =>
      obtain ⟨hlt, hrow, -⟩ := List.findIdx?_eq_some_iff_getElem.mp hplace
      have hindex : board.selectedIndex (board.visible lowercase) = place := by
        rw [Board.selectedIndex, hkey, Option.bind_some, hplace, Option.getD_some]
      refine ⟨(board.visible lowercase)[place], List.getElem_mem hlt, ?_, beq_iff_eq.mp hrow⟩
      rw [Board.highlighted, hindex, List.getElem?_eq_getElem hlt]

/-- What a key acts on is the highlighted row. -/
theorem forRow_of_target (h : Selected lowercase board) (hmain : board.threads = none)
    {item : BoardItem τ} (htarget : board.target = some item) : ForRow lowercase board item := by
  obtain ⟨hselected, hactionable⟩ := Option.filter_eq_some_iff.mp htarget
  obtain ⟨key, hkey, hfind⟩ := Option.bind_eq_some_iff.mp hselected
  obtain ⟨row, hrow, hhighlighted, hrowKey⟩ := highlighted_of_key h hkey
  have hitemKey := List.find?_some hfind
  rw [beq_iff_eq] at hitemKey
  refine ⟨row, hhighlighted, hrowKey.trans hitemKey.symm, hactionable, ?_⟩
  intro hnodup
  rw [Board.visible, hmain] at hrow
  have hrowMem := (List.mem_filter.mp hrow).1
  exact List.inj_on_of_nodup_map hnodup hrowMem (List.mem_of_find?_eq_some hfind)
    (hrowKey.trans hitemKey.symm)

end Selection

/-! ### What a key can do -/

section Handled

variable {τ χ π : Type} (lowercase : Text → Text)

/-- No step to or from a question whether a row is to be removed. -/
structure Kept (board board' : Board τ χ π) : Prop where
  threads : board.threads = none → board'.threads = none
  clientActions : board'.clientActions = board.clientActions
  confirmUntrack : board'.confirmUntrack = board.confirmUntrack
  typing : board'.filtering = true → board.filtering = true ∨ board.confirmUntrack = none
  selected : Selected lowercase board → Selected lowercase board'

/-- An action that is for no row, or for another one than the highlighted. -/
def Elsewhere (ev : KeyEvent) : BoardAction τ → Prop
  | .open _ => ev.code ≠ .enter
  | .peek _ | .untrack _ => False
  | _ => True

/-- An action on a row, and the key that it is for. -/
inductive Acts (ev : KeyEvent) (item : BoardItem τ) : Bool → BoardAction τ → Prop where
  | open (clientActions : Bool) (hcode : ev.code = .enter) : Acts ev item clientActions (.open item)
  | peek (clientActions : Bool) (hcode : ev.code = .char 'p') :
      Acts ev item clientActions (.peek item)
  | untrack (hcode : ev.code = .char 'x') : Acts ev item false (.untrack item)

/-- What a key can do. -/
inductive Handled (board : Board τ χ π) (ev : KeyEvent) :
    Option (BoardAction τ) → Board τ χ π → Prop where
  | kept {action : Option (BoardAction τ)} {board' : Board τ χ π}
      (hkept : Kept lowercase board board') (haction : ∀ a ∈ action, Elsewhere ev a) :
      Handled board ev action board'
  | acted {action : BoardAction τ} {item : BoardItem τ} (htarget : board.target = some item)
      (hconfirm : board.confirmUntrack = none)
      (hacts : Acts ev item board.clientActions action) : Handled board ev (some action) board
  | asked {item : BoardItem τ} (hcode : ev.code = .char 'x') (hkind : ev.kind ≠ .repeat)
      (hclient : board.clientActions = true) (hfiltering : board.filtering = false)
      (hconfirm : board.confirmUntrack = none) (htarget : board.target = some item) :
      Handled board ev none
        { board with
          actionNotice := some (Board.untrackNotice item), confirmUntrack := some item }
  | cancelled {item : BoardItem τ} (hconfirm : board.confirmUntrack = some item) :
      Handled board ev none { board with confirmUntrack := none, actionNotice := none }
  | confirmed {item : BoardItem τ} (hcode : ev.code = .enter ∨ ev.code = .char 'x')
      (hkind : board.filtering = false → ev.kind ≠ .repeat)
      (hconfirm : board.confirmUntrack = some item) :
      Handled board ev (some (.untrack item)) { board with confirmUntrack := none }

variable {lowercase} {board : Board τ χ π} {ev : KeyEvent}

theorem Kept.refl (board : Board τ χ π) : Kept lowercase board board :=
  ⟨id, rfl, rfl, .inl, id⟩

/-- The rows and their selection stay, and so does what is asked. -/
theorem Kept.of_eq {board' : Board τ χ π} (hitems : board'.items = board.items)
    (hthreads : board'.threads = board.threads) (hfilter : board'.filter = board.filter)
    (hkey : board'.selectedKey = board.selectedKey)
    (hfiltering : board'.filtering = board.filtering)
    (hclient : board'.clientActions = board.clientActions)
    (hconfirm : board'.confirmUntrack = board.confirmUntrack) : Kept lowercase board board' where
  threads := hthreads.trans
  clientActions := hclient
  confirmUntrack := hconfirm
  typing := fun htyping => .inl (hfiltering ▸ htyping)
  selected := by
    intro h
    have hvisible : board'.visible lowercase = board.visible lowercase := by
      rw [Board.visible, Board.visible, hitems, hthreads, hfilter]
    exact ⟨by rw [hkey, hvisible]; exact h.none_iff, by rw [hkey, hvisible]; exact h.shown⟩

/-- Where nothing is returned and the board is kept. -/
theorem Handled.quiet {board' : Board τ χ π} (hkept : Kept lowercase board board') :
    Handled lowercase board ev none board' :=
  .kept hkept fun a ha => absurd ha (Option.not_mem_none a)

/-- A notice that is shown, or scrolled. -/
theorem Kept.notice (board : Board τ χ π) (notice : Option Text) (scroll : Nat) :
    Kept lowercase board { board with actionNotice := notice, actionScroll := scroll } :=
  .of_eq rfl rfl rfl rfl rfl rfl rfl

theorem toggleNotice_kept (board : Board τ χ π) (title : String) (text : BoardItem τ → Text) :
    Kept lowercase board (board.toggleNotice title text) := by
  unfold Board.toggleNotice
  split
  case isTrue => exact Kept.notice board none 0
  case isFalse =>
    split
    case h_1 item _ => exact Kept.notice board (some (title.toList ++ " · ".toList ++ text item)) 0
    case h_2 => exact Kept.notice board board.actionNotice 0

/-- Another row is selected, or none where none is shown. -/
theorem Kept.moved {board' : Board τ χ π} (hthreads : board'.threads = board.threads)
    (hclient : board'.clientActions = board.clientActions)
    (hconfirm : board'.confirmUntrack = board.confirmUntrack)
    (hfiltering : board'.filtering = board.filtering) (hselected : Selected lowercase board') :
    Kept lowercase board board' :=
  ⟨hthreads.trans, hclient, hconfirm, fun htyping => .inl (hfiltering ▸ htyping),
    fun _ => hselected⟩

variable (lowercase) in
theorem keepSelection_fields (board : Board τ χ π) (previous : Option BoardKey) :
    ∃ key offset, board.keepSelection lowercase previous =
      { board with selectedKey := key, offset := offset } := by
  unfold Board.keepSelection
  split
  · exact ⟨_, board.offset, rfl⟩
  · exact ⟨_, 0, rfl⟩

variable (lowercase) in
theorem checked_fields (board : Board τ χ π) :
    ∃ key offset, board.checked lowercase =
      { board with selectedKey := key, offset := offset } := by
  unfold Board.checked
  split
  · exact ⟨board.selectedKey, board.offset, rfl⟩
  · exact ⟨_, 0, rfl⟩

variable (lowercase) in
theorem select_fields (board : Board τ χ π) (delta : Int) :
    ∃ key, board.select lowercase delta = { board with selectedKey := key } := by
  unfold Board.select
  split
  · exact ⟨none, rfl⟩
  · exact ⟨_, rfl⟩

theorem select_kept (board : Board τ χ π) (delta : Int) :
    Kept lowercase board (board.select lowercase delta) := by
  have hselected := select_selected lowercase board delta
  obtain ⟨key, hkey⟩ := select_fields lowercase board delta
  rw [hkey] at hselected ⊢
  exact .moved rfl rfl rfl rfl hselected

theorem filter_kept (board : Board τ χ π) (filter : Text) :
    Kept lowercase board ({ board with filter := filter }.reselectFirst lowercase) :=
  .moved rfl rfl rfl rfl (reselectFirst_selected lowercase _)

theorem filterKey_kept (board : Board τ χ π) (ev : KeyEvent) :
    Kept lowercase board (board.filterKey lowercase ev) := by
  have hleave : Kept lowercase board { board with filtering := false } :=
    ⟨id, rfl, rfl, nofun, fun h => ⟨h.none_iff, h.shown⟩⟩
  unfold Board.filterKey
  split
  case h_1 => exact hleave
  case h_2 => exact hleave
  case h_3 => exact filter_kept board _
  case h_4 value _ =>
    split
    · exact .refl board
    · exact filter_kept board _
  case h_5 => exact .refl board

theorem consult_kept (panels : Panels τ χ π) (board : Board τ χ π) :
    Kept lowercase board (board.consult panels) := by
  unfold Board.consult Board.beginChat
  split
  · split
    · exact .notice board _ board.actionScroll
    · split
      · exact .of_eq rfl rfl rfl rfl rfl rfl rfl
      · exact .refl board
  · exact .refl board

theorem handleAddKey_kept (panels : Panels τ χ π) (board : Board τ χ π) (panel : π) :
    Kept lowercase board (board.handleAddKey panels panel ev) := by
  unfold Board.handleAddKey
  split
  split
  · exact .of_eq rfl rfl rfl rfl rfl rfl rfl
  · exact .of_eq rfl rfl rfl rfl rfl rfl rfl

/-- Ctrl-C leaves the board, or closes the consultation. -/
theorem interrupt_handled (panels : Panels τ χ π) (board : Board τ χ π) :
    Handled lowercase board ev (board.interrupt panels).1 (board.interrupt panels).2 := by
  have hquit : ∀ a ∈ some (BoardAction.quit : BoardAction τ), Elsewhere ev a := by
    intro a ha
    cases ha
    trivial
  unfold Board.interrupt
  split
  · split
    · exact .kept (.refl board) hquit
    · split
      split
      · exact .kept (.of_eq rfl rfl rfl rfl rfl rfl rfl) hquit
      · exact .quiet (.of_eq rfl rfl rfl rfl rfl rfl rfl)
  · exact .kept (.refl board) hquit

theorem noticeKey_kept {board' : Board τ χ π} (h : board.noticeKey ev = some board') :
    Kept lowercase board board' := by
  unfold Board.noticeKey at h
  split at h
  · split at h
    · cases h
      exact .notice board none 0
    · cases h
      exact .notice board board.actionNotice _
    · cases h
      exact .notice board board.actionNotice _
    · cases h
  · cases h

theorem updateKey_handled (board : Board τ χ π) :
    Handled lowercase board ev (board.updateKey ev).1 (board.updateKey ev).2 := by
  have hclosed : Kept lowercase board { board with updatePrompt := false } :=
    .of_eq rfl rfl rfl rfl rfl rfl rfl
  unfold Board.updateKey
  split
  · refine .kept hclosed ?_
    intro a ha
    cases ha
    trivial
  · split
    case h_6 => exact .quiet (.refl board)
    all_goals exact .quiet hclosed

/-- A key that approves something and is not held is no repetition. -/
theorem not_repeat (hheld : board.held ev = false) (hfiltering : board.filtering = false)
    (hcode : ev.code = .enter ∨ ev.code = .char 'x') : ev.kind ≠ .repeat := by
  intro hkind
  rw [Board.held, hfiltering, hkind] at hheld
  obtain hcode | hcode := hcode
  · rw [hcode] at hheld
    cases hheld
  · rw [hcode] at hheld
    cases hheld

theorem confirmKey_handled {item : BoardItem τ} (hconfirm : board.confirmUntrack = some item)
    (hheld : board.held ev = false) :
    Handled lowercase board ev (board.confirmKey item ev).1 (board.confirmKey item ev).2 := by
  have happroved (hcode : ev.code = .enter ∨ ev.code = .char 'x') :
      Handled lowercase board ev (some (.untrack item)) { board with confirmUntrack := none } :=
    .confirmed hcode (fun hfiltering => not_repeat hheld hfiltering hcode) hconfirm
  unfold Board.confirmKey
  split
  case h_1 hcode => exact happroved (.inl hcode)
  case h_2 hcode => exact happroved (.inr hcode)
  case h_3 => exact .cancelled hconfirm
  case h_4 => exact .cancelled hconfirm
  case h_5 => exact .quiet (.refl board)

/-- An action on the row a key may act on, if there is one. -/
theorem target_handled (hconfirm : board.confirmUntrack = none)
    {act : BoardItem τ → BoardAction τ}
    (hacts : ∀ item, Acts ev item board.clientActions (act item)) :
    Handled lowercase board ev (board.target.map act) board := by
  cases htarget : board.target with
  | none => exact .quiet (.refl board)
  | some item => exact .acted htarget hconfirm (hacts item)

theorem untrackKey_handled (hcode : ev.code = .char 'x') (hheld : board.held ev = false)
    (hfiltering : board.filtering = false) (hconfirm : board.confirmUntrack = none)
    (hclient : board.clientActions = true) :
    Handled lowercase board ev none board.askUntrack := by
  unfold Board.askUntrack
  split
  case h_1 item htarget =>
    exact .asked hcode (not_repeat hheld hfiltering (.inr hcode)) hclient hfiltering hconfirm
      htarget
  case h_2 => exact .quiet (.refl board)

/-- An action that needs no row, of a board that stays. -/
theorem Handled.elsewhere {action : BoardAction τ} (haction : Elsewhere ev action) :
    Handled lowercase board ev (some action) board := by
  refine .kept (.refl board) ?_
  intro a ha
  cases ha
  exact haction

theorem command_handled (panels : Panels τ χ π) (hheld : board.held ev = false)
    (hfiltering : board.filtering = false) (hconfirm : board.confirmUntrack = none) :
    Handled lowercase board ev (board.command lowercase panels ev).1
      (board.command lowercase panels ev).2 := by
  have hslash : Kept lowercase board { board with filtering := true } :=
    ⟨id, rfl, rfl, fun _ => .inr hconfirm, fun h => ⟨h.none_iff, h.shown⟩⟩
  unfold Board.command
  split
  case h_1 => exact .elsewhere trivial
  case h_2 => exact .quiet (select_kept board (-1))
  case h_3 => exact .quiet (select_kept board (-1))
  case h_4 =>
    split
    · exact .quiet (.refl board)
    · exact .elsewhere trivial
  case h_5 => exact .quiet (select_kept board 1)
  case h_6 => exact .quiet (select_kept board 1)
  case h_7 => exact .quiet (select_kept board (-8))
  case h_8 => exact .quiet (select_kept board 8)
  case h_9 => exact .quiet (.moved rfl rfl rfl rfl (reselectFirst_selected lowercase board))
  case h_10 => exact .quiet (.moved rfl rfl rfl rfl (selectLast_selected board))
  case h_11 => exact .quiet hslash
  case h_12 => exact .quiet (.notice board _ 0)
  case h_13 => exact .quiet (.notice board _ 0)
  case h_14 => exact .elsewhere trivial
  case h_15 => exact .quiet (toggleNotice_kept board _ _)
  case h_16 => exact .quiet (toggleNotice_kept board _ _)
  case h_17 => exact .quiet (filter_kept board [])
  case h_18 hcode => exact target_handled hconfirm fun item => .open _ hcode
  case h_19 hcode => exact target_handled hconfirm fun item => .peek _ hcode
  case h_20 hcode =>
    split
    case isTrue hclient =>
      exact untrackKey_handled hcode hheld hfiltering hconfirm hclient
    case isFalse hclient =>
      refine target_handled hconfirm fun item => ?_
      rw [eq_false_of_ne_true hclient]
      exact .untrack hcode
  case h_21 => exact .quiet (consult_kept panels board)
  case h_22 => exact .elsewhere trivial
  case h_23 =>
    split
    · exact .quiet (.of_eq rfl rfl rfl rfl rfl rfl rfl)
    · exact .elsewhere trivial
  case h_24 hcode =>
    cases board.items.find? BoardItem.needsAttention with
    | none => exact .quiet (.refl board)
    | some item =>
        refine .elsewhere ?_
        intro henter
        cases hcode.symm.trans henter
  case h_25 => exact .elsewhere trivial
  case h_26 => exact .quiet (.refl board)

theorem key_handled (panels : Panels τ χ π) (board : Board τ χ π) (ev : KeyEvent) :
    Handled lowercase board ev (board.key lowercase panels ev).1
      (board.key lowercase panels ev).2 := by
  unfold Board.key
  split
  case h_1 panel _ => exact .quiet (handleAddKey_kept panels board panel)
  case h_2 =>
    split
    case isTrue => exact interrupt_handled panels board
    case isFalse =>
      split
      case isTrue => exact .quiet (.of_eq rfl rfl rfl rfl rfl rfl rfl)
      case isFalse =>
        split
        case isTrue => exact .quiet (.refl board)
        case isFalse hheld =>
          have hheld := eq_false_of_ne_true hheld
          split
          case h_1 item hconfirm => exact confirmKey_handled hconfirm hheld
          case h_2 hconfirm =>
            split
            case h_1 noticed hnoticed => exact .quiet (noticeKey_kept hnoticed)
            case h_2 =>
              split
              case isTrue => exact updateKey_handled board
              case isFalse =>
                split
                case isTrue => exact .quiet (filterKey_kept board ev)
                case isFalse hfiltering =>
                  split
                  · exact .quiet (.notice board _ 0)
                  · exact command_handled panels hheld (eq_false_of_ne_true hfiltering) hconfirm

variable (lowercase) in
theorem event_handled (panels : Panels τ χ π) (board : Board τ χ π) (ev : KeyEvent)
    (width height : Nat) :
    Handled lowercase board ev (board.event lowercase panels ev width height).1
      (board.event lowercase panels ev width height).2 := by
  unfold Board.event
  split
  · exact .quiet (.refl board)
  · split
    · exact .quiet (.refl board)
    · exact key_handled panels board ev

end Handled

/-! ### Runs -/

/-- What happens to a board of the terminal: a key, other rows, or what is remembered of an
earlier board, which has no list of threads. -/
inductive Call (τ : Type) where
  | key (ev : KeyEvent) (width height : Nat)
  | replaceItems (items : List (BoardItem τ))
  | restore (memory : BoardMemory τ) (main : memory.threads = none)

section Run

variable {τ χ π : Type} [LinearOrder τ] (lowercase : Text → Text) (panels : Panels τ χ π)

def perform : Call τ → Board τ χ π → Option (BoardAction τ) × Board τ χ π
  | .key ev width height, board => board.event lowercase panels ev width height
  | .replaceItems items, board => (none, board.replaceItems lowercase items)
  | .restore memory _, board => (none, board.restore lowercase memory)

/-- What the loop changes between the calls: notices, the panels and the offer of an update. -/
structure Outside (board board' : Board τ χ π) : Prop where
  items : board'.items = board.items
  threads : board'.threads = board.threads
  filter : board'.filter = board.filter
  selectedKey : board'.selectedKey = board.selectedKey
  filtering : board'.filtering = board.filtering
  clientActions : board'.clientActions = board.clientActions
  confirmUntrack : board'.confirmUntrack = board.confirmUntrack

/-- The board as it is opened. -/
def opened (items : List (BoardItem τ)) (memory : Option (BoardMemory τ))
    (clientActions clientUpdates : Bool) : Board τ χ π :=
  { (memory.elim (Board.new lowercase items) fun memory =>
      (Board.new lowercase items).restore lowercase memory) with
    clientActions := clientActions
    clientUpdates := clientUpdates }

/-- A key that is held down is no answer, and the question was asked for the highlighted row. -/
structure AskedFor (e : Entry (Board τ χ π) (Call τ) (Option (BoardAction τ)))
    (item : BoardItem τ) : Prop where
  key : ∃ ev width height, e.call = .key ev width height ∧ ev.code = .char 'x' ∧
    ev.kind ≠ .repeat
  quiet : e.result = none
  unasked : e.before.confirmUntrack = none
  row : ForRow lowercase e.before item
  named : (perform lowercase panels e.call e.before).2.actionNotice =
    some (Board.untrackNotice item)

/-- It was asked for the item, and this question is still open. -/
def Asked (entries : List (Entry (Board τ χ π) (Call τ) (Option (BoardAction τ))))
    (item : BoardItem τ) : Prop :=
  ∃ pre asked between, entries = pre ++ asked :: between ∧
    AskedFor lowercase panels asked item ∧
    ∀ e ∈ between, e.before.confirmUntrack = some item

/-- What an action that a key returns is for, after so many entries. -/
def Concerns (clientActions : Bool)
    (pre : List (Entry (Board τ χ π) (Call τ) (Option (BoardAction τ))))
    (before : Board τ χ π) (ev : KeyEvent) : BoardAction τ → Prop
  | .open item => ev.code = .enter → ForRow lowercase before item
  | .peek item => ev.code = .char 'p' ∧ ForRow lowercase before item
  | .untrack item =>
      if clientActions then
        (ev.code = .enter ∨ ev.code = .char 'x') ∧ ev.kind ≠ .repeat ∧
          before.confirmUntrack = some item ∧ Asked lowercase panels pre item
      else ev.code = .char 'x' ∧ ForRow lowercase before item
  | _ => True

structure Sound (clientActions : Bool)
    (entries : List (Entry (Board τ χ π) (Call τ) (Option (BoardAction τ))))
    (board : Board τ χ π) : Prop where
  main : board.threads = none
  client : board.clientActions = clientActions
  selected : Selected lowercase board
  confirm : ∀ item, board.confirmUntrack = some item →
    clientActions = true ∧ board.filtering = false ∧ Asked lowercase panels entries item

variable {lowercase panels}
variable {clientActions : Bool} {board board' : Board τ χ π}
variable {entries : List (Entry (Board τ χ π) (Call τ) (Option (BoardAction τ)))}

theorem Asked.concat {item : BoardItem τ} (h : Asked lowercase panels entries item)
    {e : Entry (Board τ χ π) (Call τ) (Option (BoardAction τ))}
    (he : e.before.confirmUntrack = some item) :
    Asked lowercase panels (entries ++ [e]) item := by
  obtain ⟨pre, asked, between, rfl, hasked, hbetween⟩ := h
  refine ⟨pre, asked, between ++ [e], by simp, hasked, ?_⟩
  intro e' he'
  obtain he' | he' := List.mem_append.mp he'
  · exact hbetween e' he'
  · obtain rfl := List.mem_singleton.mp he'
    exact he

theorem Sound.outside (h : Sound lowercase panels clientActions entries board)
    (hout : Outside board board') : Sound lowercase panels clientActions entries board' where
  main := hout.threads.trans h.main
  client := hout.clientActions.trans h.client
  selected :=
    (Kept.of_eq hout.items hout.threads hout.filter hout.selectedKey hout.filtering
      hout.clientActions hout.confirmUntrack).selected h.selected
  confirm := by
    rw [hout.confirmUntrack, hout.filtering]
    exact h.confirm

/-- A step that asks nothing and keeps what was asked. -/
theorem Sound.kept (h : Sound lowercase panels clientActions entries board)
    (hkept : Kept lowercase board board') (call : Call τ) (result : Option (BoardAction τ)) :
    Sound lowercase panels clientActions (entries ++ [⟨board, call, result⟩]) board' where
  main := hkept.threads h.main
  client := hkept.clientActions.trans h.client
  selected := hkept.selected h.selected
  confirm := by
    intro item hitem
    rw [hkept.confirmUntrack] at hitem
    obtain ⟨hclient, hfiltering, hasked⟩ := h.confirm item hitem
    refine ⟨hclient, ?_, hasked.concat hitem⟩
    -- who writes a filter is asked nothing
    refine eq_false_of_ne_true fun htyping => ?_
    obtain hbefore | hnone := hkept.typing htyping
    · exact Bool.false_ne_true (hfiltering.symm.trans hbefore)
    · exact Option.some_ne_none item (hitem.symm.trans hnone)

/-- A step after which nothing is asked. -/
theorem Sound.answered (h : Sound lowercase panels clientActions entries board)
    (call : Call τ) (result : Option (BoardAction τ)) (notice : Option Text) :
    Sound lowercase panels clientActions (entries ++ [⟨board, call, result⟩])
      { board with confirmUntrack := none, actionNotice := notice } where
  main := h.main
  client := h.client
  selected := ⟨h.selected.none_iff, h.selected.shown⟩
  confirm := by
    intro item hitem
    cases hitem

theorem Sound.asked (h : Sound lowercase panels clientActions entries board)
    {ev : KeyEvent} {width height : Nat} {item : BoardItem τ} (hcode : ev.code = .char 'x')
    (hkind : ev.kind ≠ .repeat) (hclient : board.clientActions = true)
    (hfiltering : board.filtering = false) (hconfirm : board.confirmUntrack = none)
    (htarget : board.target = some item)
    (hevent : board.event lowercase panels ev width height =
      (none, { board with
        actionNotice := some (Board.untrackNotice item), confirmUntrack := some item })) :
    Sound lowercase panels clientActions (entries ++ [⟨board, .key ev width height, none⟩])
      { board with
        actionNotice := some (Board.untrackNotice item), confirmUntrack := some item } where
  main := h.main
  client := h.client
  selected := ⟨h.selected.none_iff, h.selected.shown⟩
  confirm := by
    intro named hnamed
    obtain rfl : item = named := Option.some.inj hnamed
    refine ⟨h.client.symm.trans hclient, hfiltering, entries, _, [], rfl, ?_,
      fun e he => absurd he List.not_mem_nil⟩
    exact
      { key := ⟨ev, width, height, rfl, hcode, hkind⟩
        quiet := rfl
        unasked := hconfirm
        row := forRow_of_target h.selected h.main htarget
        named := congrArg (fun outcome => outcome.2.actionNotice) hevent }

theorem Sound.key (h : Sound lowercase panels clientActions entries board)
    (ev : KeyEvent) (width height : Nat) :
    Sound lowercase panels clientActions
      (entries ++ [⟨board, .key ev width height,
        (board.event lowercase panels ev width height).1⟩])
      (board.event lowercase panels ev width height).2 := by
  have hhandled := event_handled lowercase panels board ev width height
  generalize houtcome : board.event lowercase panels ev width height = outcome at hhandled ⊢
  obtain ⟨action, next⟩ := outcome
  cases hhandled with
  | kept hkept _ => exact h.kept hkept _ _
  | acted _ _ _ => exact h.kept (.refl _) _ _
  | asked hcode hkind hclient hfiltering hconfirm htarget =>
      exact h.asked hcode hkind hclient hfiltering hconfirm htarget houtcome
  | cancelled _ => exact h.answered _ _ none
  | confirmed _ _ _ => exact h.answered _ _ _

/-- An action is returned for the row it concerns. -/
theorem Sound.concerns (h : Sound lowercase panels clientActions entries board)
    {ev : KeyEvent} {width height : Nat} {action : BoardAction τ}
    (haction : (board.event lowercase panels ev width height).1 = some action) :
    Concerns lowercase panels clientActions entries board ev action := by
  have hhandled := event_handled lowercase panels board ev width height
  rw [haction] at hhandled
  generalize (board.event lowercase panels ev width height).2 = next at hhandled
  cases hhandled with
  | kept _ helsewhere =>
      have helsewhere := helsewhere action rfl
      cases action with
      | «open» item => exact fun henter => absurd henter helsewhere
      | peek item => exact helsewhere.elim
      | untrack item => exact helsewhere.elim
      | assistant _ => trivial
      | settings => trivial
      | add => trivial
      | refresh => trivial
      | update _ => trivial
      | quit => trivial
  | acted htarget hconfirm hacts =>
      have hrow := forRow_of_target h.selected h.main htarget
      rw [h.client] at hacts
      cases hacts with
      | «open» _ _ => exact fun _ => hrow
      | peek _ hcode => exact ⟨hcode, hrow⟩
      | untrack hcode => exact ⟨hcode, hrow⟩
  | confirmed hcode hkind hconfirm =>
      obtain ⟨hclient, hfiltering, hasked⟩ := h.confirm _ hconfirm
      rw [Concerns, hclient, if_pos rfl]
      exact ⟨hcode, hkind hfiltering, hconfirm, hasked⟩

theorem replaceItems_kept (board : Board τ χ π) (items : List (BoardItem τ)) :
    Kept lowercase board (board.replaceItems lowercase items) := by
  have hselected := replaceItems_selected lowercase board items
  obtain ⟨key, offset, hfields⟩ := keepSelection_fields lowercase
    ((board.noteAdded items).withItems (sortItems lowercase items)) board.selectedKey
  unfold Board.replaceItems at hselected ⊢
  rw [hfields] at hselected ⊢
  refine ⟨?_, rfl, rfl, .inl, fun _ => hselected⟩
  intro hmain
  exact Option.map_eq_none_iff.mpr hmain

variable (lowercase) in
theorem restore_kept (board : Board τ χ π) (memory : BoardMemory τ)
    (hmain : memory.threads = none) :
    Kept lowercase board (board.restore lowercase memory) := by
  have hselected (h : Selected lowercase board) := restore_selected h memory
  unfold Board.restore at hselected ⊢
  by_cases hinitialized : memory.initialized = true
  · obtain ⟨key, offset, hfields⟩ := checked_fields lowercase
      (board.recalled memory)
    rw [if_pos hinitialized, hfields] at hselected ⊢
    exact ⟨fun _ => hmain, rfl, rfl, .inl, hselected⟩
  · rw [if_neg hinitialized] at hselected ⊢
    exact ⟨id, rfl, rfl, .inl, hselected⟩

theorem Sound.call (h : Sound lowercase panels clientActions entries board) (call : Call τ) :
    Sound lowercase panels clientActions
      (entries ++ [⟨board, call, (perform lowercase panels call board).1⟩])
      (perform lowercase panels call board).2 := by
  cases call with
  | key ev width height => exact h.key ev width height
  | replaceItems items => exact h.kept (replaceItems_kept board items) _ _
  | restore memory main => exact h.kept (restore_kept lowercase board memory main) _ _

theorem opened_sound (hempty : lowercase [] = []) (items : List (BoardItem τ))
    (memory : Option (BoardMemory τ)) (hmain : ∀ m ∈ memory, m.threads = none)
    (clientActions clientUpdates : Bool) :
    Sound lowercase panels clientActions []
      (opened lowercase items memory clientActions clientUpdates : Board τ χ π) := by
  have hnew : Selected lowercase (Board.new lowercase items : Board τ χ π) :=
    new_selected lowercase items hempty
  cases memory with
  | none =>
      refine ⟨rfl, rfl, ⟨hnew.none_iff, hnew.shown⟩, ?_⟩
      intro item hitem
      cases hitem
  | some memory =>
      have hkept := restore_kept lowercase (Board.new lowercase items : Board τ χ π) memory
        (hmain memory rfl)
      have hselected := hkept.selected hnew
      refine ⟨hkept.threads rfl, rfl, ⟨hselected.none_iff, hselected.shown⟩, ?_⟩
      intro item hitem
      cases hkept.confirmUntrack.symm.trans hitem

end Run

/-- A row is highlighted whenever one is shown.  A key opens, reads or removes the row that is
highlighted when it is handled, and only where this is no stale one; where a row is removed by a
client, it is the one that an earlier key asked for, and no key that is held answers. -/
theorem concerns_highlighted {τ χ π : Type} [LinearOrder τ] (lower : Text → Char → Text → Text)
    (panels : Panels τ χ π) (items : List (BoardItem τ)) (memory : Option (BoardMemory τ))
    (hmain : ∀ m ∈ memory, m.threads = none) (clientActions clientUpdates : Bool)
    {entries : List (Entry (Board τ χ π) (Call τ) (Option (BoardAction τ)))} {board : Board τ χ π}
    (h : History (perform (BoardAdd.toLowercase lower) panels) Outside
      (opened (BoardAdd.toLowercase lower) items memory clientActions clientUpdates)
      entries board) :
    Selected (BoardAdd.toLowercase lower) board ∧
      ∀ pre before ev width height action post,
        entries = pre ++ ⟨before, .key ev width height, some action⟩ :: post →
          Concerns (BoardAdd.toLowercase lower) panels clientActions pre before ev action := by
  have hstart : Sound (BoardAdd.toLowercase lower) panels clientActions []
      (opened (BoardAdd.toLowercase lower) items memory clientActions clientUpdates) :=
    opened_sound rfl items memory hmain clientActions clientUpdates
  have hsound {es : List (Entry (Board τ χ π) (Call τ) (Option (BoardAction τ)))}
      {b : Board τ χ π} (hes : History (perform (BoardAdd.toLowercase lower) panels) Outside
        (opened (BoardAdd.toLowercase lower) items memory clientActions clientUpdates) es b) :
      Sound (BoardAdd.toLowercase lower) panels clientActions es b :=
    hes.invariant_entries _ hstart (fun _ _ call _ hs => hs.call call)
      fun _ _ _ _ hout hs => hs.outside hout
  refine ⟨(hsound h).selected, ?_⟩
  rintro pre before ev width height action post rfl
  obtain ⟨hpre, hresult, -⟩ := h.split
  exact (hsound hpre).concerns hresult.symm

/-! ### A row is removed -/

def sampleItem : BoardItem Nat where
  session :=
    { provider := .claude, sessionId := "5f1".toList, status := .ready, lastEventAt := 1 }
  lastActivityAt := 1

def samplePanels : Panels Nat Unit Unit where
  start := fun _ => ()
  closeRequested := fun _ => false
  requestClose := fun chat => (true, chat)
  chatKey := fun _ chat => some chat
  panelKey := fun _ panel => (true, panel)
  closingNotice := fun _ => none
  details := fun _ => []
  usage := fun _ => []
  boardKeysHelp := []

/-- It is asked, the row goes, and the answer comes. -/
def sampleCalls : List (Call Nat) :=
  [.key { code := .char 'x' } 100 30, .replaceItems [], .key { code := .enter } 100 30]

def sampleRun : List (Entry (Board Nat Unit Unit) (Call Nat) (Option (BoardAction Nat))) ×
    Board Nat Unit Unit :=
  replay (perform (BoardAdd.toLowercase BoardAdd.sameCase) samplePanels)
    (opened (BoardAdd.toLowercase BoardAdd.sameCase) [sampleItem] none true false) sampleCalls

theorem concerns_highlighted_removed :
    Concerns (BoardAdd.toLowercase BoardAdd.sameCase) samplePanels true (sampleRun.1.take 2)
      (replay (perform (BoardAdd.toLowercase BoardAdd.sameCase) samplePanels)
        (opened (BoardAdd.toLowercase BoardAdd.sameCase) [sampleItem] none true false)
        (sampleCalls.take 2)).2
      { code := .enter } (.untrack sampleItem) :=
  (concerns_highlighted BoardAdd.sameCase samplePanels [sampleItem] none nofun true false
    (History.replay _ sampleCalls)).2 (sampleRun.1.take 2) _ _ 100 30 _ [] rfl

end Pikamux.Monitor
