import Pikamux.Channel.Operation
import Pikamux.Json.Sizes
import Pikamux.Support.History

/-!
# Preview — Driver

The preview of the selected pane.  `tick` follows the selection, takes the reply of the one fetch
that may be running, and starts the next one.  Between the ticks the worker of a fetch may end, with
a result or without one.

* `Sound` — what every tick and every worker keeps: who runs holds the slot, and what is shown is
  of the identity that is selected.
* `one_conversation` — at most one fetch runs, and what is shown was made for the identity now
  selected, since it was last selected; a reply that is late changes nothing.
-/

namespace Pikamux.Preview

open Support Json Channel

abbrev Text := List Char

/-! ### The text -/

def maxBytes : Nat := 16 * 1024

def maxLines : Nat := 120

/-- How far an escape sequence is read. -/
inductive Escape where
  | none
  | start
  | csi
  | string
  | stringEnd
  deriving DecidableEq, Repr

/-- `char::is_control` -/
def isControl (ch : Char) : Bool := ch.toNat < 0x20 || (0x7f ≤ ch.toNat && ch.toNat < 0xa0)

def isBidi (ch : Char) : Bool :=
  (0x202a ≤ ch.toNat && ch.toNat ≤ 0x202e) || (0x2066 ≤ ch.toNat && ch.toNat ≤ 0x2069)

/-- Where a character of an escape sequence leads, or one that begins a sequence. -/
def Escape.next (state : Escape) (ch : Char) : Option Escape :=
  match state with
  | start =>
      some (if ch = '[' then csi
        else if [']', 'P', '^', '_'].contains ch then string
        else none)
  | csi => some (if '@' ≤ ch ∧ ch ≤ '~' then none else csi)
  | string =>
      some (if ch = '\x07' || ch = '\u009c' then none
        else if ch = '\x1b' then stringEnd
        else string)
  | stringEnd => some (if ch = '\\' then none else string)
  | none =>
      if ch = '\x1b' then some start
      else if ch = '\u009b' then some csi
      else if ['\u0090', '\u009d', '\u009e', '\u009f'].contains ch then some string
      else .none

/-- The most recent output, with its bytes and its ends of lines. -/
structure Tail where
  output : Text
  bytes : Nat
  newlines : Nat
  deriving DecidableEq, Repr

def newline (ch : Char) : Nat := if ch = '\n' then 1 else 0

/-- Drop characters in front until the rest is within the bounds. -/
def dropFront (allowed : Nat) : Text → Nat → Nat → Tail
  | [], bytes, newlines => ⟨[], bytes, newlines⟩
  | old :: rest, bytes, newlines =>
      if maxBytes < bytes || allowed < newlines then
        dropFront allowed rest (bytes - old.utf8Size) (newlines - newline old)
      else ⟨old :: rest, bytes, newlines⟩

def Tail.push (tail : Tail) (ch : Char) : Tail :=
  dropFront (maxLines - (1 - newline ch)) (tail.output ++ [ch]) (tail.bytes + ch.utf8Size)
    (tail.newlines + newline ch)

/-- One character of the text. -/
def scan (state : Escape × Tail) (ch : Char) : Escape × Tail :=
  match state.1.next ch with
  | some next => (next, state.2)
  | none =>
      if ch != '\n' && ch != '\t' && (isControl ch || isBidi ch) then state
      else (state.1, state.2.push ch)

def boundedText (text : Text) : Text := (text.foldl scan (.none, ⟨[], 0, 0⟩)).2.output

theorem dropFront_bound (allowed : Nat) (output : Text) (newlines : Nat) :
    (dropFront allowed output (charsBytes output) newlines).bytes =
        charsBytes (dropFront allowed output (charsBytes output) newlines).output ∧
      (dropFront allowed output (charsBytes output) newlines).bytes ≤ maxBytes := by
  induction output generalizing newlines with
  | nil => exact ⟨rfl, Nat.zero_le _⟩
  | cons old rest ih =>
      rw [dropFront]
      by_cases hlarge : (maxBytes < charsBytes (old :: rest) || allowed < newlines) = true
      · rw [if_pos hlarge, charsBytes_cons, Nat.add_sub_cancel_left]
        exact ih _
      · rw [if_neg hlarge]
        refine ⟨rfl, ?_⟩
        simp only [Bool.or_eq_true, decide_eq_true_eq, not_or, not_lt] at hlarge
        exact hlarge.1

/-- What is shown of a text is bounded. -/
theorem boundedText_bytes (text : Text) : charsBytes (boundedText text) ≤ maxBytes := by
  have hfold : ∀ state : Escape × Tail,
      state.2.bytes = charsBytes state.2.output → state.2.bytes ≤ maxBytes →
        (text.foldl scan state).2.bytes = charsBytes (text.foldl scan state).2.output ∧
          (text.foldl scan state).2.bytes ≤ maxBytes := by
    induction text with
    | nil => exact fun state h hle => ⟨h, hle⟩
    | cons ch text ih =>
        intro state h hle
        rw [List.foldl_cons]
        have hscan : (scan state ch).2 = state.2 ∨ (scan state ch).2 = state.2.push ch := by
          rw [scan]
          split
          · exact .inl rfl
          · split
            · exact .inl rfl
            · exact .inr rfl
        rcases hscan with hscan | hscan
        · exact ih _ (hscan ▸ h) (hscan ▸ hle)
        · have hbytes : state.2.bytes + ch.utf8Size = charsBytes (state.2.output ++ [ch]) := by
            rw [h]
            simp [charsBytes]
          have hpush := dropFront_bound (maxLines - (1 - newline ch)) (state.2.output ++ [ch])
            (state.2.newlines + newline ch)
          rw [← hbytes] at hpush
          exact ih _ (hscan ▸ hpush.1) (hscan ▸ hpush.2)
  obtain ⟨heq, hle⟩ := hfold (.none, ⟨[], 0, 0⟩) rfl (Nat.zero_le _)
  rw [boundedText, ← heq]
  exact hle

/-! ### The row -/

structure Session where
  provider : Provider
  sessionId : Text
  activeThreadId : Option Text
  tmuxSession : Option Text
  tmuxPane : Option Text
  status : Status
  deriving DecidableEq, Repr

structure BoardItem where
  session : Session
  nodeId : Option Text
  stale : Bool
  pendingToken : Option Text
  deriving DecidableEq, Repr

def paneAvailable (item : BoardItem) : Bool :=
  if item.nodeId.isSome then item.session.tmuxSession.any fun value => !value.isEmpty
  else item.session.tmuxPane.any fun value => !value.isEmpty

def absence (item : BoardItem) : Option Text :=
  if item.stale then some "Preview paused · machine information is out of date.".toList
  else if item.pendingToken.isSome && item.session.status != .starting then
    some "Preview needs a confirmed conversation. Enter checks the existing terminal.".toList
  else if item.pendingToken.isSome || item.session.sessionId.all isWhitespace then
    some "Preview available after the conversation starts.".toList
  else if "unbound:".toList.isPrefixOf item.session.sessionId then
    some "Preview available after the exact conversation is identified.".toList
  else if !paneAvailable item then
    some "No recorded pane · open this conversation to see its work.".toList
  else none

structure Identity where
  node : Option Text
  provider : Provider
  uuid : Text
  active : Option Text
  pane : Option Text
  paneAvailable : Bool
  pending : Option Text
  stale : Bool
  deriving DecidableEq, Repr

/-- `Identity::from` -/
def BoardItem.identity (item : BoardItem) : Identity where
  node := item.nodeId
  provider := item.session.provider
  uuid := item.session.sessionId
  active := item.session.activeThreadId
  pane := item.session.tmuxPane
  paneAvailable := paneAvailable item
  pending := item.pendingToken
  stale := item.stale

/-- Whether a row has a preview is a matter of its identity; which text stands there otherwise is
not, as that depends on the status too. -/
theorem absence_isNone_iff (item : BoardItem) : absence item = none ↔
    item.identity.stale = false ∧ item.identity.pending = none ∧
      item.identity.uuid.all isWhitespace = false ∧
      "unbound:".toList.isPrefixOf item.identity.uuid = false ∧
      item.identity.paneAvailable = true := by
  rw [absence, BoardItem.identity]
  by_cases hstale : item.stale = true
  · rw [if_pos hstale]
    exact iff_of_false (Option.some_ne_none _) fun h => absurd (hstale.symm.trans h.1) nofun
  · rw [if_neg hstale]
    cases hpending : item.pendingToken with
    | some token =>
        refine iff_of_false ?_ fun h => absurd h.2.1 nofun
        by_cases hstatus : (some token).isSome && item.session.status != .starting
        · rw [if_pos hstatus]
          exact Option.some_ne_none _
        · rw [if_neg hstatus, Option.isSome_some, Bool.true_or, if_pos rfl]
          exact Option.some_ne_none _
    | none =>
        rw [if_neg (by simp), Option.isSome_none, Bool.false_or]
        by_cases hblank : item.session.sessionId.all isWhitespace = true
        · rw [if_pos hblank]
          exact iff_of_false (Option.some_ne_none _) fun h =>
            absurd (hblank.symm.trans h.2.2.1) nofun
        · rw [if_neg hblank]
          by_cases hunbound : "unbound:".toList.isPrefixOf item.session.sessionId = true
          · rw [if_pos hunbound]
            exact iff_of_false (Option.some_ne_none _) fun h =>
              absurd (hunbound.symm.trans h.2.2.2.1) nofun
          · rw [if_neg hunbound]
            cases hpane : paneAvailable item with
            | false =>
                rw [Bool.not_false, if_pos rfl]
                exact iff_of_false (Option.some_ne_none _) fun h => absurd h.2.2.2.2 nofun
            | true =>
                rw [Bool.not_true, if_neg Bool.false_ne_true]
                exact iff_of_true rfl ⟨eq_false_of_ne_true hstale, rfl, eq_false_of_ne_true hblank,
                  eq_false_of_ne_true hunbound, rfl⟩

theorem absence_of_identity {item item' : BoardItem} (h : item.identity = item'.identity)
    (hnone : absence item = none) : absence item' = none := by
  rw [absence_isNone_iff, ← h]
  exact (absence_isNone_iff item).mp hnone

/-! ### Fetches -/

/-- An error of a fetch: its text, and whether one of its causes is that the database is busy or
locked. -/
structure Error where
  text : Text
  busy : Bool
  deriving DecidableEq, Repr

structure FetchError where
  text : Text
  retryable : Bool
  deriving DecidableEq, Repr

def FetchError.fromError (error : Error) (locally : Bool) : FetchError :=
  ⟨boundedText error.text, locally && error.busy⟩

/-- How far an attempt to fetch has got. -/
inductive Phase where
  /-- The thread of the worker did not start. -/
  | refused (error : Text)
  | running
  | ended (result : Except Error Text)
  /-- The worker ended without a reply. -/
  | lost
  deriving DecidableEq

/-- An attempt to fetch: for which row, and how often the selection had changed then. -/
structure Attempt where
  item : BoardItem
  selection : Nat
  phase : Phase
  deriving DecidableEq

structure View (ω : Type) where
  text : Text
  observedAt : Option ω
  loading : Bool
  error : Bool
  deriving DecidableEq, Repr

/-- The one request; its receiver is that of the attempt. -/
structure Request where
  generation : UInt64
  cancelled : Bool
  attempt : Nat
  deriving DecidableEq, Repr

structure Driver (ω : Type) where
  selected : Option Identity
  generation : UInt64
  due : Nat
  request : Option Request
  view : Option (View ω)
  deriving DecidableEq, Repr

/-- The driver, how often its selection has changed, and all attempts to fetch. -/
structure System (ω : Type) where
  driver : Driver ω
  selections : Nat
  attempts : List Attempt
  deriving DecidableEq

/-- `Driver::new` -/
def System.new {ω : Type} (now : Nat) : System ω := ⟨⟨none, 0, now, none, none⟩, 0, []⟩

-- in nanoseconds
def debounce : Nat := 250 * 10 ^ 6
def localInterval : Nat := 2 * 10 ^ 9
def remoteInterval : Nat := 15 * 10 ^ 9
def errorInterval : Nat := 30 * 10 ^ 9

def refreshInterval (error retryable remote : Bool) : Nat :=
  if retryable then localInterval
  else if error then errorInterval
  else if remote then remoteInterval
  else localInterval

section Tick

variable {ω : Type}

-- `board_output`: what the board shows of the screen of a provider
variable (boardOutput : Provider → Text → Text)

/-- What the worker sends. -/
def workerReply (item : BoardItem) (result : Except Error Text) : Except FetchError Text :=
  match result with
  | .ok text => .ok (boardOutput item.session.provider (boundedText text))
  | .error error => .error (.fromError error item.nodeId.isNone)

/-- `try_recv`; a receiver without a sender is an error. -/
def tryRecv (attempt : Attempt) : Option (Except FetchError Text) :=
  match attempt.phase with
  | .ended result => some (workerReply boardOutput attempt.item result)
  | .running => none
  | .refused _ | .lost => some (.error ⟨"Pane preview worker stopped.".toList, false⟩)

/-- What the view shows until there is a reply. -/
def placeholder (item : BoardItem) : View ω where
  text := (absence item).getD "Loading pane preview…".toList
  observedAt := none
  loading := (absence item).isNone
  error := false

def Request.cancel (request : Request) : Request := { request with cancelled := true }

/-- Follow the selection. -/
def select (item : Option BoardItem) (now : Nat) (system : System ω) : System ω × Bool :=
  if item.map BoardItem.identity = system.driver.selected then (system, false)
  else
    ({ system with
        driver :=
          { selected := item.map BoardItem.identity
            generation := system.driver.generation + 1
            due := now + debounce
            request := system.driver.request.map Request.cancel
            view := item.map placeholder }
        selections := system.selections + 1 },
      true)

/-- What is shown of a text that was fetched. -/
def shownText (text : Text) : Text :=
  if (boundedText text).all isWhitespace then "No pane output available.".toList
  else boundedText text

def unavailable (error : Text) : Text := boundedText ("Preview unavailable · ".toList ++ error)

/-- The view of a reply, and whether it is retried soon. -/
def replyView (wall : ω) (reply : Except FetchError Text) : View ω × Bool :=
  match reply with
  | .ok text => (⟨shownText text, some wall, false, false⟩, false)
  | .error error => (⟨unavailable error.text, none, false, true⟩, error.retryable)

/-- Take the reply that has come, and show it where it is of the selection. -/
def receive (now : Nat) (wall : ω) (system : System ω) : System ω × Bool :=
  match system.driver.request with
  | none => (system, false)
  | some request =>
      match (system.attempts[request.attempt]?).bind (tryRecv boardOutput) with
      | none => (system, false)
      | some reply =>
          if request.generation = system.driver.generation && !request.cancelled then
            let (view, retryable) := replyView wall reply
            let remote := system.driver.selected.any fun identity => identity.node.isSome
            ({ system with
                driver :=
                  { system.driver with
                    request := none
                    view := some view
                    due := now + refreshInterval view.error retryable remote } },
              true)
          else ({ system with driver := { system.driver with request := none } }, false)

/-- The error that is shown where no worker could be started. -/
def refusal (error : Text) : View ω := ⟨unavailable error, none, false, true⟩

/-- Start the next fetch when it is due; `refused` is the error of the thread. -/
def start (item : Option BoardItem) (force : Bool) (now : Nat) (refused : Option Text)
    (system : System ω) : System ω × Bool :=
  match item.filter fun item => (absence item).isNone with
  | none => (system, false)
  | some item =>
      let idle := system.driver.request.isNone
      let due := if force && idle then now else system.driver.due
      if idle && decide (due ≤ now) then
        match refused with
        | none =>
            ({ system with
                driver :=
                  { system.driver with
                    due
                    request := some ⟨system.driver.generation, false, system.attempts.length⟩
                    view := system.driver.view.map fun view => { view with loading := true } }
                attempts := system.attempts ++ [⟨item, system.selections, .running⟩] },
              system.driver.view.any fun view => !view.loading)
        | some error =>
            ({ system with
                driver :=
                  { system.driver with due := now + errorInterval, view := some (refusal error) }
                attempts := system.attempts ++ [⟨item, system.selections, .refused error⟩] },
              true)
      else ({ system with driver := { system.driver with due } }, false)

/-- What a tick is called with, and the error of the thread it may start. -/
structure Call (ω : Type) where
  item : Option BoardItem
  force : Bool
  now : Nat
  wall : ω
  refused : Option Text

/-- `tick_at` -/
def tick (call : Call ω) (system : System ω) : Bool × System ω :=
  let (selected, changed) := select call.item call.now system
  let (received, shown) := receive boardOutput call.now call.wall selected
  let (started, loading) := start call.item call.force call.now call.refused received
  (changed || shown || loading, started)

/-- The worker of a running fetch ends. -/
def Works (system system' : System ω) : Prop :=
  ∃ (i : Nat) (attempt : Attempt) (phase : Phase),
    system.attempts[i]? = some attempt ∧ attempt.phase = .running ∧
      (phase = .lost ∨ ∃ result, phase = .ended result) ∧
      system' = { system with attempts := system.attempts.set i { attempt with phase } }

/-! ### What is shown -/

/-- An attempt for an identity since it was last selected. -/
structure Attempt.Of (system : System ω) (identity : Identity) (attempt : Attempt) : Prop where
  mem : attempt ∈ system.attempts
  identity : attempt.item.identity = identity
  selection : attempt.selection = system.selections

/-- What a view for an identity was made from. -/
inductive Made (system : System ω) (identity : Identity) (view : View ω) : Prop where
  | placeholder (item : BoardItem) (hitem : item.identity = identity)
      (htext : view.text = (absence item).getD "Loading pane preview…".toList)
  | refused (attempt : Attempt) (hof : attempt.Of system identity) (error : Text)
      (hphase : attempt.phase = .refused error) (htext : view.text = unavailable error)
  | failed (attempt : Attempt) (hof : attempt.Of system identity) (error : FetchError)
      (hrunning : attempt.phase ≠ .running)
      (hreply : tryRecv boardOutput attempt = some (.error error))
      (htext : view.text = unavailable error.text)
  | fetched (attempt : Attempt) (hof : attempt.Of system identity) (text : Text)
      (hphase : attempt.phase = .ended (.ok text))
      (htext : view.text =
        shownText (boardOutput attempt.item.session.provider (boundedText text)))

/-- What every tick and every worker keeps. -/
structure Sound (system : System ω) : Prop where
  /-- Who runs holds the slot. -/
  slot : ∀ i attempt, system.attempts[i]? = some attempt → attempt.phase = .running →
    ∃ request, system.driver.request = some request ∧ request.attempt = i
  fit : ∀ attempt ∈ system.attempts, absence attempt.item = none
  past : ∀ attempt ∈ system.attempts, attempt.selection ≤ system.selections
  held : ∀ request, system.driver.request = some request →
    ∃ attempt, system.attempts[request.attempt]? = some attempt ∧
      ∀ error, attempt.phase ≠ .refused error
  current : ∀ request attempt, system.driver.request = some request → request.cancelled = false →
    system.attempts[request.attempt]? = some attempt →
      attempt.selection = system.selections ∧
        system.driver.selected = some attempt.item.identity ∧
        request.generation = system.driver.generation
  /-- While a cancelled fetch holds the slot, nothing else than the placeholder is shown. -/
  cancelled : ∀ request attempt, system.driver.request = some request →
    request.cancelled = true → system.attempts[request.attempt]? = some attempt →
      attempt.selection < system.selections ∧
        ∃ item : Option BoardItem, item.map BoardItem.identity = system.driver.selected ∧
          system.driver.view = item.map placeholder
  shown : system.driver.view.isSome = system.driver.selected.isSome
  view : ∀ view, system.driver.view = some view →
    ∃ identity, system.driver.selected = some identity ∧ Made boardOutput system identity view

variable {boardOutput} {system system' : System ω} {item : Option BoardItem}

theorem Attempt.Of.mono {identity : Identity} {attempt : Attempt}
    (h : attempt.Of system identity) (hmem : attempt ∈ system'.attempts)
    (hselections : system'.selections = system.selections) : attempt.Of system' identity :=
  ⟨hmem, h.identity, h.selection.trans hselections.symm⟩

/-- A view has the same origin while the attempts that have ended are kept. -/
theorem Made.mono {identity : Identity} {view view' : View ω}
    (h : Made boardOutput system identity view) (htext : view'.text = view.text)
    (hselections : system'.selections = system.selections)
    (hkeeps : ∀ attempt ∈ system.attempts, attempt.phase ≠ .running →
      attempt ∈ system'.attempts) : Made boardOutput system' identity view' := by
  cases h with
  | placeholder item hitem h => exact .placeholder item hitem (htext.trans h)
  | refused attempt hof error hphase h =>
      have hmem := hkeeps attempt hof.mem (by rw [hphase]; exact nofun)
      exact .refused attempt (hof.mono hmem hselections) error hphase (htext.trans h)
  | failed attempt hof error hrunning hreply h =>
      exact .failed attempt (hof.mono (hkeeps attempt hof.mem hrunning) hselections) error hrunning
        hreply (htext.trans h)
  | fetched attempt hof text hphase h =>
      have hmem := hkeeps attempt hof.mem (by rw [hphase]; exact nofun)
      exact .fetched attempt (hof.mono hmem hselections) text hphase (htext.trans h)

theorem literal_bytes {text : String} (h : text.utf8ByteSize ≤ maxBytes) :
    charsBytes text.toList ≤ maxBytes := by
  rw [charsBytes_toList]
  exact h

theorem absence_bytes (item : BoardItem) :
    charsBytes ((absence item).getD "Loading pane preview…".toList) ≤ maxBytes := by
  rw [absence]
  split
  · rw [Option.getD_some]
    exact literal_bytes (by decide +kernel)
  · split
    · rw [Option.getD_some]
      exact literal_bytes (by decide +kernel)
    · split
      · rw [Option.getD_some]
        exact literal_bytes (by decide +kernel)
      · split
        · rw [Option.getD_some]
          exact literal_bytes (by decide +kernel)
        · split
          · rw [Option.getD_some]
            exact literal_bytes (by decide +kernel)
          · rw [Option.getD_none]
            exact literal_bytes (by decide +kernel)

/-- What is shown is bounded. -/
theorem Made.bytes {identity : Identity} {view : View ω}
    (h : Made boardOutput system identity view) : charsBytes view.text ≤ maxBytes := by
  cases h with
  | placeholder item _ h =>
      rw [h]
      exact absence_bytes item
  | refused _ _ error _ h =>
      rw [h]
      exact boundedText_bytes _
  | failed _ _ error _ _ h =>
      rw [h]
      exact boundedText_bytes _
  | fetched attempt _ text _ h =>
      rw [h, shownText]
      split
      · decide
      · exact boundedText_bytes _

theorem sound_new (now : Nat) : Sound boardOutput (System.new now : System ω) where
  slot _ _ h := by cases h
  fit _ h := by cases h
  past _ h := by cases h
  held _ h := by cases h
  current _ _ h := by cases h
  cancelled _ _ h := by cases h
  shown := rfl
  view _ h := by cases h

theorem select_selected (item : Option BoardItem) (now : Nat) (system : System ω) :
    (select item now system).1.driver.selected = item.map BoardItem.identity := by
  rw [select]
  split
  · next h => exact h.symm
  · rfl

theorem select_attempts (item : Option BoardItem) (now : Nat) (system : System ω) :
    (select item now system).1.attempts = system.attempts := by
  rw [select]
  split
  · rfl
  · rfl

theorem Sound.select (h : Sound boardOutput system) (item : Option BoardItem) (now : Nat) :
    Sound boardOutput (select item now system).1 := by
  rw [Preview.select]
  by_cases hsame : item.map BoardItem.identity = system.driver.selected
  · rw [if_pos hsame]
    exact h
  · rw [if_neg hsame]
    constructor
    · intro i attempt hattempt hrunning
      obtain ⟨request, hrequest, hi⟩ := h.slot i attempt hattempt hrunning
      exact ⟨request.cancel, by rw [hrequest]; rfl, hi⟩
    · exact h.fit
    · intro attempt hattempt
      exact (h.past attempt hattempt).trans (Nat.le_succ _)
    · intro request hrequest
      obtain ⟨old, hold, rfl⟩ := Option.map_eq_some_iff.mp hrequest
      exact h.held old hold
    · intro request attempt hrequest hlive
      obtain ⟨old, -, rfl⟩ := Option.map_eq_some_iff.mp hrequest
      cases hlive
    · intro request attempt hrequest _ hattempt
      obtain ⟨old, -, rfl⟩ := Option.map_eq_some_iff.mp hrequest
      exact ⟨Nat.lt_succ_of_le (h.past attempt (List.mem_of_getElem? hattempt)), item, rfl, rfl⟩
    · simp
    · intro view hview
      obtain ⟨row, rfl, rfl⟩ := Option.map_eq_some_iff.mp hview
      exact ⟨row.identity, rfl, .placeholder row rfl rfl⟩

/-- The slot is free once the reply has come. -/
theorem Sound.release (h : Sound boardOutput system) {request : Request} {attempt : Attempt}
    (hrequest : system.driver.request = some request)
    (hattempt : system.attempts[request.attempt]? = some attempt)
    (hended : attempt.phase ≠ .running) {driver : Driver ω} (hnone : driver.request = none)
    (hselected : driver.selected = system.driver.selected)
    (hshown : driver.view.isSome = driver.selected.isSome)
    (hview : ∀ view, driver.view = some view → ∃ identity, driver.selected = some identity ∧
      Made boardOutput { system with driver } identity view) :
    Sound boardOutput { system with driver } where
  slot i other hother hrunning := by
    obtain ⟨held, hheld, rfl⟩ := h.slot i other hother hrunning
    cases hrequest.symm.trans hheld
    cases hattempt.symm.trans hother
    exact absurd hrunning hended
  fit := h.fit
  past := h.past
  held _ hheld := absurd (hnone.symm.trans hheld) nofun
  current _ _ hheld := absurd (hnone.symm.trans hheld) nofun
  cancelled _ _ hheld := absurd (hnone.symm.trans hheld) nofun
  shown := hshown
  view := hview

theorem receive_frame (boardOutput : Provider → Text → Text) (now : Nat) (wall : ω)
    (system : System ω) :
    (receive boardOutput now wall system).1.driver.selected = system.driver.selected ∧
      (receive boardOutput now wall system).1.selections = system.selections ∧
      (receive boardOutput now wall system).1.attempts = system.attempts := by
  rw [receive]
  split
  · exact ⟨rfl, rfl, rfl⟩
  · split
    · exact ⟨rfl, rfl, rfl⟩
    · split
      · exact ⟨rfl, rfl, rfl⟩
      · exact ⟨rfl, rfl, rfl⟩

/-- The view of a reply was made for the identity of its attempt. -/
theorem made_replyView {identity : Identity} {attempt : Attempt} {wall : ω}
    {reply : Except FetchError Text} (hof : attempt.Of system identity)
    (hrefused : ∀ error, attempt.phase ≠ .refused error)
    (hreply : tryRecv boardOutput attempt = some reply) :
    Made boardOutput system identity (replyView wall reply).1 := by
  have hrunning : attempt.phase ≠ .running := by
    intro hrunning
    rw [tryRecv, hrunning] at hreply
    cases hreply
  cases reply with
  | error error => exact .failed attempt hof error hrunning hreply rfl
  | ok text =>
      rw [tryRecv] at hreply
      cases hphase : attempt.phase with
      | refused error => exact absurd hphase (hrefused error)
      | running => exact absurd hphase hrunning
      | lost =>
          rw [hphase] at hreply
          cases hreply
      | ended result =>
          rw [hphase] at hreply
          cases result with
          | error error => cases hreply
          | ok fetched =>
              have htext := Except.ok.inj (Option.some.inj hreply)
              exact .fetched attempt hof fetched hphase (by rw [htext]; rfl)

theorem Sound.receive (h : Sound boardOutput system) (now : Nat) (wall : ω) :
    Sound boardOutput (receive boardOutput now wall system).1 := by
  rw [Preview.receive]
  cases hrequest : system.driver.request with
  | none => exact h
  | some request =>
      obtain ⟨attempt, hattempt, hrefused⟩ := h.held request hrequest
      simp only [hattempt, Option.bind_some]
      cases hreply : tryRecv boardOutput attempt with
      | none => exact h
      | some reply =>
          have hended : attempt.phase ≠ .running := by
            intro hrunning
            rw [tryRecv, hrunning] at hreply
            cases hreply
          by_cases hcurrent : (request.generation = system.driver.generation &&
              !request.cancelled) = true
          · simp only [if_pos hcurrent]
            have hlive : request.cancelled = false := by
              simpa using (Bool.and_eq_true_iff.mp hcurrent).2
            obtain ⟨hselection, hselected, -⟩ := h.current request attempt hrequest hlive hattempt
            refine h.release hrequest hattempt hended rfl rfl ?_ fun view hview => ?_
            · exact (congrArg Option.isSome hselected).symm
            · cases hview
              exact ⟨attempt.item.identity, hselected, made_replyView
                ⟨List.mem_of_getElem? hattempt, rfl, hselection⟩ hrefused hreply⟩
          · simp only [if_neg hcurrent]
            refine h.release hrequest hattempt hended rfl rfl h.shown fun view hview => ?_
            obtain ⟨identity, hselected, hmade⟩ := h.view view hview
            exact ⟨identity, hselected, hmade.mono rfl rfl fun _ hmem _ => hmem⟩

/-- A reply to a fetch of an earlier selection does not change the view. -/
theorem Sound.receive_late (h : Sound boardOutput system) (now : Nat) (wall : ω)
    {request : Request} {attempt : Attempt} (hrequest : system.driver.request = some request)
    (hattempt : system.attempts[request.attempt]? = some attempt)
    (hlate : attempt.selection ≠ system.selections) :
    (Preview.receive boardOutput now wall system).1.driver.view = system.driver.view := by
  have hcancelled : request.cancelled = true := by
    by_contra hlive
    exact hlate (h.current request attempt hrequest (eq_false_of_ne_true hlive) hattempt).1
  rw [Preview.receive, hrequest]
  simp only [hcancelled]
  split
  · rfl
  · rw [Bool.not_true, Bool.and_false, if_neg Bool.false_ne_true]

/-- What a start does: nothing but to the time, or an attempt for a row that has a preview. -/
theorem start_cases (item : Option BoardItem) (force : Bool) (now : Nat) (refused : Option Text)
    (system : System ω) :
    (∃ due, (start item force now refused system).1 =
      { system with driver := { system.driver with due } }) ∨
    ∃ row, item = some row ∧ absence row = none ∧ system.driver.request = none ∧
      ((refused = none ∧ ∃ due, (start item force now refused system).1 =
        { system with
          driver :=
            { system.driver with
              due
              request := some ⟨system.driver.generation, false, system.attempts.length⟩
              view := system.driver.view.map fun view => { view with loading := true } }
          attempts := system.attempts ++ [⟨row, system.selections, .running⟩] }) ∨
      ∃ error, refused = some error ∧ ∃ due, (start item force now refused system).1 =
        { system with
          driver := { system.driver with due, view := some (refusal error) }
          attempts := system.attempts ++ [⟨row, system.selections, .refused error⟩] }) := by
  rw [start]
  cases hitem : item.filter fun item => (absence item).isNone with
  | none => exact .inl ⟨_, rfl⟩
  | some row =>
      obtain ⟨rfl, hfit⟩ := Option.filter_eq_some_iff.mp hitem
      simp only
      by_cases hdue : (system.driver.request.isNone && decide ((if force &&
          system.driver.request.isNone then now else system.driver.due) ≤ now)) = true
      · rw [if_pos hdue]
        have hidle := Option.isNone_iff_eq_none.mp (Bool.and_eq_true_iff.mp hdue).1
        refine .inr ⟨row, rfl, Option.isNone_iff_eq_none.mp hfit, hidle, ?_⟩
        cases refused with
        | none => exact .inl ⟨rfl, _, rfl⟩
        | some error => exact .inr ⟨error, rfl, _, rfl⟩
      · rw [if_neg hdue]
        exact .inl ⟨_, rfl⟩

/-- Without a request, nobody runs. -/
theorem Sound.idle (h : Sound boardOutput system) (hnone : system.driver.request = none)
    {i : Nat} {attempt : Attempt} (hattempt : system.attempts[i]? = some attempt) :
    attempt.phase ≠ .running := by
  intro hrunning
  obtain ⟨request, hrequest, -⟩ := h.slot i attempt hattempt hrunning
  exact absurd (hnone.symm.trans hrequest) nofun

theorem Sound.start (h : Sound boardOutput system)
    (hselected : system.driver.selected = item.map BoardItem.identity) (force : Bool) (now : Nat)
    (refused : Option Text) : Sound boardOutput (start item force now refused system).1 := by
  rcases start_cases item force now refused system with ⟨due, hstart⟩ |
    ⟨row, rfl, hfit, hnone, ⟨-, due, hstart⟩ | ⟨error, -, due, hstart⟩⟩
  · rw [hstart]
    refine ⟨h.slot, h.fit, h.past, h.held, h.current, h.cancelled, h.shown, fun view hview => ?_⟩
    obtain ⟨identity, hidentity, hmade⟩ := h.view view hview
    exact ⟨identity, hidentity, hmade.mono rfl rfl fun _ hmem _ => hmem⟩
  · rw [hstart]
    have hnew : (system.attempts ++ [⟨row, system.selections, .running⟩])[system.attempts.length]? =
        some (⟨row, system.selections, .running⟩ : Attempt) := List.getElem?_concat_length
    constructor
    · intro i attempt hattempt hrunning
      refine ⟨_, rfl, ?_⟩
      rcases lt_trichotomy i system.attempts.length with hlt | heq | hgt
      · rw [List.getElem?_append_left hlt] at hattempt
        exact absurd hrunning (h.idle hnone hattempt)
      · exact heq.symm
      · rw [List.getElem?_eq_none (by rw [List.length_append]; exact hgt)] at hattempt
        cases hattempt
    · intro attempt hattempt
      rcases List.mem_append.mp hattempt with hold | hone
      · exact h.fit attempt hold
      · rw [List.mem_singleton.mp hone]
        exact hfit
    · intro attempt hattempt
      rcases List.mem_append.mp hattempt with hold | hone
      · exact h.past attempt hold
      · rw [List.mem_singleton.mp hone]
    · intro request hrequest
      cases hrequest
      exact ⟨_, hnew, nofun⟩
    · intro request attempt hrequest _ hattempt
      cases hrequest
      cases hnew.symm.trans hattempt
      exact ⟨rfl, hselected, rfl⟩
    · intro request attempt hrequest hcancelled
      cases hrequest
      cases hcancelled
    · rw [← h.shown]
      exact Option.isSome_map
    · intro view hview
      obtain ⟨old, hold, rfl⟩ := Option.map_eq_some_iff.mp hview
      obtain ⟨identity, hidentity, hmade⟩ := h.view old hold
      exact ⟨identity, hidentity, hmade.mono rfl rfl fun _ hmem _ =>
        List.mem_append_left _ hmem⟩
  · rw [hstart]
    have hmem : (⟨row, system.selections, .refused error⟩ : Attempt) ∈
        system.attempts ++ [⟨row, system.selections, .refused error⟩] :=
      List.mem_append_right _ (List.mem_singleton_self _)
    constructor
    · intro i attempt hattempt hrunning
      rcases Nat.lt_or_ge i system.attempts.length with hlt | hge
      · rw [List.getElem?_append_left hlt] at hattempt
        exact absurd hrunning (h.idle hnone hattempt)
      · rw [List.getElem?_append_right hge, List.getElem?_singleton] at hattempt
        split at hattempt
        · cases hattempt
          cases hrunning
        · cases hattempt
    · intro attempt hattempt
      rcases List.mem_append.mp hattempt with hold | hone
      · exact h.fit attempt hold
      · rw [List.mem_singleton.mp hone]
        exact hfit
    · intro attempt hattempt
      rcases List.mem_append.mp hattempt with hold | hone
      · exact h.past attempt hold
      · rw [List.mem_singleton.mp hone]
    · intro request hrequest
      exact absurd (hnone.symm.trans hrequest) nofun
    · intro request _ hrequest
      exact absurd (hnone.symm.trans hrequest) nofun
    · intro request _ hrequest
      exact absurd (hnone.symm.trans hrequest) nofun
    · exact (congrArg Option.isSome hselected).symm
    · intro view hview
      cases hview
      exact ⟨row.identity, hselected, .refused _ ⟨hmem, rfl, rfl⟩ error rfl rfl⟩

theorem Sound.works (h : Sound boardOutput system) (hworks : Works system system') :
    Sound boardOutput system' := by
  obtain ⟨i, attempt, phase, hattempt, hrunning, hphase, rfl⟩ := hworks
  have hended : phase ≠ .running ∧ ∀ error, phase ≠ .refused error := by
    rcases hphase with rfl | ⟨result, rfl⟩
    · exact ⟨nofun, nofun⟩
    · exact ⟨nofun, nofun⟩
  have hget : ∀ j other, (system.attempts.set i { attempt with phase })[j]? = some other →
      (other = { attempt with phase } ∧ j = i) ∨ (system.attempts[j]? = some other ∧ j ≠ i) := by
    intro j other hother
    rw [List.getElem?_set] at hother
    by_cases hj : i = j
    · rw [if_pos hj] at hother
      split at hother
      · cases hother
        exact .inl ⟨rfl, hj.symm⟩
      · cases hother
    · rw [if_neg hj] at hother
      exact .inr ⟨hother, Ne.symm hj⟩
  -- an attempt keeps its row and its selection
  have hsame : ∀ (j : Nat) (other : Attempt),
      (system.attempts.set i { attempt with phase })[j]? = some other →
        ∃ old : Attempt, system.attempts[j]? = some old ∧ old.item = other.item ∧
          old.selection = other.selection := by
    intro j other hother
    rcases hget j other hother with ⟨rfl, rfl⟩ | ⟨hold, -⟩
    · exact ⟨attempt, hattempt, rfl, rfl⟩
    · exact ⟨other, hold, rfl, rfl⟩
  constructor
  · intro j other hother hother'
    rcases hget j other hother with ⟨rfl, -⟩ | ⟨hold, -⟩
    · exact absurd hother' hended.1
    · exact h.slot j other hold hother'
  · intro other hother
    obtain ⟨j, hj⟩ := List.mem_iff_getElem?.mp hother
    obtain ⟨old, hold, hitem, -⟩ := hsame j other hj
    rw [← hitem]
    exact h.fit old (List.mem_of_getElem? hold)
  · intro other hother
    obtain ⟨j, hj⟩ := List.mem_iff_getElem?.mp hother
    obtain ⟨old, hold, -, hselection⟩ := hsame j other hj
    rw [← hselection]
    exact h.past old (List.mem_of_getElem? hold)
  · intro request hrequest
    obtain ⟨old, hold, hrefused⟩ := h.held request hrequest
    by_cases hi : i = request.attempt
    · have hlt := (List.getElem?_eq_some_iff.mp (hi ▸ hattempt)).1
      exact ⟨{ attempt with phase }, by rw [hi, List.getElem?_set_self hlt], hended.2⟩
    · exact ⟨old, by rw [List.getElem?_set_ne hi, hold], hrefused⟩
  · intro request other hrequest hlive hother
    obtain ⟨old, hold, hitem, hselection⟩ := hsame _ other hother
    rw [← hitem, ← hselection]
    exact h.current request old hrequest hlive hold
  · intro request other hrequest hcancelled hother
    obtain ⟨old, hold, -, hselection⟩ := hsame _ other hother
    rw [← hselection]
    exact h.cancelled request old hrequest hcancelled hold
  · exact h.shown
  · intro view hview
    obtain ⟨identity, hidentity, hmade⟩ := h.view view hview
    refine ⟨identity, hidentity, hmade.mono rfl rfl fun other hother hother' => ?_⟩
    obtain ⟨j, hj⟩ := List.mem_iff_getElem?.mp hother
    refine List.mem_of_getElem? (i := j) ?_
    rw [List.getElem?_set_ne, hj]
    rintro rfl
    cases hattempt.symm.trans hj
    exact hother' hrunning

/-! ### Runs -/

theorem Sound.tick (h : Sound boardOutput system) (call : Call ω) :
    Sound boardOutput (tick boardOutput call system).2 := by
  refine ((h.select call.item call.now).receive call.now call.wall).start ?_ call.force call.now
    call.refused
  rw [(receive_frame boardOutput call.now call.wall _).1, select_selected]

/-- What a tick does to the selection and to the attempts, and that it shows no late reply. -/
structure Ticked (boardOutput : Provider → Text → Text) (call : Call ω)
    (before after : System ω) : Prop where
  selected : after.driver.selected = call.item.map BoardItem.identity
  selections : after.selections = before.selections +
    (if call.item.map BoardItem.identity = before.driver.selected then 0 else 1)
  attempts : after.attempts = before.attempts ∨
    ∃ row phase, call.item = some row ∧ absence row = none ∧
      after.attempts = before.attempts ++ [⟨row, after.selections, phase⟩]
  /-- Where the reply that is waited for is of an earlier selection, the view is the one that the
  selection left, unless the next fetch could not be started. -/
  late : ∀ request attempt,
    (select call.item call.now before).1.driver.request = some request →
      before.attempts[request.attempt]? = some attempt → attempt.selection ≠ after.selections →
        after.driver.view = (select call.item call.now before).1.driver.view ∨
          ∃ error, call.refused = some error ∧ after.driver.view = some (refusal error)

theorem select_selections (item : Option BoardItem) (now : Nat) (system : System ω) :
    (select item now system).1.selections = system.selections +
      (if item.map BoardItem.identity = system.driver.selected then 0 else 1) := by
  rw [select]
  by_cases hsame : item.map BoardItem.identity = system.driver.selected
  · rw [if_pos hsame, if_pos hsame, Nat.add_zero]
  · rw [if_neg hsame, if_neg hsame]

theorem start_frame (item : Option BoardItem) (force : Bool) (now : Nat) (refused : Option Text)
    (system : System ω) :
    (start item force now refused system).1.driver.selected = system.driver.selected ∧
      (start item force now refused system).1.selections = system.selections := by
  rcases start_cases item force now refused system with ⟨due, hstart⟩ |
    ⟨row, -, -, -, ⟨-, due, hstart⟩ | ⟨error, -, due, hstart⟩⟩
  · rw [hstart]
    exact ⟨rfl, rfl⟩
  · rw [hstart]
    exact ⟨rfl, rfl⟩
  · rw [hstart]
    exact ⟨rfl, rfl⟩

/-- A row that has a preview is waited for already while its placeholder stands. -/
theorem placeholder_loading {item : Option BoardItem} {row : BoardItem}
    (hitem : item.map BoardItem.identity = some row.identity) (hfit : absence row = none) :
    ((item.map placeholder).map fun view : View ω => { view with loading := true }) =
      item.map placeholder := by
  obtain ⟨other, rfl, hother⟩ := Option.map_eq_some_iff.mp hitem
  have hnone := absence_of_identity hother.symm hfit
  simp [placeholder, hnone]

theorem Sound.ticked (h : Sound boardOutput system) (call : Call ω) :
    Ticked boardOutput call system (Preview.tick boardOutput call system).2 := by
  have hsound := h.select call.item call.now
  obtain ⟨hreceived, hreceived', hreceived''⟩ := receive_frame boardOutput call.now call.wall
    (Preview.select call.item call.now system).1
  obtain ⟨hstarted, hstarted'⟩ := start_frame call.item call.force call.now call.refused
    (Preview.receive boardOutput call.now call.wall
      (Preview.select call.item call.now system).1).1
  have hselections : (Preview.tick boardOutput call system).2.selections =
      (Preview.select call.item call.now system).1.selections := hstarted'.trans hreceived'
  constructor
  · exact (hstarted.trans hreceived).trans (select_selected _ _ _)
  · exact hselections.trans (select_selections _ _ _)
  · rcases start_cases call.item call.force call.now call.refused
      (Preview.receive boardOutput call.now call.wall
        (Preview.select call.item call.now system).1).1 with ⟨due, hstart⟩ |
      ⟨row, hrow, hfit, -, ⟨-, due, hstart⟩ | ⟨error, -, due, hstart⟩⟩
    · refine .inl ((congrArg System.attempts hstart).trans ?_)
      exact hreceived''.trans (select_attempts _ _ _)
    · refine .inr ⟨row, .running, hrow, hfit, (congrArg System.attempts hstart).trans ?_⟩
      rw [hselections, ← hreceived', ← select_attempts call.item call.now system, ← hreceived'']
    · refine .inr ⟨row, .refused error, hrow, hfit, (congrArg System.attempts hstart).trans ?_⟩
      rw [hselections, ← hreceived', ← select_attempts call.item call.now system, ← hreceived'']
  · intro request attempt hrequest hattempt hlate
    rw [hselections] at hlate
    rw [← select_attempts call.item call.now system] at hattempt
    have hview := hsound.receive_late call.now call.wall hrequest hattempt hlate
    have hcancelled : request.cancelled = true := by
      by_contra hlive
      exact hlate (hsound.current request attempt hrequest (eq_false_of_ne_true hlive) hattempt).1
    rcases start_cases call.item call.force call.now call.refused
      (Preview.receive boardOutput call.now call.wall
        (Preview.select call.item call.now system).1).1 with ⟨due, hstart⟩ |
      ⟨row, hrow, hfit, -, ⟨-, due, hstart⟩ | ⟨error, herror, due, hstart⟩⟩
    · exact .inl ((congrArg (fun s => s.driver.view) hstart).trans hview)
    · refine .inl ((congrArg (fun s => s.driver.view) hstart).trans ?_)
      obtain ⟨-, item, hitem, hplaceholder⟩ :=
        hsound.cancelled request attempt hrequest hcancelled hattempt
      rw [select_selected, hrow] at hitem
      simp only [hview, hplaceholder]
      exact placeholder_loading hitem hfit
    · exact .inr ⟨error, herror, congrArg (fun s => s.driver.view) hstart⟩

/-- What the preview is for. -/
structure Faithful (boardOutput : Provider → Text → Text) (system : System ω) : Prop where
  one : ∀ (i j : Nat) (a b : Attempt), system.attempts[i]? = some a → system.attempts[j]? = some b →
    a.phase = .running → b.phase = .running → i = j
  fit : ∀ attempt ∈ system.attempts, absence attempt.item = none
  view : ∀ view, system.driver.view = some view →
    charsBytes view.text ≤ maxBytes ∧
      ∃ identity, system.driver.selected = some identity ∧ Made boardOutput system identity view

theorem Sound.faithful (h : Sound boardOutput system) : Faithful boardOutput system where
  one i j a b hi hj ha hb := by
    obtain ⟨request, hrequest, rfl⟩ := h.slot i a hi ha
    obtain ⟨request', hrequest', rfl⟩ := h.slot j b hj hb
    cases hrequest.symm.trans hrequest'
    rfl
  fit := h.fit
  view view hview := by
    obtain ⟨identity, hidentity, hmade⟩ := h.view view hview
    exact ⟨hmade.bytes, identity, hidentity, hmade⟩

variable {now : Nat} {entries : List (Entry (System ω) (Call ω) Bool)}

theorem sound (h : History (tick boardOutput) Works (System.new now) entries system) :
    Sound boardOutput system :=
  h.invariant (Sound boardOutput) (sound_new now) (fun call _ ih => ih.tick call)
    fun _ _ hworks ih => ih.works hworks

/-- After any ticks, with the replies of the workers in between, at most one fetch runs, every fetch
was for a row that has a preview, and what is shown is a placeholder or an error of the identity now
selected, or the text of a fetch for it since it was selected; and no tick shows a late reply. -/
theorem one_conversation
    (h : History (tick boardOutput) Works (System.new now) entries system) :
    Faithful boardOutput system ∧
      ∀ e ∈ entries, Ticked boardOutput e.call e.before (tick boardOutput e.call e.before).2 := by
  refine ⟨(sound h).faithful, fun e he => ?_⟩
  obtain ⟨before, after, rfl⟩ := List.append_of_mem he
  exact (sound h.split.1).ticked e.call

end Tick

/-! ### A row that is left and selected again -/

section Sample

def sampleItem (uuid : String) : BoardItem where
  session := ⟨.codex, uuid.toList, none, none, some ['%', '1'], .ready⟩
  nodeId := none
  stale := false
  pendingToken := none

def sampleCall (uuid : String) (now : Nat) : Call Nat :=
  ⟨some (sampleItem uuid), true, now, 0, none⟩

/-- The first fetch still runs when its row is selected again. -/
def sampleCalls : List (Call Nat) := [sampleCall "a" 0, sampleCall "b" 1, sampleCall "a" 2]

def sampleBefore : System Nat := (replay (tick fun _ text => text) (System.new 0) sampleCalls).2

/-- Its reply comes, and the next tick takes it. -/
def sampleReplied : System Nat :=
  { sampleBefore with
    attempts := sampleBefore.attempts.set 0
      ⟨sampleItem "a", 1, .ended (.ok "output of the first fetch".toList)⟩ }

theorem sample_works : Works sampleBefore sampleReplied :=
  ⟨0, ⟨sampleItem "a", 1, .running⟩, .ended (.ok "output of the first fetch".toList),
    by decide, rfl, .inr ⟨_, rfl⟩, rfl⟩

theorem one_conversation_again :
    Faithful (fun _ text => text)
        (tick (fun _ text => text) (sampleCall "a" 3) sampleReplied).2 ∧
      ∀ e ∈ (replay (tick fun _ text => text) (System.new 0) sampleCalls).1 ++
          [⟨sampleReplied, sampleCall "a" 3,
            (tick (fun _ text => text) (sampleCall "a" 3) sampleReplied).1⟩],
        Ticked (fun _ text => text) e.call e.before
          (tick (fun _ text => text) e.call e.before).2 :=
  one_conversation (((History.replay _ _).drift sample_works).call (sampleCall "a" 3))

end Sample

end Pikamux.Preview
