import Mathlib.Data.List.Infix
import Mathlib.Data.List.Nodup
import Pikamux.Channel.Operation

/-!
# Assistant — Service

`assistant_service.rs`: one worker thread runs the turns of all clones of a service.  The clients
and the worker share a gate, three flags, a channel of one command and the admission of the request
that was accepted last.

* `Step` — one lock or atomic operation of a client or of the worker, with any result of the
  runtime.
* `Turns` — at most one accepted request is unfinished, and the worker or the channel has it.
* `Begun`, `Cancels`, `Admissions`, `Published` — what holds of begin calls, of cancellations, of
  the admission words and of the snapshot.
* `one_turn_at_a_time` — all of this in every run.
-/

namespace Pikamux.AssistantService

/-! ### Requests and snapshots -/

structure UserTurnInput where
  rawBody : String
  prompt : String
  timestamp : Int

inductive ServiceState where
  | starting
  | idle
  | running
  | cancelling
  | completed
  | failed
  | stopped
  deriving DecidableEq, Repr

/-- What the views see; `ρ` is the result of a turn. -/
structure ServiceSnapshot (ρ : Type) where
  state : ServiceState := .starting
  requestId : Option String := none
  userRecordId : Option String := none
  partialText : String := ""
  result : Option ρ := none
  error : Option String := none

inductive ServiceError where
  | busy
  | closed
  | invalidRequest (message : String)
  deriving DecidableEq, Repr

/-- The arguments of `begin_kind`. -/
structure Call where
  requestId : String
  prompt : String
  background : Bool
  userInput : Option UserTurnInput

/-- `begin` -/
def Call.ofBegin (requestId prompt : String) : Call := ⟨requestId, prompt, false, none⟩

/-- `begin_user` -/
def Call.ofBeginUser (requestId : String) (input : UserTurnInput) : Except ServiceError Call :=
  if input.rawBody.toList.all Channel.isWhitespace || 16 * 1024 < input.rawBody.utf8ByteSize ||
      input.timestamp < 0 then
    .error (.invalidRequest "bounded raw user message and nonnegative timestamp required")
  else .ok ⟨requestId, input.prompt, false, some input⟩

/-- `begin_background` -/
def Call.ofBeginBackground (requestId prompt : String) : Call := ⟨requestId, prompt, true, none⟩

/-- The bounds that `begin_kind` checks first. -/
def Call.check (call : Call) : Except ServiceError Unit :=
  if call.requestId = "" ∨ 256 < call.requestId.utf8ByteSize ∨ call.prompt = "" ∨
      (if call.background then 32 * 1024 else 16 * 1024) < call.prompt.utf8ByteSize then
    .error (.invalidRequest "bounded request id and prompt are required")
  else .ok ()

/-- `Command::Begin`; a `DispatchCancellation` is the place of its word. -/
structure Command where
  call : Call
  dispatch : Nat

/-! ### The admission word -/

def wordLimit : Nat := 18446744073709551616

/-- `cancel`: the low bit is sticky. -/
def cancelWord (word : Nat) : Nat := word ||| 1

/-- `enter`: the upper bits count the admitted sends. -/
def enterWord (word : Nat) : Option Nat :=
  if word &&& 1 = 0 then
    if word + 2 < wordLimit then some (word + 2) else none
  else none

/-- The drop of a `DispatchAdmission`. -/
def leaveWord (word : Nat) : Nat := (word + wordLimit - 2) % wordLimit

/-! ### The shared state -/

/-- The next operation of the client that has the gate, or of the worker. -/
inductive Gate where
  | checkStop (call : Call)
  | record (call : Call)
  | acquire (call : Call)
  /-- The service was busy. -/
  | forget (call : Call)
  | install (call : Call)
  | send (call : Call) (dispatch : Nat)
  /-- The command could not be sent. -/
  | undoRequest (call : Call) (error : ServiceError)
  | undoBusy (error : ServiceError)
  | cancelStop
  | cancelBusy
  | cancelFlag
  | cancelDispatch
  /-- The guard is dropped; a cancelled request is named. -/
  | leave (answer : Except ServiceError Unit) (cancelled : Option Nat)
  /-- The worker has it. -/
  | release

/-- `begin_kind` has taken `busy`, and the command is not sent. -/
def Gate.begins : Gate → Bool
  | install _ => true
  | send _ _ => true
  | undoRequest _ _ => true
  | undoBusy _ => true
  | _ => false

/-- The rest of a `shutdown` after its `stop`. -/
inductive Shutdown where
  | flag
  | dispatch
  deriving DecidableEq

/-- The next operation of `release_busy`. -/
inductive Release where
  | lock
  | cancel
  | busy
  | unlock
  deriving DecidableEq

/-- Which of the two calls of `start_command`. -/
inductive Site where
  | received
  | waited
  deriving DecidableEq

/-- The next operation of the worker. -/
inductive Worker (ρ : Type) where
  | creating
  | publish (value : ServiceSnapshot ρ) (next : Worker ρ)
  /-- `release_busy` after a request, or after the runtime could not be made. -/
  | release (request : Option Nat) (stage : Release) (next : Worker ρ)
  | head
  | receive
  | starting (command : Command) (site : Site)
  | startStop (command : Command) (site : Site)
  | beginning (command : Command) (site : Site)
  | turn
  | turnStop
  | cancelActive
  | polling
  | afterCancel
  | idleStop
  | idleReceive
  | dropping
  | ended

/-- What follows a `start_command` that was not cancelled. -/
def Site.after {ρ : Type} : Site → Worker ρ
  | received => .turn
  | waited => .head

/-- What has happened to the requests, in order. -/
inductive Entry where
  | accepted (dispatch : Nat)
  /-- The begin call on the runtime. -/
  | begun (dispatch : Nat)
  /-- `cancel` has found it. -/
  | cancelled (dispatch : Nat)
  /-- And has returned. -/
  | returned (dispatch : Nat)
  /-- The worker gives it up as cancelled. -/
  | gaveUp (dispatch : Nat)
  | finished (dispatch : Nat)
  | stopped
  deriving DecidableEq

def Entry.begun? : Entry → Option Nat
  | begun dispatch => some dispatch
  | _ => none

/-- What the runtime was told and has given, in order. -/
inductive Output (ρ : Type) where
  | began (requestId : String)
  | recorded (requestId record : String)
  | polled (result : ρ)
  | text (partialText : String)

structure Service (ρ : Type) where
  gate : Option Gate
  stop : Bool
  cancel : Bool
  busy : Bool
  requests : Std.ExtTreeSet String compare
  /-- The `DispatchCancellation` of the request that was accepted last. -/
  dispatch : Nat
  /-- The words of all of them. -/
  words : Nat → Nat
  /-- The place of the next one. -/
  fresh : Nat
  /-- The admissions that are held. -/
  admitted : List Nat
  /-- The channel has place for one command. -/
  queue : List Command
  receiving : Bool
  snapshot : ServiceSnapshot ρ
  shutdowns : List Shutdown
  active : Option (String × Nat)
  worker : Worker ρ
  log : List Entry
  outputs : List (Output ρ)

section Steps

variable {ρ : Type}

/-- `spawn` -/
def Service.spawn : Service ρ :=
  ⟨none, false, false, false, ∅, 0, fun _ => 0, 1, [], [], true, {}, [], none, .creating, [], []⟩

/-- A request id is remembered; of 128 the first is forgotten. -/
def insertRequest (requests : Std.ExtTreeSet String compare) (id : String) :
    Std.ExtTreeSet String compare :=
  (if 128 ≤ requests.size then
    match requests.min? with
    | some first => requests.erase first
    | none => requests
  else requests).insert id

/-- One operation of the client that has the gate. -/
def Service.advance (s : Service ρ) : Gate → Service ρ
  | .checkStop call =>
      if s.stop then { s with gate := some (.leave (.error .closed) none) }
      else { s with gate := some (.record call) }
  | .record call =>
      if s.requests.contains call.requestId then
        { s with gate := some (.leave (.error .busy) none) }
      else
        { s with
          requests := insertRequest s.requests call.requestId
          gate := some (.acquire call) }
  | .acquire call =>
      if s.busy then { s with gate := some (.forget call) }
      else { s with busy := true, gate := some (.install call) }
  | .forget call =>
      { s with
        requests := s.requests.erase call.requestId
        gate := some (.leave (.error .busy) none) }
  | .install call =>
      { s with
        dispatch := s.fresh
        words := Function.update s.words s.fresh 0
        fresh := s.fresh + 1
        gate := some (.send call s.fresh) }
  | .send call dispatch =>
      if !s.receiving then { s with gate := some (.undoRequest call .closed) }
      else if 1 ≤ s.queue.length then { s with gate := some (.undoRequest call .busy) }
      else
        { s with
          queue := s.queue ++ [⟨call, dispatch⟩]
          log := s.log ++ [.accepted dispatch]
          gate := some (.leave (.ok ()) none) }
  | .undoRequest call error =>
      { s with requests := s.requests.erase call.requestId, gate := some (.undoBusy error) }
  | .undoBusy error => { s with busy := false, gate := some (.leave (.error error) none) }
  | .cancelStop =>
      if s.stop then { s with gate := some (.leave (.error .closed) none) }
      else { s with gate := some .cancelBusy }
  | .cancelBusy =>
      if s.busy then { s with gate := some .cancelFlag }
      else { s with gate := some (.leave (.ok ()) none) }
  | .cancelFlag =>
      { s with
        cancel := true
        log := s.log ++ [.cancelled s.dispatch]
        gate := some .cancelDispatch }
  | .cancelDispatch =>
      { s with
        words := Function.update s.words s.dispatch (cancelWord (s.words s.dispatch))
        gate := some (.leave (.ok ()) (some s.dispatch)) }
  | .leave _ none => { s with gate := none }
  | .leave _ (some dispatch) => { s with gate := none, log := s.log ++ [.returned dispatch] }
  | .release => s

/-- `publish` -/
def publish (previous value : ServiceSnapshot ρ) : ServiceSnapshot ρ :=
  if value.userRecordId.isNone && value.requestId.isSome &&
      value.requestId = previous.requestId then
    { value with userRecordId := previous.userRecordId }
  else value

/-- What the worker publishes of a request that it does not begin. -/
def notBegun (command : Command) : ServiceSnapshot ρ :=
  { state := .failed, requestId := some command.call.requestId
    error := some "cancelled before dispatch" }

/-- The request is given up before its begin call. -/
def Service.giveUpStart (s : Service ρ) (command : Command) : Service ρ :=
  { s with
    worker := .release (some command.dispatch) .lock (.publish (notBegun command) .head)
    log := s.log ++ [.gaveUp command.dispatch] }

/-- The active request is given up. -/
def Service.giveUpTurn (s : Service ρ) (id : String) (dispatch : Nat) : Service ρ :=
  { s with
    worker := .publish { state := .cancelling, requestId := some id } .cancelActive
    log := s.log ++ [.gaveUp dispatch] }

/-- The loop ends. -/
def Service.stopLoop (s : Service ρ) : Service ρ :=
  { s with worker := .publish { state := .stopped } .dropping }

/-- What the runtime gives out when it begins a request. -/
def begunOutputs (id : String) (record : Option String) : List (Output ρ) :=
  .began id :: (record.map (Output.recorded id)).toList

/-- One operation of the worker. -/
inductive Work (s : Service ρ) : Worker ρ → Service ρ → Prop where
  | created : Work s .creating { s with worker := .publish { state := .idle } .head }
  | notCreated (error : String) :
      Work s .creating { s with
        worker := .publish { state := .failed, error := some error }
          (.release none .lock .dropping) }
  | publish (value : ServiceSnapshot ρ) (next : Worker ρ) :
      Work s (.publish value next) { s with snapshot := publish s.snapshot value, worker := next }
  | releaseLock (request : Option Nat) (next : Worker ρ) (free : s.gate = none) :
      Work s (.release request .lock next)
        { s with gate := some .release, worker := .release request .cancel next }
  | releaseCancel (request : Option Nat) (next : Worker ρ) :
      Work s (.release request .cancel next)
        { s with cancel := false, worker := .release request .busy next }
  | releaseBusy (dispatch : Nat) (next : Worker ρ) :
      Work s (.release (some dispatch) .busy next)
        { s with
          busy := false
          worker := .release (some dispatch) .unlock next
          log := s.log ++ [.finished dispatch] }
  /-- The requests in the channel end with the worker. -/
  | releaseAll (next : Worker ρ) :
      Work s (.release none .busy next)
        { s with
          busy := false
          worker := .release none .unlock next
          log := s.log ++ s.queue.map fun command => .finished command.dispatch }
  | releaseUnlock (request : Option Nat) (next : Worker ρ) :
      Work s (.release request .unlock next) { s with gate := none, worker := next }
  | headStop (idle : s.active = none) (stop : s.stop = true) : Work s .head s.stopLoop
  | headGo (go : s.active.isSome = true ∨ s.stop = false) :
      Work s .head { s with worker := .receive }
  | receiveNone (empty : s.queue = []) : Work s .receive { s with worker := .turn }
  | receive (command : Command) (queue : List Command) (first : s.queue = command :: queue)
      (idle : s.active = none) :
      Work s .receive { s with queue, worker := .starting command .received }
  /-- A command that comes during a turn is dropped. -/
  | receiveDrop (command : Command) (queue : List Command) (first : s.queue = command :: queue)
      (active : s.active.isSome = true) : Work s .receive { s with queue, worker := .turn }
  | startCancelled (command : Command) (site : Site) (cancel : s.cancel = true) :
      Work s (.starting command site) ({ s with cancel := false }.giveUpStart command)
  | startGo (command : Command) (site : Site) (go : s.cancel = false) :
      Work s (.starting command site) { s with worker := .startStop command site }
  | startStopped (command : Command) (site : Site) (stop : s.stop = true) :
      Work s (.startStop command site) (s.giveUpStart command)
  | startBegin (command : Command) (site : Site) (go : s.stop = false) :
      Work s (.startStop command site) { s with worker := .beginning command site }
  /-- `begin_turn`, `begin_conversation_turn` or `begin_background_turn` -/
  | begun (command : Command) (site : Site) (record : Option String) :
      Work s (.beginning command site)
        { s with
          active := some (command.call.requestId, command.dispatch)
          worker := .publish
            { state := .running, requestId := some command.call.requestId, userRecordId := record }
            site.after
          log := s.log ++ [.begun command.dispatch]
          outputs := s.outputs ++ begunOutputs command.call.requestId record }
  | beginFailed (command : Command) (site : Site) (record : Option String) (error : String) :
      Work s (.beginning command site)
        { s with
          worker := .release (some command.dispatch) .lock (.publish
            { state := .failed, requestId := some command.call.requestId, userRecordId := record
              error := some error } site.after)
          log := s.log ++ [.begun command.dispatch]
          outputs := s.outputs ++ begunOutputs command.call.requestId record }
  | turnIdle (idle : s.active = none) : Work s .turn { s with worker := .idleStop }
  | turnCancelled (id : String) (dispatch : Nat) (active : s.active = some (id, dispatch))
      (cancel : s.cancel = true) :
      Work s .turn ({ s with cancel := false }.giveUpTurn id dispatch)
  | turnGo (active : s.active.isSome = true) (go : s.cancel = false) :
      Work s .turn { s with worker := .turnStop }
  | turnStopped (id : String) (dispatch : Nat) (active : s.active = some (id, dispatch))
      (stop : s.stop = true) : Work s .turnStop (s.giveUpTurn id dispatch)
  | turnPoll (go : s.stop = false) : Work s .turnStop { s with worker := .polling }
  /-- The `cancel` of the runtime. -/
  | cancelActive (id : String) (dispatch : Nat) (active : s.active = some (id, dispatch))
      (error : Option String) :
      Work s .cancelActive
        { s with
          active := none
          worker := .publish
            { state := if error.isSome then .failed else .completed, requestId := some id
              error := error.or (some "cancelled") }
            (.release (some dispatch) .lock .afterCancel) }
  | afterCancelStop (stop : s.stop = true) : Work s .afterCancel s.stopLoop
  | afterCancelGo (go : s.stop = false) : Work s .afterCancel { s with worker := .head }
  | completed (id : String) (dispatch : Nat) (active : s.active = some (id, dispatch))
      (result : ρ) (partialText : String) :
      Work s .polling
        { s with
          active := none
          worker := .publish
            { state := .completed, requestId := some id, partialText, result := some result }
            (.release (some dispatch) .lock .head)
          outputs := s.outputs ++ [.polled result, .text partialText] }
  | polled (id : String) (dispatch : Nat) (active : s.active = some (id, dispatch))
      (partialText : String) :
      Work s .polling
        { s with
          worker := .publish { state := .running, requestId := some id, partialText } .head
          outputs := s.outputs ++ [.text partialText] }
  | pollFailed (id : String) (dispatch : Nat) (active : s.active = some (id, dispatch))
      (error partialText : String) :
      Work s .polling
        { s with
          active := none
          worker := .publish
            { state := .failed, requestId := some id, partialText, error := some error }
            (.release (some dispatch) .lock .head)
          outputs := s.outputs ++ [.text partialText] }
  | idleStop (stop : s.stop = true) : Work s .idleStop s.stopLoop
  | idleGo (go : s.stop = false) : Work s .idleStop { s with worker := .idleReceive }
  | idleTimeout (empty : s.queue = []) : Work s .idleReceive { s with worker := .head }
  | idleReceive (command : Command) (queue : List Command) (first : s.queue = command :: queue) :
      Work s .idleReceive { s with queue, worker := .starting command .waited }
  | dropped : Work s .dropping { s with queue := [], receiving := false, worker := .ended }

/-- One lock or atomic operation. -/
inductive Step (s : Service ρ) : Service ρ → Prop where
  | beginKind (call : Call) (valid : call.check = .ok ()) (free : s.gate = none) :
      Step s { s with gate := some (.checkStop call) }
  | cancel (free : s.gate = none) : Step s { s with gate := some .cancelStop }
  | advance (gate : Gate) (held : s.gate = some gate) : Step s (s.advance gate)
  | shutdown :
      Step s { s with
        stop := true, shutdowns := s.shutdowns ++ [.flag], log := s.log ++ [.stopped] }
  | shutdownFlag (k : Nat) (next : s.shutdowns[k]? = some .flag) :
      Step s { s with cancel := true, shutdowns := s.shutdowns.set k .dispatch }
  | shutdownDispatch (k : Nat) (next : s.shutdowns[k]? = some .dispatch) :
      Step s { s with
        words := Function.update s.words s.dispatch (cancelWord (s.words s.dispatch))
        shutdowns := s.shutdowns.eraseIdx k }
  /-- Whoever has a `DispatchCancellation` may enter. -/
  | enter (dispatch word : Nat) (known : dispatch < s.fresh)
      (entered : enterWord (s.words dispatch) = some word) :
      Step s { s with
        words := Function.update s.words dispatch word
        admitted := dispatch :: s.admitted }
  | leave (dispatch : Nat) (held : dispatch ∈ s.admitted) :
      Step s { s with
        words := Function.update s.words dispatch (leaveWord (s.words dispatch))
        admitted := s.admitted.erase dispatch }
  | work (after : Service ρ) (work : Work s s.worker after) : Step s after

inductive Run : Service ρ → Prop where
  | start : Run .spawn
  | step (s after : Service ρ) (run : Run s) (step : Step s after) : Run after

end Steps

/-! ### Unfinished requests -/

/-- The accepted requests that are not finished. -/
def unfinished (log : List Entry) : List Nat :=
  log.foldl (fun requests entry =>
    match entry with
    | .accepted dispatch => requests ++ [dispatch]
    | .finished dispatch => requests.erase dispatch
    | _ => requests) []

namespace Worker

variable {ρ : Type}

/-- The worker has the gate. -/
def releases : Worker ρ → Bool
  | release _ stage _ => stage ≠ .lock
  | _ => false

/-- The worker may still take a command, or owns those in the channel. -/
def runs : Worker ρ → Bool
  | publish _ next => next.runs
  | release none stage _ => stage ≠ .unlock
  | release (some _) _ next => next.runs
  | dropping => false
  | ended => false
  | _ => true

/-- The requests that the worker has, besides the active one. -/
def held : Worker ρ → List Nat
  | publish _ next => next.held
  | release (some dispatch) stage _ => if stage = .unlock then [] else [dispatch]
  | starting command _ => [command.dispatch]
  | startStop command _ => [command.dispatch]
  | beginning command _ => [command.dispatch]
  | _ => []

/-- Where there is an active request, and what follows. -/
def Fits (active : Option (String × Nat)) : Worker ρ → Prop
  | creating => active = none
  | publish _ next => next.Fits active ∧ next.releases = false
  | release request _ next => active = none ∧ next.Fits none ∧ next.releases = false ∧
      next.held = [] ∧ next.runs = request.isSome
  | starting _ _ => active = none
  | startStop _ _ => active = none
  | beginning _ _ => active = none
  | turnStop => active.isSome = true
  | cancelActive => active.isSome = true
  | polling => active.isSome = true
  | afterCancel => active = none
  | idleStop => active = none
  | idleReceive => active = none
  | _ => True

end Worker

section Runs

variable {ρ : Type} {s after : Service ρ} {log : List Entry} {entry : Entry} {n : Nat}

/-- `begin_kind` has taken `busy`, and the command is not sent. -/
def Service.begins (s : Service ρ) : Bool := s.gate.any Gate.begins

/-- The requests that the worker has. -/
def Service.carried (s : Service ρ) : List Nat :=
  s.active.toList.map Prod.snd ++ s.worker.held

/-- At most one request is unfinished: `busy` says so, and the worker or the channel has it. -/
structure Turns (s : Service ρ) : Prop where
  one : (unfinished s.log).length ≤ 1
  begins : s.begins = true → unfinished s.log = [] ∧ s.busy = true
  busy : s.begins = false → (s.busy = true ↔ unfinished s.log ≠ [])
  dispatch : ∀ n ∈ unfinished s.log, n = s.dispatch
  flag : s.gate = some .cancelFlag → unfinished s.log ≠ []
  sends : ∀ call n, s.gate = some (.send call n) → n = s.dispatch
  gate : s.gate = some .release ↔ s.worker.releases = true
  carried : s.worker.runs = true →
    unfinished s.log = s.carried ++ s.queue.map Command.dispatch
  fits : s.worker.Fits s.active

theorem unfinished_concat : unfinished (log ++ [entry]) =
    match entry with
    | .accepted dispatch => unfinished log ++ [dispatch]
    | .finished dispatch => (unfinished log).erase dispatch
    | _ => unfinished log := by
  rw [unfinished, List.foldl_append]
  rfl

@[simp] theorem unfinished_accepted : unfinished (log ++ [.accepted n]) = unfinished log ++ [n] :=
  unfinished_concat

@[simp] theorem unfinished_finished :
    unfinished (log ++ [.finished n]) = (unfinished log).erase n := unfinished_concat

@[simp] theorem unfinished_begun : unfinished (log ++ [.begun n]) = unfinished log :=
  unfinished_concat

@[simp] theorem unfinished_cancelled : unfinished (log ++ [.cancelled n]) = unfinished log :=
  unfinished_concat

@[simp] theorem unfinished_returned : unfinished (log ++ [.returned n]) = unfinished log :=
  unfinished_concat

@[simp] theorem unfinished_gaveUp : unfinished (log ++ [.gaveUp n]) = unfinished log :=
  unfinished_concat

@[simp] theorem unfinished_stopped : unfinished (log ++ [.stopped]) = unfinished log :=
  unfinished_concat

theorem unfinished_all (queue : List Command) (h : unfinished log = queue.map Command.dispatch) :
    unfinished (log ++ queue.map fun command => .finished command.dispatch) = [] := by
  induction queue generalizing log with
  | nil => simpa using h
  | cons command queue ih =>
      rw [List.map_cons, List.append_cons]
      refine ih ?_
      rw [unfinished_finished, h, List.map_cons, List.erase_cons_head]

theorem Turns.spawn : Turns (.spawn : Service ρ) where
  one := by simp [Service.spawn, unfinished]
  begins := nofun
  busy := by simp [Service.spawn, unfinished]
  dispatch := by simp [Service.spawn, unfinished]
  flag := nofun
  sends := nofun
  gate := by simp [Service.spawn, Worker.releases]
  carried := by simp [Service.spawn, unfinished, Service.carried, Worker.held]
  fits := rfl

/-- The gate passes from one operation to another. -/
theorem Turns.pass (h : Turns s) {gate : Option Gate} (requests : Std.ExtTreeSet String compare)
    (hbegins : gate.any Gate.begins = s.begins)
    (hflag : gate = some .cancelFlag → unfinished s.log ≠ [])
    (hsends : ∀ call n, gate = some (.send call n) → n = s.dispatch)
    (hrelease : gate = some .release ↔ s.gate = some .release) :
    Turns { s with gate, requests } where
  one := h.one
  begins := fun hnow => h.begins (hbegins ▸ hnow)
  busy := fun hnow => h.busy (hbegins ▸ hnow)
  dispatch := h.dispatch
  flag := hflag
  sends := hsends
  gate := hrelease.trans h.gate
  carried := h.carried
  fits := h.fits

theorem Turns.idle (h : Turns s) (hbegins : s.begins = false) (hbusy : s.busy = false) :
    unfinished s.log = [] := by
  by_contra hne
  rw [(h.busy hbegins).mpr hne] at hbusy
  cases hbusy

/-- An operation of a client that has the gate. -/
theorem Turns.advance (h : Turns s) (gate : Gate) (held : s.gate = some gate) :
    Turns (s.advance gate) := by
  have hbegins : s.begins = gate.begins := by rw [Service.begins, held]; rfl
  cases gate with
  | checkStop call =>
      rw [Service.advance]
      split <;> exact h.pass _ hbegins.symm nofun nofun (by simp [held])
  | record call =>
      rw [Service.advance]
      split <;> exact h.pass _ hbegins.symm nofun nofun (by simp [held])
  | acquire call =>
      rw [Service.advance]
      by_cases hbusy : s.busy = true
      · rw [if_pos hbusy]
        exact h.pass _ hbegins.symm nofun nofun (by simp [held])
      · have hnone := h.idle hbegins (Bool.eq_false_iff.mpr hbusy)
        rw [if_neg hbusy]
        refine ⟨h.one, fun _ => ⟨hnone, rfl⟩, nofun, h.dispatch, nofun, nofun, ?_, h.carried,
          h.fits⟩
        simpa [held] using h.gate
  | forget call => exact h.pass _ hbegins.symm nofun nofun (by simp [held])
  | install call =>
      obtain ⟨hnone, hbusy⟩ := h.begins hbegins
      refine ⟨h.one, fun _ => ⟨hnone, hbusy⟩, nofun, ?_, nofun, ?_, ?_, h.carried, h.fits⟩
      · intro n hn
        rw [Service.advance] at hn
        rw [hnone] at hn
        cases hn
      · intro call' n hsend
        cases hsend
        rfl
      · simpa [held, Service.advance] using h.gate
  | send call dispatch =>
      obtain ⟨hnone, hbusy⟩ := h.begins hbegins
      rw [Service.advance]
      split
      · exact h.pass _ hbegins.symm nofun nofun (by simp [held])
      · split
        · exact h.pass _ hbegins.symm nofun nofun (by simp [held])
        · have hlog : unfinished (s.log ++ [.accepted dispatch]) = [dispatch] := by
            rw [unfinished_accepted, hnone, List.nil_append]
          refine ⟨by simp [hlog], nofun, ?_, ?_, nofun, nofun, ?_, ?_, h.fits⟩
          · intro _
            simp [hlog, hbusy]
          · intro n hn
            rw [hlog, List.mem_singleton] at hn
            exact hn.trans (h.sends call dispatch held)
          · simpa [held] using h.gate
          · intro hruns
            have hcarried := h.carried hruns
            rw [hnone, List.nil_eq, List.append_eq_nil_iff] at hcarried
            rw [hlog, List.map_append, ← List.append_assoc]
            show [dispatch] = s.carried ++ s.queue.map Command.dispatch ++ [dispatch]
            rw [hcarried.1, hcarried.2]
            rfl
  | undoRequest call error => exact h.pass _ hbegins.symm nofun nofun (by simp [held])
  | undoBusy error =>
      obtain ⟨hnone, -⟩ := h.begins hbegins
      refine ⟨h.one, nofun, ?_, h.dispatch, nofun, nofun, ?_, h.carried, h.fits⟩
      · intro _
        simp [Service.advance, hnone]
      · simpa [held, Service.advance] using h.gate
  | cancelStop =>
      rw [Service.advance]
      split <;> exact h.pass _ hbegins.symm nofun nofun (by simp [held])
  | cancelBusy =>
      rw [Service.advance]
      split
      · next hbusy =>
          exact h.pass _ hbegins.symm (fun _ => (h.busy hbegins).mp hbusy) nofun (by simp [held])
      · exact h.pass _ hbegins.symm nofun nofun (by simp [held])
  | cancelFlag =>
      refine ⟨?_, nofun, ?_, ?_, nofun, nofun, ?_, ?_, h.fits⟩
      · simpa [Service.advance] using h.one
      · intro _
        simpa [Service.advance] using h.busy hbegins
      · simpa [Service.advance] using h.dispatch
      · simpa [held, Service.advance] using h.gate
      · exact fun hruns => unfinished_cancelled.trans (h.carried hruns)
  | cancelDispatch =>
      exact ⟨h.one, nofun, fun _ => h.busy hbegins, h.dispatch, nofun, nofun,
        by simpa [held, Service.advance] using h.gate, h.carried, h.fits⟩
  | leave answer cancelled =>
      cases cancelled with
      | none => exact h.pass _ hbegins.symm nofun nofun (by simp [held])
      | some dispatch =>
          refine ⟨?_, nofun, ?_, ?_, nofun, nofun, ?_, ?_, h.fits⟩
          · simpa [Service.advance] using h.one
          · intro _
            simpa [Service.advance] using h.busy hbegins
          · simpa [Service.advance] using h.dispatch
          · simpa [held, Service.advance] using h.gate
          · exact fun hruns => unfinished_returned.trans (h.carried hruns)
  | release => exact h

/-- An operation of the worker that leaves the gate and the requests as they are. -/
theorem Turns.moves (h : Turns s) {worker : Worker ρ} (hworker : s.worker = worker)
    (hgate : after.gate = s.gate) (hbusy : after.busy = s.busy)
    (hdispatch : after.dispatch = s.dispatch) (hlog : unfinished after.log = unfinished s.log)
    (hreleases : after.worker.releases = worker.releases)
    (hcarried : after.worker.runs = true → worker.runs = true ∧
      after.carried ++ after.queue.map Command.dispatch =
        s.active.toList.map Prod.snd ++ worker.held ++ s.queue.map Command.dispatch)
    (hfits : after.worker.Fits after.active) : Turns after := by
  subst hworker
  have hbegins : after.begins = s.begins := by rw [Service.begins, hgate, Service.begins]
  refine ⟨hlog ▸ h.one, ?_, ?_, ?_, ?_, ?_, ?_, ?_, hfits⟩
  · intro hnow
    rw [hlog, hbusy]
    exact h.begins (hbegins ▸ hnow)
  · intro hnow
    rw [hlog, hbusy]
    exact h.busy (hbegins ▸ hnow)
  · rw [hlog, hdispatch]
    exact h.dispatch
  · rw [hlog, hgate]
    exact h.flag
  · rw [hgate, hdispatch]
    exact h.sends
  · rw [hgate, hreleases]
    exact h.gate
  · intro hruns
    obtain ⟨hran, hsame⟩ := hcarried hruns
    rw [hlog, hsame]
    exact h.carried hran

/-- What the worker has is the one unfinished request, and the channel is empty. -/
theorem Turns.only (h : Turns s) (hruns : s.worker.runs = true) (hn : n ∈ s.carried) :
    unfinished s.log = [n] ∧ s.queue = [] := by
  have hcarried := h.carried hruns
  have hone := h.one
  rw [hcarried, List.length_append] at hone
  match hlist : s.carried with
  | [] =>
      rw [hlist] at hn
      cases hn
  | first :: rest =>
      rw [hlist, List.length_cons, List.length_map] at hone
      have hrest : rest = [] := List.eq_nil_of_length_eq_zero (by omega)
      have hqueue : s.queue = [] := List.eq_nil_of_length_eq_zero (by omega)
      rw [hlist, hrest, List.mem_singleton] at hn
      rw [hcarried, hlist, hrest, hqueue, hn]
      exact ⟨rfl, rfl⟩

/-- And what it has is the same, too. -/
theorem Turns.keeps (h : Turns s) {worker : Worker ρ} (hworker : s.worker = worker)
    (hgate : after.gate = s.gate) (hbusy : after.busy = s.busy)
    (hdispatch : after.dispatch = s.dispatch) (hlog : unfinished after.log = unfinished s.log)
    (hqueue : after.queue = s.queue) (hactive : after.active = s.active)
    (hreleases : after.worker.releases = worker.releases)
    (hheld : after.worker.held = worker.held)
    (hruns : after.worker.runs = true → worker.runs = true)
    (hfits : after.worker.Fits s.active) : Turns after := by
  refine h.moves hworker hgate hbusy hdispatch hlog hreleases ?_ (hactive ▸ hfits)
  intro hnow
  rw [Service.carried, hqueue, hactive, hheld]
  exact ⟨hruns hnow, rfl⟩

/-- `busy` is given back, and nothing is unfinished. -/
theorem Turns.ends (h : Turns s) (hgate : s.gate = some .release)
    (hlog : unfinished after.log = []) (hbusy : after.busy = false)
    (hsame : after.gate = s.gate) (hdispatch : after.dispatch = s.dispatch)
    (hreleases : after.worker.releases = true)
    (hcarried : after.worker.runs = true →
      [] = after.carried ++ after.queue.map Command.dispatch)
    (hfits : after.worker.Fits after.active) : Turns after := by
  have hbegins : after.begins = false := by
    rw [Service.begins, hsame, hgate]
    rfl
  refine ⟨by simp [hlog], ?_, ?_, by simp [hlog], ?_, ?_, ?_, ?_, hfits⟩
  · intro hnow
    rw [hbegins] at hnow
    cases hnow
  · simp [hlog, hbusy]
  · intro hflag
    rw [hsame, hgate] at hflag
    cases hflag
  · rw [hsame, hdispatch]
    exact h.sends
  · rw [hsame, hgate, hreleases]
    exact ⟨fun _ => rfl, fun _ => rfl⟩
  · rw [hlog]
    exact hcarried

theorem Turns.work (h : Turns s) {worker : Worker ρ} (hworker : s.worker = worker)
    (hwork : Work s worker after) : Turns after := by
  have hfits := h.fits
  have hgate := h.gate
  have hcarried : s.worker.runs = true → unfinished s.log =
    s.active.toList.map Prod.snd ++ s.worker.held ++ s.queue.map Command.dispatch := h.carried
  rw [hworker] at hfits hcarried hgate
  cases hwork with
  | created =>
      exact h.keeps hworker rfl rfl rfl rfl rfl rfl rfl rfl (fun _ => rfl) ⟨trivial, rfl⟩
  | notCreated error =>
      exact h.keeps hworker rfl rfl rfl rfl rfl rfl rfl rfl (fun _ => rfl)
        ⟨⟨hfits, trivial, rfl, rfl, rfl⟩, rfl⟩
  | publish value next =>
      exact h.keeps hworker rfl rfl rfl rfl rfl rfl hfits.2 rfl id hfits.1
  | releaseLock request next free =>
      have hbegins : s.begins = false := by
        rw [Service.begins, free]
        rfl
      have hsame : ∀ stage, stage ≠ .unlock →
          (Worker.release request .lock next).held = (Worker.release request stage next).held ∧
          (Worker.release request .lock next).runs = (Worker.release request stage next).runs := by
        intro stage hstage
        cases request <;> simp [Worker.held, Worker.runs, hstage]
      obtain ⟨hheld, hruns⟩ := hsame .cancel nofun
      refine ⟨h.one, nofun, fun _ => h.busy hbegins, h.dispatch, nofun, nofun, ?_, ?_, hfits⟩
      · exact ⟨fun _ => rfl, fun _ => rfl⟩
      · intro hnow
        rw [Service.carried]
        show _ = s.active.toList.map Prod.snd ++ (Worker.release request .cancel next).held ++ _
        rw [← hheld]
        exact hcarried (hruns.trans hnow)
  | releaseCancel request next =>
      refine h.keeps hworker rfl rfl rfl rfl rfl rfl rfl ?_ ?_ hfits
      · cases request <;> rfl
      · cases request <;> exact id
  | releaseBusy dispatch next =>
      have hrelease := hgate.mpr rfl
      obtain ⟨hactive, hnext⟩ := hfits
      have hruns := hnext.2.2.2
      have hmem : dispatch ∈ s.carried := by
        rw [Service.carried, hworker]
        simp [Worker.held]
      have hrun : s.worker.runs = true := hworker ▸ hruns
      obtain ⟨honly, hqueue⟩ := h.only hrun hmem
      have hlog : unfinished (s.log ++ [.finished dispatch]) = [] := by
        rw [unfinished_finished, honly, List.erase_cons_head]
      refine h.ends hrelease hlog rfl rfl rfl rfl ?_ ⟨hactive, hnext⟩
      intro _
      show [] = s.active.toList.map Prod.snd ++ [] ++ s.queue.map Command.dispatch
      rw [hactive, hqueue]
      rfl
  | releaseAll next =>
      obtain ⟨hactive, hnext⟩ := hfits
      have hall := hcarried rfl
      rw [hactive] at hall
      exact h.ends (hgate.mpr rfl) (unfinished_all s.queue hall) rfl rfl rfl rfl nofun
        ⟨hactive, hnext⟩
  | releaseUnlock request next =>
      obtain ⟨hactive, hnext, hreleases, hheld, hruns⟩ := hfits
      have hbegins : s.begins = false := by
        rw [Service.begins, hgate.mpr rfl]
        rfl
      refine ⟨h.one, nofun, fun _ => h.busy hbegins, h.dispatch, nofun, nofun, ?_, ?_,
        hactive ▸ hnext⟩
      · simp [hreleases]
      · intro hnow
        cases request with
        | none =>
            rw [hruns] at hnow
            cases hnow
        | some dispatch =>
            have hbefore := hcarried hnow
            show _ = s.active.toList.map Prod.snd ++ next.held ++ _
            rw [hheld]
            exact hbefore
  | headStop idle stop => exact h.keeps hworker rfl rfl rfl rfl rfl rfl rfl rfl nofun ⟨trivial, rfl⟩
  | headGo go => exact h.keeps hworker rfl rfl rfl rfl rfl rfl rfl rfl (fun _ => rfl) trivial
  | receiveNone empty =>
      exact h.keeps hworker rfl rfl rfl rfl rfl rfl rfl rfl (fun _ => rfl) trivial
  | receive command queue first idle =>
      refine h.moves hworker rfl rfl rfl rfl rfl (fun _ => ⟨rfl, ?_⟩) idle
      simp [Service.carried, idle, first, Worker.held]
  | receiveDrop command queue first active =>
      -- the active request and the command would be two
      have hone := h.one
      obtain ⟨request, hrequest⟩ := Option.isSome_iff_exists.mp active
      rw [hcarried rfl, hrequest, first] at hone
      simp at hone
  | startCancelled command site cancel =>
      exact h.keeps hworker rfl rfl rfl unfinished_gaveUp rfl rfl rfl rfl (fun _ => rfl)
        ⟨hfits, ⟨trivial, rfl⟩, rfl, rfl, rfl⟩
  | startGo command site go =>
      exact h.keeps hworker rfl rfl rfl rfl rfl rfl rfl rfl (fun _ => rfl) hfits
  | startStopped command site stop =>
      exact h.keeps hworker rfl rfl rfl unfinished_gaveUp rfl rfl rfl rfl (fun _ => rfl)
        ⟨hfits, ⟨trivial, rfl⟩, rfl, rfl, rfl⟩
  | startBegin command site go =>
      exact h.keeps hworker rfl rfl rfl rfl rfl rfl rfl rfl (fun _ => rfl) hfits
  | begun command site record =>
      have hactive : s.active = none := hfits
      refine h.moves hworker rfl rfl rfl unfinished_begun rfl (fun _ => ⟨rfl, ?_⟩) ?_
      · cases site <;> simp [Service.carried, hactive, Worker.held, Site.after]
      · cases site <;> exact ⟨trivial, rfl⟩
  | beginFailed command site record error =>
      refine h.keeps hworker rfl rfl rfl unfinished_begun rfl rfl rfl rfl (fun _ => rfl)
        ⟨hfits, ?_, rfl, ?_, ?_⟩
      · cases site <;> exact ⟨trivial, rfl⟩
      · cases site <;> rfl
      · cases site <;> rfl
  | turnIdle idle => exact h.keeps hworker rfl rfl rfl rfl rfl rfl rfl rfl (fun _ => rfl) idle
  | turnCancelled id dispatch active cancel =>
      exact h.keeps hworker rfl rfl rfl unfinished_gaveUp rfl rfl rfl rfl (fun _ => rfl)
        ⟨by simp [Worker.Fits, active], rfl⟩
  | turnGo active go => exact h.keeps hworker rfl rfl rfl rfl rfl rfl rfl rfl (fun _ => rfl) active
  | turnStopped id dispatch active stop =>
      exact h.keeps hworker rfl rfl rfl unfinished_gaveUp rfl rfl rfl rfl (fun _ => rfl)
        ⟨hfits, rfl⟩
  | turnPoll go => exact h.keeps hworker rfl rfl rfl rfl rfl rfl rfl rfl (fun _ => rfl) hfits
  | cancelActive id dispatch active error =>
      refine h.moves hworker rfl rfl rfl rfl rfl (fun _ => ⟨rfl, ?_⟩)
        ⟨⟨rfl, rfl, rfl, rfl, rfl⟩, rfl⟩
      simp [Service.carried, active, Worker.held]
  | afterCancelStop stop =>
      exact h.keeps hworker rfl rfl rfl rfl rfl rfl rfl rfl nofun ⟨trivial, rfl⟩
  | afterCancelGo go => exact h.keeps hworker rfl rfl rfl rfl rfl rfl rfl rfl (fun _ => rfl) trivial
  | completed id dispatch active result partialText =>
      refine h.moves hworker rfl rfl rfl rfl rfl (fun _ => ⟨rfl, ?_⟩)
        ⟨⟨rfl, trivial, rfl, rfl, rfl⟩, rfl⟩
      simp [Service.carried, active, Worker.held]
  | polled id dispatch active partialText =>
      exact h.keeps hworker rfl rfl rfl rfl rfl rfl rfl rfl (fun _ => rfl) ⟨trivial, rfl⟩
  | pollFailed id dispatch active error partialText =>
      refine h.moves hworker rfl rfl rfl rfl rfl (fun _ => ⟨rfl, ?_⟩)
        ⟨⟨rfl, trivial, rfl, rfl, rfl⟩, rfl⟩
      simp [Service.carried, active, Worker.held]
  | idleStop stop => exact h.keeps hworker rfl rfl rfl rfl rfl rfl rfl rfl nofun ⟨trivial, rfl⟩
  | idleGo go => exact h.keeps hworker rfl rfl rfl rfl rfl rfl rfl rfl (fun _ => rfl) hfits
  | idleTimeout empty =>
      exact h.keeps hworker rfl rfl rfl rfl rfl rfl rfl rfl (fun _ => rfl) trivial
  | idleReceive command queue first =>
      have hactive : s.active = none := hfits
      refine h.moves hworker rfl rfl rfl rfl rfl (fun _ => ⟨rfl, ?_⟩) hactive
      simp [Service.carried, hactive, first, Worker.held]
  | dropped => exact h.moves hworker rfl rfl rfl rfl rfl nofun trivial

theorem Turns.step (h : Turns s) (hstep : Step s after) : Turns after := by
  cases hstep with
  | beginKind call valid free =>
      have hbegins : s.begins = false := by rw [Service.begins, free]; rfl
      exact h.pass _ hbegins.symm nofun nofun (by simp [free])
  | cancel free =>
      have hbegins : s.begins = false := by rw [Service.begins, free]; rfl
      exact h.pass _ hbegins.symm nofun nofun (by simp [free])
  | advance gate held => exact h.advance gate held
  | shutdown => exact h.keeps rfl rfl rfl rfl unfinished_stopped rfl rfl rfl rfl id h.fits
  | shutdownFlag k next => exact h.keeps rfl rfl rfl rfl rfl rfl rfl rfl rfl id h.fits
  | shutdownDispatch k next => exact h.keeps rfl rfl rfl rfl rfl rfl rfl rfl rfl id h.fits
  | enter dispatch word known entered =>
      exact h.keeps rfl rfl rfl rfl rfl rfl rfl rfl rfl id h.fits
  | leave dispatch held => exact h.keeps rfl rfl rfl rfl rfl rfl rfl rfl rfl id h.fits
  | work after work => exact h.work rfl work

/-! ### What the worker leaves alone -/

/-- An entry of the worker. -/
def Entry.ofWorker : Entry → Bool
  | begun _ => true
  | gaveUp _ => true
  | finished _ => true
  | _ => false

/-- What an operation of the worker leaves to the clients. -/
structure Frame (s after : Service ρ) (entries : List Entry) : Prop where
  log : after.log = s.log ++ entries
  ofWorker : ∀ entry ∈ entries, entry.ofWorker = true
  words : after.words = s.words
  admitted : after.admitted = s.admitted
  fresh : after.fresh = s.fresh
  dispatch : after.dispatch = s.dispatch
  stop : after.stop = s.stop
  shutdowns : after.shutdowns = s.shutdowns
  cancel : after.cancel = true → s.cancel = true
  gate : ∀ gate, after.gate = some gate → gate = .release ∨ s.gate = some gate

theorem Work.frame {worker : Worker ρ} (h : Work s worker after) :
    ∃ entries, Frame s after entries := by
  have hnone : ∀ entry ∈ ([] : List Entry), entry.ofWorker = true := nofun
  have hlog := (List.append_nil s.log).symm
  cases h with
  | releaseLock request next free =>
      exact ⟨[], hlog, hnone, rfl, rfl, rfl, rfl, rfl, rfl, id,
        fun gate hgate => .inl (Option.some.inj hgate).symm⟩
  | releaseCancel request next =>
      exact ⟨[], hlog, hnone, rfl, rfl, rfl, rfl, rfl, rfl, nofun, fun _ => .inr⟩
  | releaseBusy dispatch next =>
      exact ⟨[.finished dispatch], rfl, by simp [Entry.ofWorker], rfl, rfl, rfl, rfl, rfl, rfl, id,
        fun _ => .inr⟩
  | releaseAll next =>
      exact ⟨_, rfl, by simp [Entry.ofWorker], rfl, rfl, rfl, rfl, rfl, rfl, id, fun _ => .inr⟩
  | releaseUnlock request next =>
      exact ⟨[], hlog, hnone, rfl, rfl, rfl, rfl, rfl, rfl, id, nofun⟩
  | startCancelled command site cancel =>
      exact ⟨[.gaveUp command.dispatch], rfl, by simp [Entry.ofWorker], rfl, rfl, rfl, rfl, rfl,
        rfl, nofun, fun _ => .inr⟩
  | startStopped command site stop =>
      exact ⟨[.gaveUp command.dispatch], rfl, by simp [Entry.ofWorker], rfl, rfl, rfl, rfl, rfl,
        rfl, id, fun _ => .inr⟩
  | begun command site record =>
      exact ⟨[.begun command.dispatch], rfl, by simp [Entry.ofWorker], rfl, rfl, rfl, rfl, rfl,
        rfl, id, fun _ => .inr⟩
  | beginFailed command site record error =>
      exact ⟨[.begun command.dispatch], rfl, by simp [Entry.ofWorker], rfl, rfl, rfl, rfl, rfl,
        rfl, id, fun _ => .inr⟩
  | turnCancelled id_ dispatch active cancel =>
      exact ⟨[.gaveUp dispatch], rfl, by simp [Entry.ofWorker], rfl, rfl, rfl, rfl, rfl, rfl, nofun,
        fun _ => .inr⟩
  | turnStopped id_ dispatch active stop =>
      exact ⟨[.gaveUp dispatch], rfl, by simp [Entry.ofWorker], rfl, rfl, rfl, rfl, rfl, rfl, id,
        fun _ => .inr⟩
  | _ => exact ⟨[], hlog, hnone, rfl, rfl, rfl, rfl, rfl, rfl, id, fun _ => .inr⟩

/-! ### Begin calls -/

/-- The command that the worker has not begun. -/
def Worker.waiting : Worker ρ → List Command
  | .publish _ next => next.waiting
  | .release _ _ next => next.waiting
  | .starting command _ => [command]
  | .startStop command _ => [command]
  | .beginning command _ => [command]
  | _ => []

/-- No request is begun twice, and none that was not accepted. -/
structure Begun (s : Service ρ) : Prop where
  known : ∀ n, .accepted n ∈ s.log → n < s.fresh
  sends : ∀ call n, s.gate = some (.send call n) → n < s.fresh ∧ .accepted n ∉ s.log
  accepted : ∀ n, .begun n ∈ s.log → .accepted n ∈ s.log
  once : (s.log.filterMap Entry.begun?).Nodup
  waiting : ∀ command ∈ s.queue ++ s.worker.waiting,
    .accepted command.dispatch ∈ s.log ∧ .begun command.dispatch ∉ s.log

/-- The entry is not of a begin call or of an acceptance. -/
def Entry.plain : Entry → Bool
  | accepted _ => false
  | begun _ => false
  | _ => true

theorem Begun.keeps (h : Begun s) (entries : List Entry) (hlog : after.log = s.log ++ entries)
    (hplain : ∀ entry ∈ entries, entry.plain = true) (hfresh : after.fresh = s.fresh)
    (hgate : ∀ call n, after.gate = some (.send call n) → s.gate = some (.send call n))
    (hwaiting : ∀ command ∈ after.queue ++ after.worker.waiting,
      command ∈ s.queue ++ s.worker.waiting) : Begun after := by
  have haccepted : ∀ n, .accepted n ∈ after.log ↔ .accepted n ∈ s.log := by
    intro n
    rw [hlog, List.mem_append, or_iff_left]
    intro hmem
    cases hplain _ hmem
  have hbegun : ∀ n, .begun n ∈ after.log ↔ .begun n ∈ s.log := by
    intro n
    rw [hlog, List.mem_append, or_iff_left]
    intro hmem
    cases hplain _ hmem
  refine ⟨?_, ?_, ?_, ?_, ?_⟩
  · intro n hn
    rw [hfresh]
    exact h.known n ((haccepted n).mp hn)
  · intro call n hsend
    obtain ⟨hn, hnot⟩ := h.sends call n (hgate call n hsend)
    rw [hfresh, haccepted]
    exact ⟨hn, hnot⟩
  · intro n hn
    exact (haccepted n).mpr (h.accepted n ((hbegun n).mp hn))
  · have hnone : entries.filterMap Entry.begun? = [] := by
      refine List.filterMap_eq_nil_iff.mpr ?_
      intro entry hentry
      cases entry with
      | begun n => cases hplain _ hentry
      | _ => rfl
    rw [hlog, List.filterMap_append, hnone, List.append_nil]
    exact h.once
  · intro command hcommand
    rw [haccepted, hbegun]
    exact h.waiting command (hwaiting command hcommand)

theorem Begun.spawn : Begun (.spawn : Service ρ) where
  known := nofun
  sends := nofun
  accepted := nofun
  once := List.nodup_nil
  waiting := nofun

/-- The gate passes on, and nothing is sent. -/
theorem Begun.pass (h : Begun s) {gate : Option Gate} (requests : Std.ExtTreeSet String compare)
    (hgate : ∀ call n, gate ≠ some (.send call n)) : Begun { s with gate, requests } :=
  h.keeps [] (List.append_nil _).symm nofun rfl (fun call n hsend => absurd hsend (hgate call n))
    fun _ hcommand => hcommand

theorem Begun.advance (h : Begun s) (gate : Gate) (held : s.gate = some gate) :
    Begun (s.advance gate) := by
  cases gate with
  | install call =>
      refine ⟨?_, ?_, h.accepted, h.once, h.waiting⟩
      · intro n hn
        exact Nat.lt_succ_of_lt (h.known n hn)
      · intro call' n hsend
        cases hsend
        exact ⟨Nat.lt_succ_self _, fun hn => Nat.lt_irrefl _ (h.known _ hn)⟩
  | send call dispatch =>
      obtain ⟨hknown, hnew⟩ := h.sends call dispatch held
      rw [Service.advance]
      split
      · exact h.pass _ nofun
      · split
        · exact h.pass _ nofun
        · refine ⟨?_, nofun, ?_, ?_, ?_⟩
          · intro n hn
            rcases List.mem_append.mp hn with hn | hn
            · exact h.known n hn
            · cases List.mem_singleton.mp hn
              exact hknown
          · intro n hn
            rcases List.mem_append.mp hn with hn | hn
            · exact List.mem_append_left _ (h.accepted n hn)
            · cases List.mem_singleton.mp hn
          · have hsame : (s.log ++ [Entry.accepted dispatch]).filterMap Entry.begun? =
                s.log.filterMap Entry.begun? := by
              rw [List.filterMap_append]
              exact List.append_nil _
            exact hsame ▸ h.once
          · intro command hcommand
            have hbegun : .begun command.dispatch ∉ s.log →
                .begun command.dispatch ∉ s.log ++ [Entry.accepted dispatch] := by
              intro hnot hmem
              rcases List.mem_append.mp hmem with hmem | hmem
              · exact hnot hmem
              · cases List.mem_singleton.mp hmem
            by_cases hsame : command = ⟨call, dispatch⟩
            · rw [hsame] at hbegun ⊢
              exact ⟨List.mem_append_right _ (List.mem_singleton_self _),
                hbegun fun hmem => hnew (h.accepted _ hmem)⟩
            · have hold : command ∈ s.queue ++ s.worker.waiting := by
                simpa [hsame] using hcommand
              obtain ⟨hin, hnot⟩ := h.waiting command hold
              exact ⟨List.mem_append_left _ hin, hbegun hnot⟩
  | checkStop call =>
      rw [Service.advance]
      split <;> exact h.pass _ nofun
  | record call =>
      rw [Service.advance]
      split <;> exact h.pass _ nofun
  | acquire call =>
      rw [Service.advance]
      split
      · exact h.pass _ nofun
      · exact h.keeps [] (List.append_nil _).symm nofun rfl nofun fun _ hcommand => hcommand
  | forget call => exact h.pass _ nofun
  | undoRequest call error => exact h.pass _ nofun
  | undoBusy error =>
      exact h.keeps [] (List.append_nil _).symm nofun rfl nofun fun _ hcommand => hcommand
  | cancelStop =>
      rw [Service.advance]
      split <;> exact h.pass _ nofun
  | cancelBusy =>
      rw [Service.advance]
      split <;> exact h.pass _ nofun
  | cancelFlag => exact h.keeps [_] rfl (by simp [Entry.plain]) rfl nofun fun _ hcommand => hcommand
  | cancelDispatch =>
      exact h.keeps [] (List.append_nil _).symm nofun rfl nofun fun _ hcommand => hcommand
  | leave answer cancelled =>
      cases cancelled with
      | none => exact h.pass _ nofun
      | some dispatch =>
          exact h.keeps [_] rfl (by simp [Entry.plain]) rfl nofun fun _ hcommand => hcommand
  | release => exact h

/-- The begin call of a request. -/
theorem Begun.begin (h : Begun s) (ht : Turns s) {command : Command} {site : Site}
    (hworker : s.worker = .beginning command site)
    (hlog : after.log = s.log ++ [.begun command.dispatch]) (hfresh : after.fresh = s.fresh)
    (hgate : after.gate = s.gate) (hqueue : after.queue = s.queue)
    (hwaiting : after.worker.waiting = []) : Begun after := by
  have hmem : command.dispatch ∈ s.carried := by
    rw [Service.carried, hworker]
    simp [Worker.held]
  obtain ⟨-, hempty⟩ := ht.only (hworker ▸ rfl) hmem
  have hnow : command ∈ s.queue ++ s.worker.waiting := by
    rw [hworker]
    simp [Worker.waiting]
  obtain ⟨hin, hnot⟩ := h.waiting command hnow
  have haccepted : ∀ n, .accepted n ∈ after.log ↔ .accepted n ∈ s.log := by
    intro n
    simp [hlog]
  refine ⟨?_, ?_, ?_, ?_, ?_⟩
  · intro n hn
    rw [hfresh]
    exact h.known n ((haccepted n).mp hn)
  · intro call n hsend
    rw [hfresh, haccepted]
    exact h.sends call n (hgate ▸ hsend)
  · intro n hn
    rw [haccepted]
    rw [hlog, List.mem_append, List.mem_singleton] at hn
    rcases hn with hn | hn
    · exact h.accepted n hn
    · cases hn
      exact hin
  · rw [hlog, List.filterMap_append]
    refine List.nodup_append.mpr ⟨h.once, by simp [Entry.begun?], ?_⟩
    intro n hn n' hn' heq
    cases List.mem_singleton.mp hn'
    obtain ⟨entry, hentry, hbegun⟩ := List.mem_filterMap.mp hn
    cases entry with
    | begun m =>
        cases hbegun
        exact hnot (heq ▸ hentry)
    | _ => cases hbegun
  · intro command' hcommand
    rw [hqueue, hempty, hwaiting] at hcommand
    cases hcommand

theorem Begun.work (h : Begun s) (ht : Turns s) {worker : Worker ρ} (hworker : s.worker = worker)
    (hwork : Work s worker after) : Begun after := by
  have hlog := (List.append_nil s.log).symm
  have hqueue : ∀ command ∈ s.queue ++ ([] : List Command),
      command ∈ s.queue ++ s.worker.waiting := by
    intro command hcommand
    rw [List.append_nil] at hcommand
    exact List.mem_append_left _ hcommand
  have hsame : ∀ command ∈ s.queue ++ worker.waiting, command ∈ s.queue ++ s.worker.waiting := by
    rw [hworker]
    exact fun _ => id
  cases hwork with
  | begun command site record =>
      exact h.begin ht hworker rfl rfl rfl rfl (by cases site <;> rfl)
  | beginFailed command site record error =>
      exact h.begin ht hworker rfl rfl rfl rfl (by cases site <;> rfl)
  | publish value next => exact h.keeps [] hlog nofun rfl (fun _ _ => id) hsame
  | releaseLock request next free => exact h.keeps [] hlog nofun rfl nofun hsame
  | releaseCancel request next => exact h.keeps [] hlog nofun rfl (fun _ _ => id) hsame
  | releaseBusy dispatch next =>
      exact h.keeps [_] rfl (by simp [Entry.plain]) rfl (fun _ _ => id) hsame
  | releaseAll next => exact h.keeps _ rfl (by simp [Entry.plain]) rfl (fun _ _ => id) hsame
  | releaseUnlock request next => exact h.keeps [] hlog nofun rfl nofun hsame
  | startCancelled command site cancel =>
      exact h.keeps [_] rfl (by simp [Entry.plain]) rfl (fun _ _ => id) hqueue
  | startGo command site go => exact h.keeps [] hlog nofun rfl (fun _ _ => id) hsame
  | startStopped command site stop =>
      exact h.keeps [_] rfl (by simp [Entry.plain]) rfl (fun _ _ => id) hqueue
  | startBegin command site go => exact h.keeps [] hlog nofun rfl (fun _ _ => id) hsame
  | turnCancelled id_ dispatch active cancel =>
      exact h.keeps [_] rfl (by simp [Entry.plain]) rfl (fun _ _ => id) hqueue
  | turnStopped id_ dispatch active stop =>
      exact h.keeps [_] rfl (by simp [Entry.plain]) rfl (fun _ _ => id) hqueue
  | receive command queue first idle =>
      refine h.keeps [] hlog nofun rfl (fun _ _ => id) ?_
      intro other hother
      rw [first, hworker]
      simpa [Worker.waiting, or_comm] using hother
  | receiveDrop command queue first active =>
      refine h.keeps [] hlog nofun rfl (fun _ _ => id) ?_
      intro other hother
      rw [first]
      simp [Worker.waiting] at hother
      simp [hother]
  | idleReceive command queue first =>
      refine h.keeps [] hlog nofun rfl (fun _ _ => id) ?_
      intro other hother
      rw [first, hworker]
      simpa [Worker.waiting, or_comm] using hother
  | dropped => exact h.keeps [] hlog nofun rfl (fun _ _ => id) nofun
  | _ => exact h.keeps [] hlog nofun rfl (fun _ _ => id) hqueue

theorem Begun.step (h : Begun s) (ht : Turns s) (hstep : Step s after) : Begun after := by
  have hlog := (List.append_nil s.log).symm
  cases hstep with
  | beginKind call valid free => exact h.pass _ nofun
  | cancel free => exact h.pass _ nofun
  | advance gate held => exact h.advance gate held
  | shutdown => exact h.keeps [_] rfl (by simp [Entry.plain]) rfl (fun _ _ => id) fun _ => id
  | work after work => exact h.work ht rfl work
  | _ => exact h.keeps [] hlog nofun rfl (fun _ _ => id) fun _ => id

/-! ### Cancellations -/

/-- What the flag and the log say of cancellations. -/
structure Cancels (s : Service ρ) : Prop where
  stop : s.stop = true ↔ .stopped ∈ s.log
  shutdowns : s.shutdowns ≠ [] → s.stop = true
  flag : s.cancel = true → s.stop = true ∨ ∃ n ∈ unfinished s.log, .cancelled n ∈ s.log
  cleared : ∀ request next, s.worker = .release request .busy next → s.cancel = true →
    s.stop = true
  called : ∀ before n, before ++ [.cancelled n] <+: s.log → unfinished before = [n]
  gave : ∀ before n, before ++ [.gaveUp n] <+: s.log →
    .stopped ∈ before ∨ .cancelled n ∈ before

theorem prefix_of_not_mem {before entries : List Entry}
    (h : before ++ [entry] <+: log ++ entries) (hnot : entry ∉ entries) :
    before ++ [entry] <+: log := by
  induction entries using List.reverseRecOn with
  | nil => rwa [List.append_nil] at h
  | append_singleton entries last ih =>
      rw [← List.append_assoc] at h
      rcases List.prefix_concat_iff.mp h with heq | h
      · have hlast := (List.cons.inj (List.append_inj' heq rfl).2).1
        exact absurd (by simp [hlast]) hnot
      · exact ih h fun hmem => hnot (List.mem_append_left _ hmem)

/-- The entry is not of a cancellation. -/
def Entry.calm : Entry → Bool
  | cancelled _ => false
  | gaveUp _ => false
  | stopped => false
  | _ => true

theorem Cancels.keeps (h : Cancels s) (entries : List Entry) (hlog : after.log = s.log ++ entries)
    (hcalm : ∀ entry ∈ entries, entry.calm = true) (hstop : after.stop = s.stop)
    (hshutdowns : after.shutdowns ≠ [] → s.shutdowns ≠ [])
    (hflag : after.cancel = true → s.stop = true ∨
      s.cancel = true ∧ unfinished after.log = unfinished s.log)
    (hcleared : ∀ request next, after.worker = .release request .busy next →
      after.cancel = true → s.stop = true) : Cancels after := by
  refine ⟨?_, ?_, ?_, ?_, ?_, ?_⟩
  · rw [hstop, hlog, List.mem_append, h.stop, or_iff_left]
    intro hmem
    cases hcalm _ hmem
  · rw [hstop]
    exact fun hnot => h.shutdowns (hshutdowns hnot)
  · intro hcancel
    rw [hstop]
    rcases hflag hcancel with hstopped | ⟨hset, hsame⟩
    · exact .inl hstopped
    · rcases h.flag hset with hstopped | ⟨n, hn, hmem⟩
      · exact .inl hstopped
      · refine .inr ⟨n, hsame ▸ hn, ?_⟩
        rw [hlog]
        exact List.mem_append_left _ hmem
  · rw [hstop]
    exact hcleared
  · intro before n hprefix
    rw [hlog] at hprefix
    exact h.called before n (prefix_of_not_mem hprefix fun hmem => by cases hcalm _ hmem)
  · intro before n hprefix
    rw [hlog] at hprefix
    exact h.gave before n (prefix_of_not_mem hprefix fun hmem => by cases hcalm _ hmem)

theorem Cancels.spawn : Cancels (.spawn : Service ρ) where
  stop := by simp [Service.spawn]
  shutdowns := by simp [Service.spawn]
  flag := nofun
  cleared := nofun
  called := by simp [Service.spawn]
  gave := by simp [Service.spawn]

/-- The request that the worker has is given up. -/
theorem Cancels.gives (h : Cancels s) (ht : Turns s) (hruns : s.worker.runs = true)
    (hn : n ∈ s.carried) (hgives : s.cancel = true ∨ s.stop = true)
    (hlog : after.log = s.log ++ [.gaveUp n]) (hstop : after.stop = s.stop)
    (hshutdowns : after.shutdowns = s.shutdowns)
    (hcancel : after.cancel = true → s.cancel = true)
    (hworker : ∀ request next, after.worker ≠ .release request .busy next) : Cancels after := by
  obtain ⟨honly, -⟩ := ht.only hruns hn
  refine ⟨?_, ?_, ?_, ?_, ?_, ?_⟩
  · rw [hstop, hlog, h.stop]
    simp
  · rw [hstop, hshutdowns]
    exact h.shutdowns
  · intro hset
    rw [hstop, hlog, unfinished_gaveUp]
    rcases h.flag (hcancel hset) with hstopped | ⟨m, hm, hmem⟩
    · exact .inl hstopped
    · exact .inr ⟨m, hm, List.mem_append_left _ hmem⟩
  · exact fun request next hnow => absurd hnow (hworker request next)
  · intro before m hprefix
    rw [hlog] at hprefix
    exact h.called before m (prefix_of_not_mem hprefix (by simp))
  · intro before m hprefix
    rw [hlog] at hprefix
    rcases List.prefix_concat_iff.mp hprefix with heq | hprefix
    · obtain ⟨rfl, hlast⟩ := List.append_inj' heq rfl
      cases hlast
      rcases hgives with hset | hstopped
      · rcases h.flag hset with hstopped | ⟨k, hk, hmem⟩
        · exact .inl (h.stop.mp hstopped)
        · rw [honly, List.mem_singleton] at hk
          exact .inr (hk ▸ hmem)
      · exact .inl (h.stop.mp hstopped)
    · exact h.gave before m hprefix

/-- The gate passes on. -/
theorem Cancels.pass (h : Cancels s) (gate : Option Gate)
    (requests : Std.ExtTreeSet String compare) : Cancels { s with gate, requests } :=
  h.keeps [] (List.append_nil _).symm nofun rfl id (fun hset => .inr ⟨hset, rfl⟩) h.cleared

theorem Cancels.advance (h : Cancels s) (ht : Turns s) (gate : Gate)
    (held : s.gate = some gate) : Cancels (s.advance gate) := by
  have hlog := (List.append_nil s.log).symm
  cases gate with
  | send call dispatch =>
      have hbegins : s.begins = true := by rw [Service.begins, held]; rfl
      obtain ⟨hnone, -⟩ := ht.begins hbegins
      rw [Service.advance]
      split
      · exact h.pass _ _
      · split
        · exact h.pass _ _
        · refine h.keeps [_] rfl (by simp [Entry.calm]) rfl id ?_ h.cleared
          intro hset
          rcases h.flag hset with hstopped | ⟨n, hn, -⟩
          · exact .inl hstopped
          · rw [hnone] at hn
            cases hn
  | cancelFlag =>
      have honly : unfinished s.log = [s.dispatch] := by
        have hone := ht.one
        match hlist : unfinished s.log with
        | [] => exact absurd hlist (ht.flag held)
        | n :: rest =>
            rw [hlist] at hone
            have hrest : rest = [] := List.eq_nil_of_length_eq_zero (Nat.le_zero.mp
              (Nat.le_of_succ_le_succ hone))
            rw [hrest, ht.dispatch n (by rw [hlist]; exact List.mem_cons_self)]
      refine ⟨?_, h.shutdowns, ?_, ?_, ?_, ?_⟩
      · simpa [Service.advance] using h.stop
      · intro _
        refine .inr ⟨s.dispatch, ?_, ?_⟩
        · simp [Service.advance, honly]
        · simp [Service.advance]
      · intro request next hworker
        have hreleases : s.worker.releases = true := by
          have hsame : s.worker = .release request .busy next := hworker
          rw [hsame]
          rfl
        rw [ht.gate.mpr hreleases] at held
        cases held
      · intro before n hprefix
        rcases List.prefix_concat_iff.mp hprefix with heq | hprefix
        · obtain ⟨rfl, hlast⟩ := List.append_inj' heq rfl
          cases hlast
          exact honly
        · exact h.called before n hprefix
      · intro before n hprefix
        exact h.gave before n (prefix_of_not_mem hprefix (by simp))
  | leave answer cancelled =>
      cases cancelled with
      | none => exact h.pass _ _
      | some dispatch =>
          exact h.keeps [_] rfl (by simp [Entry.calm]) rfl id
            (fun hset => .inr ⟨hset, unfinished_returned⟩) h.cleared
  | checkStop call =>
      rw [Service.advance]
      split <;> exact h.pass _ _
  | record call =>
      rw [Service.advance]
      split <;> exact h.pass _ _
  | acquire call =>
      rw [Service.advance]
      split
      · exact h.pass _ _
      · exact h.keeps [] hlog nofun rfl id (fun hset => .inr ⟨hset, rfl⟩) h.cleared
  | cancelStop =>
      rw [Service.advance]
      split <;> exact h.pass _ _
  | cancelBusy =>
      rw [Service.advance]
      split <;> exact h.pass _ _
  | _ => exact h.keeps [] hlog nofun rfl id (fun hset => .inr ⟨hset, rfl⟩) h.cleared

theorem Cancels.work (h : Cancels s) (ht : Turns s) {worker : Worker ρ}
    (hworker : s.worker = worker) (hwork : Work s worker after) : Cancels after := by
  have hlog := (List.append_nil s.log).symm
  have hsame : s.cancel = true → s.stop = true ∨
    s.cancel = true ∧ unfinished s.log = unfinished s.log := fun hset => .inr ⟨hset, rfl⟩
  have hfits := ht.fits
  rw [hworker] at hfits
  cases hwork with
  | publish value next =>
      refine h.keeps [] hlog nofun rfl id hsame ?_
      intro request next' hnow
      have hreleases := hfits.2
      rw [show next = .release request .busy next' from hnow] at hreleases
      cases hreleases
  | releaseLock request next free => exact h.keeps [] hlog nofun rfl id hsame nofun
  | releaseCancel request next => exact h.keeps [] hlog nofun rfl id nofun nofun
  | releaseBusy dispatch next =>
      exact h.keeps [_] rfl (by simp [Entry.calm]) rfl id
        (fun hset => .inl (h.cleared _ _ hworker hset)) nofun
  | releaseAll next =>
      exact h.keeps _ rfl (by simp [Entry.calm]) rfl id
        (fun hset => .inl (h.cleared _ _ hworker hset)) nofun
  | releaseUnlock request next =>
      refine h.keeps [] hlog nofun rfl id hsame ?_
      intro request' next' hnow
      have hreleases := hfits.2.2.1
      rw [show next = .release request' .busy next' from hnow] at hreleases
      cases hreleases
  | startCancelled command site cancel =>
      exact h.gives ht (hworker ▸ rfl) (by simp [Service.carried, hworker, Worker.held])
        (.inl cancel) rfl rfl rfl nofun nofun
  | startStopped command site stop =>
      exact h.gives ht (hworker ▸ rfl) (by simp [Service.carried, hworker, Worker.held])
        (.inr stop) rfl rfl rfl id nofun
  | turnCancelled id_ dispatch active cancel =>
      exact h.gives ht (hworker ▸ rfl) (by simp [Service.carried, active])
        (.inl cancel) rfl rfl rfl nofun nofun
  | turnStopped id_ dispatch active stop =>
      exact h.gives ht (hworker ▸ rfl) (by simp [Service.carried, active])
        (.inr stop) rfl rfl rfl id nofun
  | begun command site record =>
      exact h.keeps [_] rfl (by simp [Entry.calm]) rfl id
        (fun hset => .inr ⟨hset, unfinished_begun⟩) nofun
  | beginFailed command site record error =>
      exact h.keeps [_] rfl (by simp [Entry.calm]) rfl id
        (fun hset => .inr ⟨hset, unfinished_begun⟩) nofun
  | _ => exact h.keeps [] hlog nofun rfl id hsame nofun

theorem Cancels.step (h : Cancels s) (ht : Turns s) (hstep : Step s after) : Cancels after := by
  have hlog := (List.append_nil s.log).symm
  cases hstep with
  | beginKind call valid free => exact h.pass _ _
  | cancel free => exact h.pass _ _
  | advance gate held => exact h.advance ht gate held
  | shutdown =>
      refine ⟨by simp, fun _ => rfl, fun _ => .inl rfl, fun _ _ _ _ => rfl, ?_, ?_⟩
      · intro before n hprefix
        exact h.called before n (prefix_of_not_mem hprefix (by simp))
      · intro before n hprefix
        exact h.gave before n (prefix_of_not_mem hprefix (by simp))
  | shutdownFlag k next =>
      have hstopped : s.stop = true := by
        refine h.shutdowns ?_
        intro hnone
        rw [hnone] at next
        cases next
      exact h.keeps [] hlog nofun rfl (fun _ hnone => by rw [hnone] at next; cases next)
        (fun _ => .inl hstopped) fun _ _ _ _ => hstopped
  | shutdownDispatch k next =>
      exact h.keeps [] hlog nofun rfl (fun _ hnone => by rw [hnone] at next; cases next)
        (fun hset => .inr ⟨hset, rfl⟩) h.cleared
  | work after work => exact h.work ht rfl work
  | _ => exact h.keeps [] hlog nofun rfl id (fun hset => .inr ⟨hset, rfl⟩) h.cleared

/-! ### Admissions -/

theorem cancelWord_eq (word : Nat) : cancelWord word = 2 * (word / 2) + 1 := by
  have hmod : (word ||| 1) % 2 = 1 := Nat.or_mod_two_eq_one.mpr (.inr rfl)
  have hdiv : (word ||| 1) / 2 = word / 2 := by
    rw [Nat.or_div_two]
    exact Nat.or_zero _
  rw [cancelWord]
  omega

theorem enterWord_eq {word word' : Nat} (h : enterWord word = some word') :
    word % 2 = 0 ∧ word' = word + 2 ∧ word' < wordLimit := by
  rw [enterWord, Nat.and_one_is_mod] at h
  by_cases hopen : word % 2 = 0
  · rw [if_pos hopen] at h
    by_cases hplace : word + 2 < wordLimit
    · rw [if_pos hplace] at h
      cases h
      exact ⟨hopen, rfl, hplace⟩
    · rw [if_neg hplace] at h
      cases h
  · rw [if_neg hopen] at h
    cases h

theorem enterWord_cancelled {word : Nat} (h : word % 2 = 1) : enterWord word = none := by
  rw [enterWord, Nat.and_one_is_mod, if_neg (by rw [h]; decide)]

theorem leaveWord_eq (word : Nat) (hlow : 2 ≤ word) (hhigh : word < wordLimit) :
    leaveWord word = word - 2 := by
  rw [wordLimit] at hhigh
  rw [leaveWord, wordLimit]
  omega

/-- The upper bits of a word count the admissions, and the low bit is of a cancellation. -/
structure Admissions (s : Service ρ) : Prop where
  word : ∀ n, s.words n < wordLimit ∧ s.words n / 2 = s.admitted.count n
  known : ∀ n ∈ s.admitted, n < s.fresh
  dispatch : s.dispatch < s.fresh
  cause : ∀ n, s.words n % 2 = 1 → .stopped ∈ s.log ∨ .cancelled n ∈ s.log
  cancelling : s.gate = some .cancelDispatch → .cancelled s.dispatch ∈ s.log
  leaving : ∀ answer n, s.gate = some (.leave answer (some n)) → s.words n % 2 = 1 ∧ n < s.fresh
  returned : ∀ n, .returned n ∈ s.log → s.words n % 2 = 1 ∧ n < s.fresh

theorem Admissions.spawn : Admissions (.spawn : Service ρ) where
  word := by
    intro n
    show 0 < wordLimit ∧ 0 / 2 = ([] : List Nat).count n
    exact ⟨by decide, rfl⟩
  known := nofun
  dispatch := Nat.one_pos
  cause := nofun
  cancelling := nofun
  leaving := nofun
  returned := nofun

/-- What has no part in admissions. -/
theorem Admissions.keeps (h : Admissions s) (entries : List Entry)
    (hlog : after.log = s.log ++ entries) (hreturned : ∀ n, .returned n ∉ entries)
    (hwords : after.words = s.words) (hadmitted : after.admitted = s.admitted)
    (hfresh : after.fresh = s.fresh) (hdispatch : after.dispatch = s.dispatch)
    (hcancelling : after.gate = some .cancelDispatch → .cancelled s.dispatch ∈ after.log)
    (hleaving : ∀ answer n, after.gate = some (.leave answer (some n)) →
      s.gate = some (.leave answer (some n))) : Admissions after := by
  refine ⟨?_, ?_, ?_, ?_, ?_, ?_, ?_⟩
  · rw [hwords, hadmitted]
    exact h.word
  · rw [hadmitted, hfresh]
    exact h.known
  · rw [hdispatch, hfresh]
    exact h.dispatch
  · intro n hodd
    rw [hwords] at hodd
    rw [hlog]
    rcases h.cause n hodd with hmem | hmem
    · exact .inl (List.mem_append_left _ hmem)
    · exact .inr (List.mem_append_left _ hmem)
  · rw [hdispatch]
    exact hcancelling
  · rw [hwords, hfresh]
    exact fun answer n hgate => h.leaving answer n (hleaving answer n hgate)
  · intro n hn
    rw [hwords, hfresh]
    rw [hlog] at hn
    exact h.returned n ((List.mem_append.mp hn).resolve_right (hreturned n))

theorem Admissions.pass (h : Admissions s) {gate : Option Gate}
    (requests : Std.ExtTreeSet String compare) (hcancelling : gate ≠ some .cancelDispatch)
    (hleaving : ∀ answer n, gate ≠ some (.leave answer (some n))) :
    Admissions { s with gate, requests } :=
  h.keeps [] (List.append_nil _).symm nofun rfl rfl rfl rfl
    (fun hgate => absurd hgate hcancelling) fun answer n hgate => absurd hgate (hleaving answer n)

/-- A word is cancelled, and what else happens is not of admissions. -/
theorem Admissions.cancels (h : Admissions s) (hlog : after.log = s.log)
    (hwords : after.words =
      Function.update s.words s.dispatch (cancelWord (s.words s.dispatch)))
    (hadmitted : after.admitted = s.admitted) (hfresh : after.fresh = s.fresh)
    (hdispatch : after.dispatch = s.dispatch)
    (hcause : .stopped ∈ s.log ∨ .cancelled s.dispatch ∈ s.log)
    (hcancelling : after.gate = some .cancelDispatch → s.gate = some .cancelDispatch)
    (hleaving : ∀ answer n, after.gate = some (.leave answer (some n)) →
      s.gate = some (.leave answer (some n)) ∨ n = s.dispatch) : Admissions after := by
  have hword := cancelWord_eq (s.words s.dispatch)
  have hother : ∀ n, n ≠ s.dispatch → after.words n = s.words n := by
    intro n hne
    rw [hwords, Function.update_of_ne hne]
  have hsame : after.words s.dispatch = 2 * (s.words s.dispatch / 2) + 1 := by
    rw [hwords, Function.update_self, hword]
  have hodd : ∀ n, s.words n % 2 = 1 ∨ n = s.dispatch → after.words n % 2 = 1 := by
    intro n hn
    by_cases heq : n = s.dispatch
    · rw [heq, hsame]
      omega
    · rw [hother n heq]
      exact hn.resolve_right heq
  refine ⟨?_, ?_, ?_, ?_, ?_, ?_, ?_⟩
  · intro n
    rw [hadmitted]
    obtain ⟨hhigh, hcount⟩ := h.word n
    by_cases heq : n = s.dispatch
    · rw [heq] at hhigh hcount ⊢
      rw [hsame]
      rw [wordLimit] at hhigh ⊢
      omega
    · rw [hother n heq]
      exact ⟨hhigh, hcount⟩
  · rw [hadmitted, hfresh]
    exact h.known
  · rw [hdispatch, hfresh]
    exact h.dispatch
  · intro n hn
    rw [hlog]
    by_cases heq : n = s.dispatch
    · exact heq ▸ hcause
    · rw [hother n heq] at hn
      exact h.cause n hn
  · intro hgate
    rw [hdispatch, hlog]
    exact h.cancelling (hcancelling hgate)
  · intro answer n hgate
    rw [hfresh]
    rcases hleaving answer n hgate with hgate | heq
    · obtain ⟨hn, hknown⟩ := h.leaving answer n hgate
      exact ⟨hodd n (.inl hn), hknown⟩
    · exact ⟨hodd n (.inr heq), heq ▸ h.dispatch⟩
  · intro n hn
    rw [hlog] at hn
    obtain ⟨hset, hknown⟩ := h.returned n hn
    rw [hfresh]
    exact ⟨hodd n (.inl hset), hknown⟩

/-- A send is admitted, or an admission ends. -/
theorem Admissions.admits (h : Admissions s) {dispatch word : Nat} {admitted : List Nat}
    (hparity : word % 2 = s.words dispatch % 2) (hhigh : word < wordLimit)
    (hcount : word / 2 = admitted.count dispatch)
    (hother : ∀ n, n ≠ dispatch → admitted.count n = s.admitted.count n)
    (hknown : ∀ n ∈ admitted, n < s.fresh) :
    Admissions { s with words := Function.update s.words dispatch word, admitted } := by
  have hparities : ∀ n, Function.update s.words dispatch word n % 2 = s.words n % 2 := by
    intro n
    by_cases heq : n = dispatch
    · rw [heq, Function.update_self, hparity]
    · rw [Function.update_of_ne heq]
  refine ⟨?_, hknown, h.dispatch, ?_, h.cancelling, ?_, ?_⟩
  · intro n
    show Function.update s.words dispatch word n < wordLimit ∧
      Function.update s.words dispatch word n / 2 = admitted.count n
    by_cases heq : n = dispatch
    · rw [heq, Function.update_self]
      exact ⟨hhigh, hcount⟩
    · rw [Function.update_of_ne heq, hother n heq]
      exact h.word n
  · exact fun n hodd => h.cause n ((hparities n).symm.trans hodd)
  · intro answer n hgate
    obtain ⟨hodd, hbelow⟩ := h.leaving answer n hgate
    exact ⟨(hparities n).trans hodd, hbelow⟩
  · intro n hn
    obtain ⟨hodd, hbelow⟩ := h.returned n hn
    exact ⟨(hparities n).trans hodd, hbelow⟩

theorem Admissions.advance (h : Admissions s) (gate : Gate) (held : s.gate = some gate) :
    Admissions (s.advance gate) := by
  have hlog := (List.append_nil s.log).symm
  cases gate with
  | install call =>
      have hnone : s.admitted.count s.fresh = 0 := by
        refine List.count_eq_zero.mpr ?_
        exact fun hmem => Nat.lt_irrefl _ (h.known _ hmem)
      have hother : ∀ n, n < s.fresh → Function.update s.words s.fresh 0 n = s.words n :=
        fun n hn => Function.update_of_ne (Nat.ne_of_lt hn) _ _
      refine ⟨?_, ?_, Nat.lt_succ_self _, ?_, nofun, nofun, ?_⟩
      · intro n
        by_cases heq : n = s.fresh
        · rw [heq]
          show Function.update s.words s.fresh 0 s.fresh < wordLimit ∧
            Function.update s.words s.fresh 0 s.fresh / 2 = s.admitted.count s.fresh
          rw [Function.update_self, hnone]
          exact ⟨by decide, rfl⟩
        · show Function.update s.words s.fresh 0 n < wordLimit ∧
            Function.update s.words s.fresh 0 n / 2 = s.admitted.count n
          rw [Function.update_of_ne heq]
          exact h.word n
      · exact fun n hn => Nat.lt_succ_of_lt (h.known n hn)
      · intro n hodd
        have hodd' : Function.update s.words s.fresh 0 n % 2 = 1 := hodd
        by_cases heq : n = s.fresh
        · rw [heq, Function.update_self] at hodd'
          cases hodd'
        · rw [Function.update_of_ne heq] at hodd'
          exact h.cause n hodd'
      · intro n hn
        obtain ⟨hodd, hknown⟩ := h.returned n hn
        refine ⟨?_, Nat.lt_succ_of_lt hknown⟩
        show Function.update s.words s.fresh 0 n % 2 = 1
        rw [hother n hknown]
        exact hodd
  | send call dispatch =>
      rw [Service.advance]
      split
      · exact h.pass _ nofun nofun
      · split
        · exact h.pass _ nofun nofun
        · exact h.keeps [_] rfl (by simp) rfl rfl rfl rfl nofun nofun
  | cancelFlag =>
      exact h.keeps [_] rfl (by simp) rfl rfl rfl rfl
        (fun _ => List.mem_append_right _ (List.mem_singleton_self _)) nofun
  | cancelDispatch =>
      refine h.cancels rfl rfl rfl rfl rfl (.inr (h.cancelling held)) nofun ?_
      intro answer n hgate
      cases hgate
      exact .inr rfl
  | leave answer cancelled =>
      cases cancelled with
      | none => exact h.pass _ nofun nofun
      | some dispatch =>
          obtain ⟨hodd, hknown⟩ := h.leaving answer dispatch held
          refine ⟨h.word, h.known, h.dispatch, ?_, nofun, nofun, ?_⟩
          · intro n hn
            rcases h.cause n hn with hmem | hmem
            · exact .inl (List.mem_append_left _ hmem)
            · exact .inr (List.mem_append_left _ hmem)
          · intro n hn
            rcases List.mem_append.mp hn with hn | hn
            · exact h.returned n hn
            · cases List.mem_singleton.mp hn
              exact ⟨hodd, hknown⟩
  | checkStop call =>
      rw [Service.advance]
      split <;> exact h.pass _ nofun nofun
  | record call =>
      rw [Service.advance]
      split <;> exact h.pass _ nofun nofun
  | acquire call =>
      rw [Service.advance]
      split
      · exact h.pass _ nofun nofun
      · exact h.keeps [] hlog nofun rfl rfl rfl rfl nofun nofun
  | forget call => exact h.pass _ nofun nofun
  | undoRequest call error => exact h.pass _ nofun nofun
  | undoBusy error => exact h.keeps [] hlog nofun rfl rfl rfl rfl nofun nofun
  | cancelStop =>
      rw [Service.advance]
      split <;> exact h.pass _ nofun nofun
  | cancelBusy =>
      rw [Service.advance]
      split <;> exact h.pass _ nofun nofun
  | release => exact h

theorem Admissions.step (h : Admissions s) (hc : Cancels s) (hstep : Step s after) :
    Admissions after := by
  have hlog := (List.append_nil s.log).symm
  cases hstep with
  | beginKind call valid free => exact h.pass _ nofun nofun
  | cancel free => exact h.pass _ nofun nofun
  | advance gate held => exact h.advance gate held
  | shutdown =>
      exact h.keeps [_] rfl (by simp) rfl rfl rfl rfl
        (fun hgate => List.mem_append_left _ (h.cancelling hgate)) fun _ _ => id
  | shutdownFlag k next => exact h.keeps [] hlog nofun rfl rfl rfl rfl h.cancelling fun _ _ => id
  | shutdownDispatch k next =>
      refine h.cancels rfl rfl rfl rfl rfl (.inl (hc.stop.mp (hc.shutdowns ?_))) id
        fun _ _ => .inl
      intro hnone
      rw [hnone] at next
      cases next
  | enter dispatch word known entered =>
      obtain ⟨heven, hword, hplace⟩ := enterWord_eq entered
      have hcount := (h.word dispatch).2
      refine h.admits (by omega) hplace ?_ ?_ ?_
      · rw [List.count_cons_self]
        omega
      · exact fun n hne => List.count_cons_of_ne (Ne.symm hne)
      · intro n hn
        rcases List.mem_cons.mp hn with rfl | hn
        · exact known
        · exact h.known n hn
  | leave dispatch held =>
      obtain ⟨hhigh, hcount⟩ := h.word dispatch
      have hpositive := List.count_pos_iff.mpr held
      have hword := leaveWord_eq (s.words dispatch) (by omega) hhigh
      refine h.admits (by omega) (by omega) ?_ ?_ ?_
      · rw [List.count_erase_self]
        omega
      · exact fun n hne => List.count_erase_of_ne hne
      · exact fun n hn => h.known n (List.mem_of_mem_erase hn)
  | work after work =>
      obtain ⟨entries, hframe⟩ := work.frame
      refine h.keeps entries hframe.log ?_ hframe.words hframe.admitted hframe.fresh
        hframe.dispatch ?_ ?_
      · intro n hmem
        cases hframe.ofWorker _ hmem
      · intro hgate
        rcases hframe.gate _ hgate with hnow | hbefore
        · cases hnow
        · rw [hframe.log]
          exact List.mem_append_left _ (h.cancelling hbefore)
      · intro answer n hgate
        rcases hframe.gate _ hgate with hnow | hbefore
        · cases hnow
        · exact hbefore

/-! ### Snapshots -/

/-- The request of the last begin call. -/
def owner (outputs : List (Output ρ)) : Option String :=
  outputs.foldl (fun current output =>
    match output with
    | .began id => some id
    | _ => current) none

/-- What a snapshot shows, the runtime gave out for the request of its id. -/
structure Shown (outputs : List (Output ρ)) (value : ServiceSnapshot ρ) : Prop where
  result : ∀ result, value.result = some result → ∃ id before, value.requestId = some id ∧
    before ++ [.polled result] <+: outputs ∧ owner before = some id
  text : value.partialText ≠ "" → ∃ id before, value.requestId = some id ∧
    before ++ [.text value.partialText] <+: outputs ∧ owner before = some id
  record : ∀ record, value.userRecordId = some record → ∃ id, value.requestId = some id ∧
    .recorded id record ∈ outputs

def Worker.Shows (outputs : List (Output ρ)) : Worker ρ → Prop
  | .publish value next => Shown outputs value ∧ next.Shows outputs
  | .release _ _ next => next.Shows outputs
  | _ => True

structure Published (s : Service ρ) : Prop where
  snapshot : Shown s.outputs s.snapshot
  pending : s.worker.Shows s.outputs
  active : ∀ id n, s.active = some (id, n) → owner s.outputs = some id

variable {outputs more : List (Output ρ)} {value previous : ServiceSnapshot ρ}

theorem Shown.mono (h : Shown outputs value) (more : List (Output ρ)) :
    Shown (outputs ++ more) value := by
  refine ⟨?_, ?_, ?_⟩
  · intro result hresult
    obtain ⟨id, before, hid, hbefore, howner⟩ := h.result result hresult
    exact ⟨id, before, hid, hbefore.trans (List.prefix_append _ _), howner⟩
  · intro htext
    obtain ⟨id, before, hid, hbefore, howner⟩ := h.text htext
    exact ⟨id, before, hid, hbefore.trans (List.prefix_append _ _), howner⟩
  · intro record hrecord
    obtain ⟨id, hid, hmem⟩ := h.record record hrecord
    exact ⟨id, hid, List.mem_append_left _ hmem⟩

/-- A snapshot without result, text and record. -/
theorem Shown.bare (hresult : value.result = none) (htext : value.partialText = "")
    (hrecord : value.userRecordId = none) : Shown outputs value := by
  refine ⟨?_, fun hnot => absurd htext hnot, ?_⟩
  · intro result hsome
    rw [hresult] at hsome
    cases hsome
  · intro record hsome
    rw [hrecord] at hsome
    cases hsome

theorem Shown.publish (h : Shown outputs value) (hprevious : Shown outputs previous) :
    Shown outputs (publish previous value) := by
  rw [AssistantService.publish]
  by_cases hsame : (value.userRecordId.isNone && value.requestId.isSome &&
      value.requestId = previous.requestId) = true
  · rw [if_pos hsame]
    have hid : value.requestId = previous.requestId := by
      simp only [Bool.and_eq_true, decide_eq_true_eq] at hsame
      exact hsame.2
    refine ⟨h.result, h.text, ?_⟩
    intro record hrecord
    obtain ⟨id, hown, hmem⟩ := hprevious.record record hrecord
    exact ⟨id, hid.trans hown, hmem⟩
  · rw [if_neg hsame]
    exact h

theorem owner_begun (id : String) (record : Option String) :
    owner (outputs ++ begunOutputs id record) = some id := by
  rw [owner, begunOutputs, List.foldl_append, List.foldl_cons]
  cases record <;> rfl

/-- The text that the runtime gives out while a request is active. -/
theorem Shown.ofText {id text : String} (howner : owner outputs = some id)
    (hid : value.requestId = some id) (htext : value.partialText = text)
    (hresult : value.result = none) (hrecord : value.userRecordId = none) :
    Shown (outputs ++ [.text text]) value := by
  refine ⟨?_, ?_, ?_⟩
  · intro result hsome
    rw [hresult] at hsome
    cases hsome
  · intro _
    rw [htext]
    exact ⟨id, outputs, hid, List.prefix_refl _, howner⟩
  · intro record hsome
    rw [hrecord] at hsome
    cases hsome

theorem Shown.ofResult {id text : String} {result : ρ} (howner : owner outputs = some id)
    (hid : value.requestId = some id) (htext : value.partialText = text)
    (hresult : value.result = some result) (hrecord : value.userRecordId = none) :
    Shown (outputs ++ [.polled result, .text text]) value := by
  have hlast : owner (outputs ++ [.polled result]) = some id := by
    rw [owner, List.foldl_append]
    exact howner
  refine ⟨?_, ?_, ?_⟩
  · intro result' hsome
    rw [hresult] at hsome
    cases hsome
    exact ⟨id, outputs, hid, ⟨[.text text], by simp⟩, howner⟩
  · intro _
    rw [htext]
    exact ⟨id, outputs ++ [.polled result], hid, ⟨[], by simp⟩, hlast⟩
  · intro record hsome
    rw [hrecord] at hsome
    cases hsome

theorem Shown.ofRecord {id : String} {record : Option String} (hid : value.requestId = some id)
    (hresult : value.result = none) (htext : value.partialText = "")
    (hrecord : value.userRecordId = record) :
    Shown (outputs ++ begunOutputs id record) value := by
  refine ⟨?_, fun hnot => absurd htext hnot, ?_⟩
  · intro result hsome
    rw [hresult] at hsome
    cases hsome
  · intro record' hsome
    rw [hrecord] at hsome
    exact ⟨id, hid, List.mem_append_right _ (by simp [begunOutputs, hsome])⟩

theorem owner_poll {id text : String} (h : owner outputs = some id) :
    owner (outputs ++ [.text text]) = some id := by
  rw [owner, List.foldl_append]
  exact h

theorem Published.spawn : Published (.spawn : Service ρ) where
  snapshot := .bare rfl rfl rfl
  pending := trivial
  active := nofun

/-- Nothing is given out. -/
theorem Published.keeps (h : Published s) (houtputs : after.outputs = s.outputs)
    (hsnapshot : after.snapshot = s.snapshot) (hactive : after.active = s.active ∨
      after.active = none) (hpending : after.worker.Shows s.outputs) : Published after := by
  refine ⟨?_, ?_, ?_⟩
  · rw [houtputs, hsnapshot]
    exact h.snapshot
  · rw [houtputs]
    exact hpending
  · intro id n hnow
    rw [houtputs]
    rcases hactive with hsame | hnone
    · exact h.active id n (hsame ▸ hnow)
    · rw [hnone] at hnow
      cases hnow

theorem Published.work (h : Published s) (ht : Turns s) {worker : Worker ρ}
    (hworker : s.worker = worker) (hwork : Work s worker after) : Published after := by
  have hpending := h.pending
  have hfits := ht.fits
  rw [hworker] at hpending hfits
  cases hwork with
  | created => exact h.keeps rfl rfl (.inl rfl) ⟨.bare rfl rfl rfl, trivial⟩
  | notCreated error => exact h.keeps rfl rfl (.inl rfl) ⟨.bare rfl rfl rfl, trivial⟩
  | publish value next => exact ⟨hpending.1.publish h.snapshot, hpending.2, h.active⟩
  | releaseLock request next free => exact h.keeps rfl rfl (.inl rfl) hpending
  | releaseCancel request next => exact h.keeps rfl rfl (.inl rfl) hpending
  | releaseBusy dispatch next => exact h.keeps rfl rfl (.inl rfl) hpending
  | releaseAll next => exact h.keeps rfl rfl (.inl rfl) hpending
  | releaseUnlock request next => exact h.keeps rfl rfl (.inl rfl) hpending
  | headStop idle stop => exact h.keeps rfl rfl (.inl rfl) ⟨.bare rfl rfl rfl, trivial⟩
  | startCancelled command site cancel =>
      exact h.keeps rfl rfl (.inl rfl) ⟨.bare rfl rfl rfl, trivial⟩
  | startStopped command site stop =>
      exact h.keeps rfl rfl (.inl rfl) ⟨.bare rfl rfl rfl, trivial⟩
  | begun command site record =>
      refine ⟨h.snapshot.mono _, ⟨.ofRecord rfl rfl rfl rfl, ?_⟩, ?_⟩
      · cases site <;> trivial
      · intro id n hactive
        cases hactive
        exact owner_begun _ _
  | beginFailed command site record error =>
      have hnone : s.active = none := hfits
      refine ⟨h.snapshot.mono _, ⟨.ofRecord rfl rfl rfl rfl, ?_⟩, ?_⟩
      · cases site <;> trivial
      · intro id n hactive
        have hnow : s.active = some (id, n) := hactive
        rw [hnone] at hnow
        cases hnow
  | turnCancelled id_ dispatch active cancel =>
      exact h.keeps rfl rfl (.inl rfl) ⟨.bare rfl rfl rfl, trivial⟩
  | turnStopped id_ dispatch active stop =>
      exact h.keeps rfl rfl (.inl rfl) ⟨.bare rfl rfl rfl, trivial⟩
  | cancelActive id_ dispatch active error =>
      exact h.keeps rfl rfl (.inr rfl) ⟨.bare rfl rfl rfl, trivial⟩
  | afterCancelStop stop => exact h.keeps rfl rfl (.inl rfl) ⟨.bare rfl rfl rfl, trivial⟩
  | completed id_ dispatch active result partialText =>
      have howner := h.active id_ dispatch active
      exact ⟨h.snapshot.mono _, ⟨.ofResult howner rfl rfl rfl rfl, trivial⟩, nofun⟩
  | polled id_ dispatch active partialText =>
      have howner := h.active id_ dispatch active
      exact ⟨h.snapshot.mono _, ⟨.ofText howner rfl rfl rfl rfl, trivial⟩,
        fun id n hactive => owner_poll (h.active id n hactive)⟩
  | pollFailed id_ dispatch active error partialText =>
      have howner := h.active id_ dispatch active
      exact ⟨h.snapshot.mono _, ⟨.ofText howner rfl rfl rfl rfl, trivial⟩, nofun⟩
  | idleStop stop => exact h.keeps rfl rfl (.inl rfl) ⟨.bare rfl rfl rfl, trivial⟩
  | _ => exact h.keeps rfl rfl (.inl rfl) trivial

theorem Published.step (h : Published s) (ht : Turns s) (hstep : Step s after) :
    Published after := by
  cases hstep with
  | advance gate held =>
      cases gate with
      | checkStop call =>
          rw [Service.advance]
          split <;> exact h.keeps rfl rfl (.inl rfl) h.pending
      | record call =>
          rw [Service.advance]
          split <;> exact h.keeps rfl rfl (.inl rfl) h.pending
      | acquire call =>
          rw [Service.advance]
          split <;> exact h.keeps rfl rfl (.inl rfl) h.pending
      | send call dispatch =>
          rw [Service.advance]
          split
          · exact h.keeps rfl rfl (.inl rfl) h.pending
          · split <;> exact h.keeps rfl rfl (.inl rfl) h.pending
      | cancelStop =>
          rw [Service.advance]
          split <;> exact h.keeps rfl rfl (.inl rfl) h.pending
      | cancelBusy =>
          rw [Service.advance]
          split <;> exact h.keeps rfl rfl (.inl rfl) h.pending
      | leave answer cancelled => cases cancelled <;> exact h.keeps rfl rfl (.inl rfl) h.pending
      | _ => exact h.keeps rfl rfl (.inl rfl) h.pending
  | work after work => exact h.work ht rfl work
  | _ => exact h.keeps rfl rfl (.inl rfl) h.pending

/-! ### Runs -/

structure Sound (s : Service ρ) : Prop where
  turns : Turns s
  begun : Begun s
  cancels : Cancels s
  admissions : Admissions s
  published : Published s

theorem Run.sound (h : Run s) : Sound s := by
  induction h with
  | start => exact ⟨.spawn, .spawn, .spawn, .spawn, .spawn⟩
  | step s after run step ih =>
      exact ⟨ih.turns.step step, ih.begun.step ih.turns step, ih.cancels.step ih.turns step,
        ih.admissions.step ih.cancels step, ih.published.step ih.turns step⟩

/-- In every run of clients and worker: at most one accepted request is unfinished, and `busy` says
so; a request is begun once and after it was accepted; `cancel` finds the one unfinished request,
and the worker gives up a request that was found, or when the service stops; a word is cancelled for
no other reason, is entered no more after `cancel` has returned, and counts the admissions that are
left; and the snapshot shows a request what the runtime gave out for it. -/
theorem one_turn_at_a_time (s : Service ρ) (hrun : Run s) :
    ((unfinished s.log).length ≤ 1 ∧ (unfinished s.log ≠ [] → s.busy = true)) ∧
    ((s.log.filterMap Entry.begun?).Nodup ∧ ∀ n, .begun n ∈ s.log → .accepted n ∈ s.log) ∧
    ((∀ before n, before ++ [.cancelled n] <+: s.log → unfinished before = [n]) ∧
      (∀ before n, before ++ [.gaveUp n] <+: s.log → .stopped ∈ before ∨ .cancelled n ∈ before) ∧
      ∀ n, s.words n % 2 = 1 → .stopped ∈ s.log ∨ .cancelled n ∈ s.log) ∧
    ((∀ n, .returned n ∈ s.log → enterWord (s.words n) = none) ∧
      ∀ n, s.words n / 2 = s.admitted.count n) ∧
    Shown s.outputs s.snapshot := by
  obtain ⟨hturns, hbegun, hcancels, hadmissions, hpublished⟩ := hrun.sound
  refine ⟨⟨hturns.one, ?_⟩, ⟨hbegun.once, hbegun.accepted⟩,
    ⟨hcancels.called, hcancels.gave, hadmissions.cause⟩, ⟨?_, fun n => (hadmissions.word n).2⟩,
    hpublished.snapshot⟩
  · intro hnot
    cases hbegins : s.begins with
    | true => exact (hturns.begins hbegins).2
    | false => exact (hturns.busy hbegins).mpr hnot
  · exact fun n hn => enterWord_cancelled (hadmissions.returned n hn).1

end Runs

/-! ### One request -/

def sampleCall : Call := .ofBegin "r" "hello"

/-- The service whose gate is taken by a `begin`. -/
def askedService : Service Unit :=
  { Service.spawn with gate := some (.checkStop sampleCall) }

/-- And which has accepted it. -/
def acceptedService : Service Unit :=
  ((((askedService.advance (.checkStop sampleCall)).advance (.record sampleCall)).advance
    (.acquire sampleCall)).advance (.install sampleCall)).advance (.send sampleCall 1)

theorem acceptedService_run : Run acceptedService := by
  have hasked : Run askedService := .step _ _ .start (.beginKind sampleCall (by decide) rfl)
  have hchecked := Run.step _ _ hasked (.advance (.checkStop sampleCall) rfl)
  have hrecorded := Run.step _ _ hchecked (.advance (.record sampleCall) rfl)
  have hacquired := Run.step _ _ hrecorded (.advance (.acquire sampleCall) rfl)
  have hinstalled := Run.step _ _ hacquired (.advance (.install sampleCall) rfl)
  exact .step _ _ hinstalled (.advance (.send sampleCall 1) rfl)

theorem one_turn_at_a_time_accepted : unfinished acceptedService.log = [1] ∧
    acceptedService.busy = true := by
  have hlog : acceptedService.log = [.accepted 1] := by decide +kernel
  have hone : unfinished acceptedService.log = [1] := by
    rw [hlog]
    rfl
  obtain ⟨⟨-, hbusy⟩, -⟩ := one_turn_at_a_time acceptedService acceptedService_run
  exact ⟨hone, hbusy (by rw [hone]; exact List.cons_ne_nil _ _)⟩

end Pikamux.AssistantService
