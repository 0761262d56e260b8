import Pikamux.Assistant.Transport

/-!
# Assistant — Provider

The main assistant over one provider process: a turn is begun by one request, its text is collected
from the events that name it, and an outcome that leaves open whether the provider has it ends the
assistant for good.

* `beginTurn`, `pollTurn`, `cancel` — the calls; a `Run` is any order of them, with anything the
  provider sends in between.
* `Settled` — how the turns that were asked for and the ones that have ended go with the state.
* `turns_of_their_own` — results, texts and turns in every run, and no event lost where no wait
  meets one with its own id; `server_request_lost` is one that does.
-/

namespace Pikamux.AssistantProvider

open Json AssistantTransport

/-! ### Events of a turn -/

/-- The thread and the turn that an event names. -/
def threadOf : ServerEvent → Option String
  | .contextCompaction threadId _ _ _ => threadId
  | .agentDelta threadId _ _ => threadId
  | .completed threadId _ _ => threadId
  | .failed threadId _ _ => threadId
  | .toolRequest threadId _ => threadId
  | .other threadId _ => threadId

def turnOf : ServerEvent → String
  | .contextCompaction _ turnId _ _ => turnId
  | .agentDelta _ turnId _ => turnId
  | .completed _ turnId _ => turnId
  | .failed _ turnId _ => turnId
  | .toolRequest _ turnId => turnId
  | .other _ turnId => turnId.getD ""

def owns (threadId turnId : String) (event : ServerEvent) : Bool :=
  turnOf event = turnId && threadOf event = some threadId

def deltaOf : ServerEvent → Option String
  | .agentDelta _ _ text => some text
  | _ => none

/-- The texts of a turn's deltas. -/
def deltas (threadId turnId : String) (events : List ServerEvent) : List String :=
  (events.filter (owns threadId turnId)).filterMap deltaOf

/-- An event with which a turn is over. -/
def isEnd : ServerEvent → Bool
  | .completed _ _ _ => true
  | .failed _ _ _ => true
  | .toolRequest _ _ => true
  | _ => false

def ends (threadId turnId : String) (event : ServerEvent) : Bool :=
  owns threadId turnId event && isEnd event

/-! ### The assistant -/

structure ProviderConfig where
  model : String
  effort : String
  maxPromptBytes : Nat
  maxResponseBytes : Nat
  approvalPolicy : String

inductive AssistantState where
  | new
  | ready
  | inFlight (turnId : String)
  | unknownDelivery (turnId : String)
  | closed
  deriving DecidableEq, Repr

inductive TurnResult where
  | complete (turnId text : String) (usage : Option Usage)
  | failed (turnId text : String)
  deriving DecidableEq, Repr

structure CompactionEvent where
  threadId : String
  turnId : String
  itemId : String

/-- `MainAssistant`, over the transport of a process. -/
structure MainAssistant where
  transport : Transport
  threadId : Option String
  config : ProviderConfig
  state : AssistantState
  response : String
  compactionStarted : List String
  compactionEvents : List CompactionEvent

/-- `ASSISTANT_PERMISSION_PROFILE` -/
def permissionProfile : String := "pika-assistant"

/-- What happens to the requests of a handshake. -/
structure StartFates where
  opening : Fate
  /-- Why the notification is not written. -/
  notify : Option TransportError
  config : Fate
  thread : Fate

def initializeParams (version : String) : Value :=
  .object [("capabilities", .object [("experimentalApi", .bool true)]),
    ("clientInfo", .object [("name", .string "pika-main-assistant"),
      ("title", .string "Pika main assistant"), ("version", .string version)])]

/-- The `turn` of a response. -/
def turnIdOf (response : Value) : Option String :=
  (((response.get? "turn").or (getIn response "result" "turn")).bind (·.get? "id")).bind Value.asStr

namespace MainAssistant

/-- The request for the thread that is resumed, or for a new one. -/
def threadRequest (m : MainAssistant) : String × Value :=
  let settings := [("model", .string m.config.model),
    ("permissions", .string permissionProfile)]
  match m.threadId.filter (· ≠ "") with
  | some id => ("thread/resume",
      .object (("approvalPolicy", .string m.config.approvalPolicy) :: settings ++
        [("threadId", .string id)]))
  | none => ("thread/start",
      .object (("approvalPolicy", .string m.config.approvalPolicy) :: settings))

/-- `start_or_resume`; `verifyEffectiveConfig` and `verifiedThreadId` are the checks of what the
provider reports. -/
def startOrResume (verifyEffectiveConfig : Value → Except TransportError Unit)
    (verifiedThreadId : Value → Except ProviderError String) (version : String)
    (fates : StartFates) (m : MainAssistant) : Except ProviderError Unit × MainAssistant :=
  match m.state with
  | .new =>
      match m.transport.request fates.opening "initialize" (initializeParams version) with
      | (.error error, transport) => (.error error, { m with transport })
      | (.ok _, transport) =>
          match transport.notifyInitialized verifyEffectiveConfig fates.notify fates.config with
          | (.error error, transport) => (.error error, { m with transport })
          | (.ok (), transport) =>
              match transport.request fates.thread m.threadRequest.1 m.threadRequest.2 with
              | (.error error, transport) => (.error error, { m with transport })
              | (.ok response, transport) =>
                  match verifiedThreadId response with
                  | .error error => (.error error, { m with transport })
                  | .ok id =>
                      if m.threadId.any (· ≠ id) then
                        (.error (.protocol "provider returned a different thread id"),
                          { m with transport })
                      else (.ok (), { m with transport, threadId := some id, state := .ready })
  | _ => (.error .notReady, m)

def turnParams (m : MainAssistant) (threadId prompt : String) : Value :=
  .object [("approvalPolicy", .string m.config.approvalPolicy),
    ("effort", .string m.config.effort),
    ("input", .array [.object [("text", .string prompt), ("type", .string "text")]]),
    ("model", .string m.config.model), ("permissions", .string permissionProfile),
    ("threadId", .string threadId)]

/-- `begin_turn` -/
def beginTurn (fate : Fate) (prompt : String) (m : MainAssistant) :
    Except ProviderError String × MainAssistant :=
  match m.state with
  | .ready =>
      if m.config.maxPromptBytes < prompt.utf8ByteSize then (.error .promptTooLarge, m)
      else
        match m.threadId with
        | none => (.error .notReady, m)
        | some threadId =>
            match m.transport.request fate "turn/start" (m.turnParams threadId prompt) with
            | (.error error, transport) =>
                -- it may have reached the provider
                (.error error, { m with transport, state := .unknownDelivery "unknown" })
            | (.ok response, transport) =>
                match (turnIdOf response).filter (· ≠ "") with
                | none => (.error .unknownDelivery,
                    { m with transport, state := .unknownDelivery "unknown" })
                | some turnId => (.ok turnId, { m with
                    transport
                    state := .inFlight turnId
                    response := ""
                    compactionStarted := [] })
  | .inFlight _ => (.error .alreadyInFlight, m)
  | _ => (.error .notReady, m)

/-- A compaction begins or ends. -/
def compact (threadId turnId itemId : String) (completed : Bool) (m : MainAssistant) :
    MainAssistant :=
  if !validCompactionId itemId then m
  else if completed then
    let started := { m with compactionStarted := m.compactionStarted.filter (· ≠ itemId) }
    if m.compactionStarted.contains itemId && m.compactionEvents.length < 64 then
      { started with compactionEvents := m.compactionEvents ++ [⟨threadId, turnId, itemId⟩] }
    else started
  else if m.compactionStarted.length < 64 && !m.compactionStarted.contains itemId then
    { m with compactionStarted := m.compactionStarted ++ [itemId] }
  else m

/-- The loop of `poll_turn`. -/
def pollEvents (threadId turnId : String) : List ServerEvent → MainAssistant →
    Except ProviderError (Option TurnResult) × MainAssistant
  | [], m => (.ok none, m)
  | event :: events, m =>
      if !owns threadId turnId event then pollEvents threadId turnId events m
      else
        match event with
        | .contextCompaction _ _ itemId completed =>
            pollEvents threadId turnId events (m.compact threadId turnId itemId completed)
        | .agentDelta _ _ delta =>
            if m.config.maxResponseBytes < m.response.utf8ByteSize + delta.utf8ByteSize then
              (.error .responseTooLarge, { m with state := .unknownDelivery turnId })
            else pollEvents threadId turnId events { m with response := m.response ++ delta }
        | .completed _ _ usage => (.ok (some (.complete turnId m.response usage)),
            { m with state := .ready, response := "" })
        | .failed _ _ message =>
            (.ok (some (.failed turnId message)), { m with state := .ready })
        | .toolRequest _ _ =>
            (.error .toolRequestBlocked, { m with state := .unknownDelivery turnId })
        | .other _ _ => pollEvents threadId turnId events m

/-- `poll_turn` -/
def pollTurn (m : MainAssistant) : Except ProviderError (Option TurnResult) × MainAssistant :=
  match m.state with
  | .inFlight turnId =>
      match m.threadId with
      | none => (.error .notReady, m)
      | some threadId =>
          match m.transport.takeNotifications with
          | (.error error, transport) =>
              (.error error, { m with transport, state := .unknownDelivery turnId })
          | (.ok events, transport) => pollEvents threadId turnId events { m with transport }
  | _ => (.error .notReady, m)

/-- `cancel` -/
def cancel (fate : Fate) (m : MainAssistant) : Except ProviderError Unit × MainAssistant :=
  match m.state with
  | .inFlight turnId =>
      match m.threadId with
      | none => (.error .notReady, m)
      | some threadId =>
          match m.transport.interrupt fate threadId turnId with
          | (.error error, transport) =>
              (.error error, { m with transport, state := .unknownDelivery turnId })
          | (.ok (), transport) =>
              -- accepted is not completed
              (.error .unknownDelivery, { m with transport, state := .unknownDelivery turnId })
  | _ => (.error .notReady, m)

end MainAssistant

/-! ### Runs -/

/-- A turn that has ended. -/
structure Ended where
  threadId : String
  turnId : String
  /-- How many events had been returned when it began. -/
  began : Nat
  /-- Its text, if it was completed. -/
  text : Option String

structure Session where
  assistant : MainAssistant
  began : Nat
  ended : List Ended
  /-- How many turns had been asked for at the first outcome that left the delivery open. -/
  uncertain : Option Nat

/-- The turns that were asked for. -/
def starts (log : Log) : Nat := (log.sent.filter fun sent => sent.method = "turn/start").length

inductive Call where
  | arrive (line : List UInt8)
  /-- The reader of the output fails. -/
  | breakOff (error : TransportError)
  | start (fates : StartFates)
  | begin (fate : Fate) (prompt : String)
  | poll
  | cancel (fate : Fate)

namespace Session

def log (s : Session) : Log := s.assistant.transport.log

/-- The outcome of a call left open what the provider has. -/
def note (open_ : Bool) (s : Session) : Session :=
  if open_ then { s with uncertain := s.uncertain.or (some (starts s.log)) } else s

def finish (turnId : String) (text : Option String) (s : Session) : Session :=
  { s with ended := s.ended ++ [⟨s.assistant.threadId.getD "", turnId, s.began, text⟩] }

variable (parse : List UInt8 → Except String Value)
  (verifyEffectiveConfig : Value → Except TransportError Unit)
  (verifiedThreadId : Value → Except ProviderError String) (version : String)

/-- One call, or what the provider does. -/
def perform (call : Call) (s : Session) : Session :=
  match call with
  | .arrive line =>
      { s with assistant := { s.assistant with
          transport := s.assistant.transport.arrive parse line } }
  | .breakOff error =>
      { s with assistant := { s.assistant with
          transport := s.assistant.transport.breakOff error } }
  | .start fates =>
      { s with assistant :=
          (s.assistant.startOrResume verifyEffectiveConfig verifiedThreadId version fates).2 }
  | .begin fate prompt =>
      match s.assistant.beginTurn fate prompt with
      | (.ok _, assistant) => { s with assistant, began := s.log.returned.length }
      | (.error _, assistant) =>
          -- nothing is open if the turn was not asked for
          note (starts assistant.transport.log ≠ starts s.log) { s with assistant }
  | .poll =>
      match s.assistant.pollTurn with
      | (.ok none, assistant) => { s with assistant }
      | (.ok (some (.complete turnId text _)), assistant) =>
          finish turnId (some text) { s with assistant }
      | (.ok (some (.failed turnId _)), assistant) => finish turnId none { s with assistant }
      | (.error error, assistant) => note (error ≠ .notReady) { s with assistant }
  | .cancel fate =>
      match s.assistant.cancel fate with
      | (.ok (), assistant) => { s with assistant }
      | (.error error, assistant) => note (error ≠ .notReady) { s with assistant }

/-- An assistant of a process that was just spawned. -/
def new (threadId : Option String) (config : ProviderConfig) : Session :=
  ⟨⟨{}, threadId, config, .new, "", [], []⟩, 0, [], none⟩

/-- A run whose calls all meet a condition. -/
inductive Run (threadId : Option String) (config : ProviderConfig)
    (meets : Session → Call → Prop) : Session → Prop where
  | new : Run threadId config meets (new threadId config)
  | call (s : Session) (call : Call) (run : Run threadId config meets s) (met : meets s call) :
      Run threadId config meets
        (s.perform parse verifyEffectiveConfig verifiedThreadId version call)

end Session

/-! ### One batch -/

namespace MainAssistant

/-- What a batch does to the turn that is polled. -/
inductive Polled (threadId turnId : String) (events : List ServerEvent) (m : MainAssistant) :
    Except ProviderError (Option TurnResult) × MainAssistant → Prop where
  | more (after : MainAssistant)
      (none_ends : ∀ event ∈ events, ends threadId turnId event = false)
      (response : after.response = m.response ++ String.join (deltas threadId turnId events))
      (state : after.state = m.state) : Polled threadId turnId events m (.ok none, after)
  | complete (after : MainAssistant) (own rest : List ServerEvent) (usage : Option Usage)
      (text : String) (split : events = own ++ .completed (some threadId) turnId usage :: rest)
      (none_ends : ∀ event ∈ own, ends threadId turnId event = false)
      (whole : text = m.response ++ String.join (deltas threadId turnId own))
      (state : after.state = .ready) :
      Polled threadId turnId events m (.ok (some (.complete turnId text usage)), after)
  | failed (after : MainAssistant) (message : String) (state : after.state = .ready) :
      Polled threadId turnId events m (.ok (some (.failed turnId message)), after)
  | error (after : MainAssistant) (error : ProviderError) (other : error ≠ .notReady)
      (state : after.state = .unknownDelivery turnId) :
      Polled threadId turnId events m (.error error, after)

section Polled

variable {threadId turnId : String} {events : List ServerEvent} {event : ServerEvent}
  {m next : MainAssistant} {result : Except ProviderError (Option TurnResult) × MainAssistant}

/-- An event that does not end the turn, and adds its delta to the response. -/
theorem Polled.cons (h : Polled threadId turnId events next result)
    (hends : ends threadId turnId event = false)
    (hresponse : next.response = m.response ++ String.join (deltas threadId turnId [event]))
    (hstate : next.state = m.state) : Polled threadId turnId (event :: events) m result := by
  have htext : ∀ own, next.response ++ String.join (deltas threadId turnId own) =
      m.response ++ String.join (deltas threadId turnId (event :: own)) := by
    intro own
    have hdeltas : deltas threadId turnId (event :: own) =
        deltas threadId turnId [event] ++ deltas threadId turnId own := by
      rw [← List.singleton_append, deltas, deltas, deltas, List.filter_append,
        List.filterMap_append]
    rw [hresponse, hdeltas, String.join_append, String.append_assoc]
  cases h with
  | more after none_ends response state =>
      refine .more after ?_ (response.trans (htext events)) (state.trans hstate)
      exact List.forall_mem_cons.mpr ⟨hends, none_ends⟩
  | complete after own rest usage text split none_ends whole state =>
      refine .complete after (event :: own) rest usage text ?_ ?_ (whole.trans (htext own)) state
      · rw [split]
        rfl
      · exact List.forall_mem_cons.mpr ⟨hends, none_ends⟩
  | failed after message state => exact .failed after message state
  | error after error other state => exact .error after error other state

/-- An event that is no delta adds nothing to the response. -/
theorem response_of_other (h : deltaOf event = none) (response : String) :
    response = response ++ String.join (deltas threadId turnId [event]) := by
  have hnone : deltas threadId turnId [event] = [] := by
    rw [deltas, List.filter_cons]
    split
    · simp [List.filterMap_cons, h]
    · rfl
  rw [hnone]
  exact String.append_empty.symm

theorem compact_response (itemId : String) (completed : Bool) :
    (m.compact threadId turnId itemId completed).response = m.response ∧
      (m.compact threadId turnId itemId completed).state = m.state ∧
      (m.compact threadId turnId itemId completed).transport = m.transport ∧
      (m.compact threadId turnId itemId completed).threadId = m.threadId := by
  rw [compact]
  repeat' split
  all_goals exact ⟨rfl, rfl, rfl, rfl⟩

theorem pollEvents_polled :
    Polled threadId turnId events m (m.pollEvents threadId turnId events) := by
  induction events generalizing m with
  | nil => exact .more m (List.forall_mem_nil _) (String.append_empty).symm rfl
  | cons event events ih =>
      rw [pollEvents.eq_def]
      simp only
      by_cases howns : owns threadId turnId event = true
      · rw [howns]
        cases event with
        | contextCompaction thread turn itemId completed =>
            obtain ⟨hresponse, hstate, -⟩ :=
              @compact_response threadId turnId m itemId completed
            refine Polled.cons ih (by simp [ends, isEnd]) ?_ hstate
            rw [hresponse]
            exact response_of_other rfl _
        | agentDelta thread turn delta =>
            simp only [Bool.not_true, Bool.false_eq_true, if_false]
            split
            · exact .error _ _ nofun rfl
            · refine Polled.cons ih (by simp [ends, isEnd]) ?_ rfl
              simp [deltas, howns, deltaOf, String.join]
        | completed thread turn usage =>
            rw [owns, Bool.and_eq_true, decide_eq_true_eq, decide_eq_true_eq] at howns
            refine .complete _ [] events usage m.response ?_ (List.forall_mem_nil _)
              String.append_empty.symm rfl
            rw [show turn = turnId from howns.1, show thread = some threadId from howns.2]
            rfl
        | failed thread turn message => exact .failed _ _ rfl
        | toolRequest thread turn => exact .error _ _ nofun rfl
        | other thread turn =>
            exact Polled.cons ih (by simp [ends, isEnd]) (response_of_other rfl _) rfl
      · have hother : owns threadId turnId event = false := by simpa using howns
        rw [hother]
        refine Polled.cons ih (by simp [ends, hother]) ?_ rfl
        simp [deltas, hother]

/-- The loop leaves the transport and the thread. -/
theorem pollEvents_same : (m.pollEvents threadId turnId events).2.transport = m.transport ∧
    (m.pollEvents threadId turnId events).2.threadId = m.threadId := by
  induction events generalizing m with
  | nil => exact ⟨rfl, rfl⟩
  | cons event events ih =>
      rw [pollEvents.eq_def]
      simp only
      split
      · exact ih
      · cases event with
        | contextCompaction thread turn itemId completed =>
            obtain ⟨-, -, htransport, hthread⟩ :=
              @compact_response threadId turnId m itemId completed
            simp only
            rw [ih.1, ih.2]
            exact ⟨htransport, hthread⟩
        | agentDelta thread turn delta =>
            simp only
            split
            · exact ⟨rfl, rfl⟩
            · exact ih
        | completed thread turn usage => exact ⟨rfl, rfl⟩
        | failed thread turn message => exact ⟨rfl, rfl⟩
        | toolRequest thread turn => exact ⟨rfl, rfl⟩
        | other thread turn => exact ih

end Polled

end MainAssistant

/-! ### What the calls do to the log -/

section Logs

variable {t : Transport} {fate : Fate} {method : String} {params : Value}

theorem starts_append (log : Log) (sent : Sent) :
    starts { log with sent := log.sent ++ [sent] } =
      starts log + if sent.method = "turn/start" then 1 else 0 := by
  rw [starts, starts, List.filter_append, List.length_append, List.filter_singleton]
  by_cases hmethod : sent.method = "turn/start"
  · simp [hmethod]
  · simp [hmethod]

theorem request_returned : (t.request fate method params).2.log.returned = t.log.returned := by
  rcases @Transport.request_cases t fate method params with ⟨error, nextId, heq⟩ | hread
  · rw [heq]
  · exact hread.returned

/-- A request counts as a turn asked for if it is one, and was written. -/
theorem request_starts :
    (starts (t.request fate method params).2.log = starts t.log ∧
      ∃ error, (t.request fate method params).1 = .error error) ∨
    starts (t.request fate method params).2.log =
      starts t.log + if method = "turn/start" then 1 else 0 := by
  rcases @Transport.request_cases t fate method params with ⟨error, nextId, heq⟩ | hread
  · rw [heq]
    exact .inl ⟨rfl, error, rfl⟩
  · right
    rw [starts, hread.sent]
    exact starts_append t.log ⟨t.nextId, method, params⟩

theorem request_starts_of_ne (hmethod : method ≠ "turn/start") :
    starts (t.request fate method params).2.log = starts t.log := by
  rcases @request_starts t fate method params with ⟨h, -⟩ | h
  · exact h
  · rw [h, if_neg hmethod]
    rfl

theorem notifyInitialized_log {verify : Value → Except TransportError Unit}
    {write : Option TransportError} :
    starts (t.notifyInitialized verify write fate).2.log = starts t.log ∧
      (t.notifyInitialized verify write fate).2.log.returned = t.log.returned := by
  rcases @Transport.notifyInitialized_cases t fate verify write with heq | ⟨-, ready, heq⟩
  · rw [heq]
    exact ⟨rfl, rfl⟩
  · rw [heq]
    rcases @Transport.requestRaw_cases t fate "config/read" Transport.includeLayers with
      ⟨error, nextId, hraw⟩ | hread
    · rw [hraw]
      exact ⟨rfl, rfl⟩
    · refine ⟨?_, hread.returned⟩
      rw [starts]
      simp only [hread.sent]
      exact starts_append t.log ⟨t.nextId, "config/read", Transport.includeLayers⟩

theorem drain_log : starts (t.drain t.frames).2.log = starts t.log ∧
    (t.drain t.frames).2.log.returned = t.log.returned := by
  have hread := @Transport.drain_reading t _ rfl
  refine ⟨?_, hread.returned⟩
  rw [starts, hread.sent]
  rfl

/-- A batch adds its events to what was returned, and nothing else does. -/
theorem takeNotifications_log : starts t.takeNotifications.2.log = starts t.log ∧
    (∀ events, t.takeNotifications.1 = .ok events →
      t.takeNotifications.2.log.returned = t.log.returned ++ events) ∧
    ∀ error, t.takeNotifications.1 = .error error →
      t.takeNotifications.2.log.returned = t.log.returned := by
  obtain ⟨hstarts, hreturned⟩ := @drain_log t
  rcases @Transport.takeNotifications_cases t with ⟨error, heq⟩ | ⟨error, heq, -⟩ |
    ⟨events, -, -, heq⟩
  · rw [heq]
    exact ⟨hstarts, nofun, fun _ _ => hreturned⟩
  · rw [heq]
    exact ⟨hstarts, nofun, fun _ _ => hreturned⟩
  · rw [heq]
    refine ⟨hstarts, fun batch hbatch => ?_, nofun⟩
    rw [← Except.ok.inj hbatch, ← hreturned]

end Logs

/-! ### The handshake -/

namespace MainAssistant

section Start

variable (verify : Value → Except TransportError Unit)
  (verifiedThreadId : Value → Except ProviderError String) (version : String)
  (fates : StartFates) (m : MainAssistant)

/-- The first request of the handshake. -/
def opened : Except ProviderError Value × Transport :=
  m.transport.request fates.opening "initialize" (initializeParams version)

/-- The notification behind it. -/
def configured : Except ProviderError Unit × Transport :=
  (m.opened version fates).2.notifyInitialized verify fates.notify fates.config

/-- And the request for the thread. -/
def threaded : Except ProviderError Value × Transport :=
  (m.configured verify version fates).2.request fates.thread m.threadRequest.1 m.threadRequest.2

/-- How far a handshake comes. -/
inductive Started : MainAssistant → Prop where
  | refused : Started m
  | opened (isNew : m.state = .new) : Started { m with transport := (m.opened version fates).2 }
  | configured (isNew : m.state = .new) (result : Value)
      (first : (m.opened version fates).1 = .ok result) :
      Started { m with transport := (m.configured verify version fates).2 }
  | threaded (isNew : m.state = .new) (result : Value)
      (first : (m.opened version fates).1 = .ok result)
      (second : (m.configured verify version fates).1 = .ok ()) :
      Started { m with transport := (m.threaded verify version fates).2 }
  | ready (isNew : m.state = .new) (result : Value)
      (first : (m.opened version fates).1 = .ok result)
      (second : (m.configured verify version fates).1 = .ok ()) (id : String) :
      Started { m with
        transport := (m.threaded verify version fates).2, threadId := some id, state := .ready }

theorem startOrResume_started : Started verify version fates m
    (m.startOrResume verify verifiedThreadId version fates).2 := by
  rw [startOrResume]
  cases hstate : m.state with
  | new =>
      simp only
      match hopened : m.transport.request fates.opening "initialize" (initializeParams version) with
      | (.error error, transport) =>
          have hstarted := @Started.opened verify version fates m hstate
          rw [show (m.opened version fates).2 = transport from congrArg Prod.snd hopened,
            hstate] at hstarted
          exact hstarted
      | (.ok result, transport) =>
          have hfirst : (m.opened version fates).1 = .ok result := congrArg Prod.fst hopened
          simp only
          match hnotify : transport.notifyInitialized verify fates.notify fates.config with
          | (.error error, transport') =>
              have hconfigured :
                  m.configured verify version fates = (.error error, transport') := by
                rw [configured, show (m.opened version fates).2 = transport from
                  congrArg Prod.snd hopened, hnotify]
              have hstarted := @Started.configured verify version fates m hstate result hfirst
              rw [hconfigured, hstate] at hstarted
              exact hstarted
          | (.ok (), transport') =>
              have hconfigured : m.configured verify version fates = (.ok (), transport') := by
                rw [configured, show (m.opened version fates).2 = transport from
                  congrArg Prod.snd hopened, hnotify]
              have hsecond : (m.configured verify version fates).1 = .ok () :=
                congrArg Prod.fst hconfigured
              have hthreaded : m.threaded verify version fates =
                  transport'.request fates.thread m.threadRequest.1 m.threadRequest.2 := by
                rw [threaded, hconfigured]
              simp only
              rw [← hthreaded]
              have hkept := @Started.threaded verify version fates m hstate result hfirst hsecond
              rw [hstate] at hkept
              match hresponse : m.threaded verify version fates with
              | (.error error, transport'') =>
                  rw [hresponse] at hkept
                  exact hkept
              | (.ok response, transport'') =>
                  simp only
                  cases verifiedThreadId response with
                  | error error =>
                      rw [hresponse] at hkept
                      exact hkept
                  | ok id =>
                      simp only
                      split
                      · rw [hresponse] at hkept
                        exact hkept
                      · have hready :=
                          @Started.ready verify version fates m hstate result hfirst hsecond id
                        rw [hresponse] at hready
                        exact hready
  | _ => exact .refused

end Start

/-! ### The calls -/

section Calls

variable {fate : Fate} {prompt : String} {m : MainAssistant} {t : Transport}

/-- What becomes of a turn that is asked for. -/
inductive Begun (fate : Fate) (prompt : String) (m : MainAssistant) :
    Except ProviderError String × MainAssistant → Prop where
  | refused (error : ProviderError) : Begun fate prompt m (.error error, m)
  | unknown (error : ProviderError) (threadId : String) (isReady : m.state = .ready)
      (thread : m.threadId = some threadId) :
      Begun fate prompt m (.error error, { m with
        transport := (m.transport.request fate "turn/start" (m.turnParams threadId prompt)).2
        threadId := some threadId
        state := .unknownDelivery "unknown" })
  | begun (threadId turnId : String) (response : Value) (isReady : m.state = .ready)
      (thread : m.threadId = some threadId)
      (answered : (m.transport.request fate "turn/start" (m.turnParams threadId prompt)).1 =
        .ok response) :
      Begun fate prompt m (.ok turnId, { m with
        transport := (m.transport.request fate "turn/start" (m.turnParams threadId prompt)).2
        threadId := some threadId
        state := .inFlight turnId
        response := ""
        compactionStarted := [] })

theorem beginTurn_begun : Begun fate prompt m (m.beginTurn fate prompt) := by
  rw [beginTurn]
  cases hstate : m.state with
  | new => exact .refused _
  | inFlight turnId => exact .refused _
  | unknownDelivery turnId => exact .refused _
  | closed => exact .refused _
  | ready =>
      simp only
      split
      · exact .refused _
      · cases hthread : m.threadId with
        | none => exact .refused _
        | some threadId =>
            simp only
            have hunknown := fun error => @Begun.unknown fate prompt m error threadId hstate hthread
            have hbegun := fun response turnId =>
              @Begun.begun fate prompt m threadId turnId response hstate hthread
            generalize m.transport.request fate "turn/start" (m.turnParams threadId prompt) = answer
              at hunknown hbegun ⊢
            obtain ⟨result, transport⟩ := answer
            cases result with
            | error error => exact hunknown error
            | ok response =>
                simp only
                cases (turnIdOf response).filter (· ≠ "") with
                | none => exact hunknown .unknownDelivery
                | some turnId => exact hbegun response turnId rfl

/-- What becomes of a turn that is polled. -/
inductive Taken (m : MainAssistant) :
    Except ProviderError (Option TurnResult) × MainAssistant → Prop where
  | refused : Taken m (.error .notReady, m)
  | broken (turnId threadId : String) (error : ProviderError)
      (inFlight : m.state = .inFlight turnId) (thread : m.threadId = some threadId)
      (failed : m.transport.takeNotifications.1 = .error error) :
      Taken m (.error error, { m with
        transport := m.transport.takeNotifications.2
        threadId := some threadId
        state := .unknownDelivery turnId })
  | polled (turnId threadId : String) (events : List ServerEvent)
      (inFlight : m.state = .inFlight turnId) (thread : m.threadId = some threadId)
      (batch : m.transport.takeNotifications.1 = .ok events) :
      Taken m (pollEvents threadId turnId events { m with
        transport := m.transport.takeNotifications.2
        threadId := some threadId
        state := .inFlight turnId })

theorem pollTurn_taken : Taken m m.pollTurn := by
  rw [pollTurn]
  match hstate : m.state with
  | .new => exact .refused
  | .ready => exact .refused
  | .unknownDelivery turnId => exact .refused
  | .closed => exact .refused
  | .inFlight turnId =>
      match hthread : m.threadId with
      | none => exact .refused
      | some threadId =>
          simp only
          match hbatch : m.transport.takeNotifications with
          | (.error error, transport) =>
              have hresult := @Taken.broken m turnId threadId error hstate hthread
                (congrArg Prod.fst hbatch)
              rw [hbatch] at hresult
              exact hresult
          | (.ok events, transport) =>
              have hresult := @Taken.polled m turnId threadId events hstate hthread
                (congrArg Prod.fst hbatch)
              rw [hbatch] at hresult
              exact hresult

theorem interrupt_transport (threadId turnId : String) : (t.interrupt fate threadId turnId).2 =
    (t.request fate "turn/interrupt"
      (.object [("threadId", .string threadId), ("turnId", .string turnId)])).2 := by
  rw [Transport.interrupt]
  match t.request fate "turn/interrupt"
    (.object [("threadId", .string threadId), ("turnId", .string turnId)]) with
  | (.error error, after) => rfl
  | (.ok result, after) => rfl

/-- A turn that is cancelled is not over. -/
inductive Cancelled (fate : Fate) (m : MainAssistant) :
    Except ProviderError Unit × MainAssistant → Prop where
  | refused : Cancelled fate m (.error .notReady, m)
  | unknown (turnId threadId : String) (error : ProviderError)
      (inFlight : m.state = .inFlight turnId) (thread : m.threadId = some threadId) :
      Cancelled fate m (.error error, { m with
        transport := (m.transport.interrupt fate threadId turnId).2
        threadId := some threadId
        state := .unknownDelivery turnId })

theorem cancel_cancelled : Cancelled fate m (m.cancel fate) := by
  rw [cancel]
  match hstate : m.state with
  | .new => exact .refused
  | .ready => exact .refused
  | .unknownDelivery turnId => exact .refused
  | .closed => exact .refused
  | .inFlight turnId =>
      match hthread : m.threadId with
      | none => exact .refused
      | some threadId =>
          simp only
          have hunknown := fun error =>
            @Cancelled.unknown fate m turnId threadId error hstate hthread
          match hinterrupt : m.transport.interrupt fate threadId turnId with
          | (.error error, transport) =>
              have hresult := hunknown error
              rw [hinterrupt] at hresult
              exact hresult
          | (.ok (), transport) =>
              have hresult := hunknown .unknownDelivery
              rw [hinterrupt] at hresult
              exact hresult

end Calls

end MainAssistant

/-! ### What runs keep -/

/-- A text is that of the turn's deltas, from when it began to when it was completed. -/
def Ended.Own (returned : List ServerEvent) (e : Ended) : Prop :=
  ∀ text, e.text = some text → ∃ own usage rest,
    returned.drop e.began = own ++ .completed (some e.threadId) e.turnId usage :: rest ∧
    (∀ event ∈ own, ends e.threadId e.turnId event = false) ∧
    text = String.join (deltas e.threadId e.turnId own)

/-- How the turns that were asked for and those that have ended go with the state. -/
inductive Phase (s : Session) : Prop where
  | new (state : s.assistant.state = .new) (all : starts s.log = s.ended.length)
      (certain : s.uncertain = none)
  | ready (threadId : String) (state : s.assistant.state = .ready)
      (thread : s.assistant.threadId = some threadId) (all : starts s.log = s.ended.length)
      (certain : s.uncertain = none)
  | inFlight (turnId threadId : String) (state : s.assistant.state = .inFlight turnId)
      (thread : s.assistant.threadId = some threadId)
      (one : starts s.log = s.ended.length + 1) (certain : s.uncertain = none)
      (began : s.began ≤ s.log.returned.length)
      (none_ends : ∀ event ∈ s.log.returned.drop s.began, ends threadId turnId event = false)
      (response : s.assistant.response =
        String.join (deltas threadId turnId (s.log.returned.drop s.began)))
  | unknown (turnId : String) (state : s.assistant.state = .unknownDelivery turnId)
      (most : starts s.log ≤ s.ended.length + 1)
      (uncertain : ∀ n, s.uncertain = some n → n = starts s.log)

structure Settled (s : Session) : Prop where
  phase : Phase s
  texts : ∀ e ∈ s.ended, e.Own s.log.returned

section Runs

variable {s : Session} {fate : Fate} {prompt : String} {e : Ended}
  {returned more : List ServerEvent}

theorem Ended.Own.grow (h : e.Own returned) : e.Own (returned ++ more) := by
  intro text htext
  obtain ⟨own, usage, rest, hsplit, hends, heq⟩ := h text htext
  have hbegan : e.began ≤ returned.length := by
    by_contra hlong
    rw [List.drop_eq_nil_of_le (by omega)] at hsplit
    simp at hsplit
  refine ⟨own, usage, rest ++ more, ?_, hends, heq⟩
  rw [List.drop_append_of_le_length hbegan, hsplit, List.append_assoc]
  rfl

/-- Nothing that the turns depend on is changed. -/
theorem Settled.alike (h : Settled s) {assistant : MainAssistant}
    (hstate : assistant.state = s.assistant.state)
    (hthread : assistant.threadId = s.assistant.threadId)
    (hresponse : assistant.response = s.assistant.response)
    (hstarts : starts assistant.transport.log = starts s.log)
    (hreturned : assistant.transport.log.returned = s.log.returned) :
    Settled { s with assistant } := by
  have hlog : ({ s with assistant } : Session).log.returned = s.log.returned := hreturned
  refine ⟨?_, fun e he => by rw [hlog]; exact h.texts e he⟩
  cases h.phase with
  | new state all certain => exact .new (hstate.trans state) (hstarts.trans all) certain
  | ready threadId state thread all certain =>
      exact .ready threadId (hstate.trans state) (hthread.trans thread) (hstarts.trans all) certain
  | inFlight turnId threadId state thread one certain began none_ends response =>
      refine .inFlight turnId threadId (hstate.trans state) (hthread.trans thread)
        (hstarts.trans one) certain ?_ ?_ ?_
      · rw [hlog]
        exact began
      · rw [hlog]
        exact none_ends
      · rw [hlog]
        exact hresponse.trans response
  | unknown turnId state most uncertain =>
      refine .unknown turnId (hstate.trans state) (hstarts.trans_le most) fun n hn => ?_
      exact (uncertain n hn).trans hstarts.symm

theorem Settled.note_unknown {open_ : Bool} (h : Settled s) {turnId : String}
    (state : s.assistant.state = .unknownDelivery turnId) : Settled (s.note open_) := by
  cases open_ with
  | false => exact h
  | true =>
      refine ⟨?_, h.texts⟩
      cases h.phase with
      | unknown turnId state most uncertain =>
          refine .unknown turnId state most fun n hn => ?_
          cases huncertain : s.uncertain with
          | none =>
              have hsome : s.uncertain.or (some (starts s.log)) = some n := hn
              rw [huncertain] at hsome
              exact (Option.some.inj hsome).symm
          | some m =>
              have hsome : s.uncertain.or (some (starts s.log)) = some n := hn
              rw [huncertain] at hsome
              exact uncertain n (huncertain.trans hsome)
      | new other => rw [state] at other; cases other
      | ready threadId other => rw [state] at other; cases other
      | inFlight turnId threadId other => rw [state] at other; cases other

theorem Settled.unknown (h : Settled s) {assistant : MainAssistant} {turnId : String}
    (state : assistant.state = .unknownDelivery turnId) (certain : s.uncertain = none)
    (most : starts assistant.transport.log ≤ s.ended.length + 1)
    (hreturned : assistant.transport.log.returned = s.log.returned) :
    Settled { s with assistant } := by
  refine ⟨.unknown turnId state most fun n hn => ?_, fun e he => ?_⟩
  · have hnone : s.uncertain = some n := hn
    rw [certain] at hnone
    cases hnone
  · have hlog : ({ s with assistant } : Session).log.returned = s.log.returned := hreturned
    rw [hlog]
    exact h.texts e he

theorem Settled.start {verify : Value → Except TransportError Unit} {version : String}
    {fates : StartFates} {after : MainAssistant} (h : Settled s)
    (hstarted : s.assistant.Started verify version fates after) :
    Settled { s with assistant := after } := by
  have hopened : starts (s.assistant.opened version fates).2.log = starts s.log ∧
      (s.assistant.opened version fates).2.log.returned = s.log.returned :=
    ⟨request_starts_of_ne (by decide), request_returned⟩
  have hconfigured : starts (s.assistant.configured verify version fates).2.log = starts s.log ∧
      (s.assistant.configured verify version fates).2.log.returned = s.log.returned := by
    obtain ⟨hstarts, hreturned⟩ := @notifyInitialized_log (s.assistant.opened version fates).2
      fates.config verify fates.notify
    exact ⟨hstarts.trans hopened.1, hreturned.trans hopened.2⟩
  have hthreaded : starts (s.assistant.threaded verify version fates).2.log = starts s.log ∧
      (s.assistant.threaded verify version fates).2.log.returned = s.log.returned := by
    have hmethod : s.assistant.threadRequest.1 ≠ "turn/start" := by
      rw [MainAssistant.threadRequest]
      cases s.assistant.threadId.filter (· ≠ "") with
      | none => exact (by decide : "thread/start" ≠ "turn/start")
      | some id => exact (by decide : "thread/resume" ≠ "turn/start")
    exact ⟨(request_starts_of_ne hmethod).trans hconfigured.1, request_returned.trans hconfigured.2⟩
  cases hstarted with
  | refused => exact h
  | opened isNew => exact h.alike rfl rfl rfl hopened.1 hopened.2
  | configured isNew result first => exact h.alike rfl rfl rfl hconfigured.1 hconfigured.2
  | threaded isNew result first second => exact h.alike rfl rfl rfl hthreaded.1 hthreaded.2
  | ready isNew result first second id =>
      cases h.phase with
      | new state all certain =>
          refine ⟨.ready id rfl rfl (hthreaded.1.trans all) certain, fun e he => ?_⟩
          have hlog : (s.assistant.threaded verify version fates).2.log.returned =
            s.log.returned := hthreaded.2
          show e.Own (s.assistant.threaded verify version fates).2.log.returned
          rw [hlog]
          exact h.texts e he
      | ready threadId other => rw [isNew] at other; cases other
      | inFlight turnId threadId other => rw [isNew] at other; cases other
      | unknown turnId other => rw [isNew] at other; cases other

/-- A call that changes nothing but the transport's own log. -/
theorem Settled.begin (h : Settled s) {result : Except ProviderError String × MainAssistant}
    (hbegun : s.assistant.Begun fate prompt result) :
    (∀ error, result.1 = .error error →
      Settled (Session.note (starts result.2.transport.log ≠ starts s.log)
        { s with assistant := result.2 })) ∧
    ∀ turnId, result.1 = .ok turnId →
      Settled { s with assistant := result.2, began := s.log.returned.length } := by
  have hready : s.assistant.state = .ready →
      starts s.log = s.ended.length ∧ s.uncertain = none := by
    intro isReady
    cases h.phase with
    | ready threadId state thread all certain => exact ⟨all, certain⟩
    | new other => rw [isReady] at other; cases other
    | inFlight turnId threadId other => rw [isReady] at other; cases other
    | unknown turnId other => rw [isReady] at other; cases other
  cases hbegun with
  | refused error =>
      refine ⟨fun _ _ => ?_, nofun⟩
      have hsame : decide (starts s.assistant.transport.log ≠ starts s.log) = false :=
        decide_eq_false fun hne => hne rfl
      rw [hsame]
      exact h
  | unknown error threadId isReady thread =>
      refine ⟨fun _ _ => ?_, nofun⟩
      obtain ⟨all, certain⟩ := hready isReady
      have hunknown : Settled { s with assistant := { s.assistant with
          transport := (s.assistant.transport.request fate "turn/start"
            (s.assistant.turnParams threadId prompt)).2
          threadId := some threadId
          state := .unknownDelivery "unknown" } } := by
        refine h.unknown rfl certain ?_ request_returned
        show starts _ ≤ _
        rcases @request_starts s.assistant.transport fate "turn/start"
          (s.assistant.turnParams threadId prompt) with ⟨hstarts, -⟩ | hstarts
        · rw [hstarts]
          exact all.le.trans (Nat.le_succ _)
        · rw [hstarts, if_pos rfl]
          exact Nat.succ_le_succ all.le
      exact hunknown.note_unknown rfl
  | begun threadId turnId response isReady thread answered =>
      refine ⟨nofun, fun _ _ => ?_⟩
      obtain ⟨all, certain⟩ := hready isReady
      have hreturned := @request_returned s.assistant.transport fate "turn/start"
        (s.assistant.turnParams threadId prompt)
      have hlength : (s.assistant.transport.request fate "turn/start"
          (s.assistant.turnParams threadId prompt)).2.log.returned.drop s.log.returned.length =
            [] := by
        rw [hreturned]
        exact List.drop_length
      refine ⟨.inFlight turnId threadId rfl rfl ?_ certain ?_ ?_ ?_, fun e he => ?_⟩
      · rcases @request_starts s.assistant.transport fate "turn/start"
          (s.assistant.turnParams threadId prompt) with ⟨-, error, herror⟩ | hstarts
        · rw [answered] at herror
          cases herror
        · exact hstarts.trans (congrArg (· + 1) all)
      · exact (congrArg List.length hreturned).ge
      · intro event hevent
        have hnone : event ∈ ([] : List ServerEvent) := hlength ▸ hevent
        cases hnone
      · show "" = String.join (deltas threadId turnId _)
        rw [show (Session.log _).returned.drop _ = [] from hlength]
        rfl
      · show e.Own (s.assistant.transport.request fate "turn/start"
          (s.assistant.turnParams threadId prompt)).2.log.returned
        rw [hreturned]
        exact h.texts e he

/-- What is known of a turn in flight. -/
structure Flight (s : Session) (turnId threadId : String) : Prop where
  one : starts s.log = s.ended.length + 1
  certain : s.uncertain = none
  began : s.began ≤ s.log.returned.length
  none_ends : ∀ event ∈ s.log.returned.drop s.began, ends threadId turnId event = false
  response : s.assistant.response =
    String.join (deltas threadId turnId (s.log.returned.drop s.began))

theorem Settled.flight (h : Settled s) {turnId threadId : String}
    (state : s.assistant.state = .inFlight turnId) (thread : s.assistant.threadId = some threadId) :
    Flight s turnId threadId := by
  cases h.phase with
  | inFlight turn thread' state' thread'' one certain began none_ends response =>
      rw [state] at state'
      rw [thread] at thread''
      cases state'
      cases thread''
      exact ⟨one, certain, began, none_ends, response⟩
  | new other => rw [state] at other; cases other
  | ready threadId other => rw [state] at other; cases other
  | unknown turnId other => rw [state] at other; cases other

/-- A batch that ends the turn: one more has ended, with its text if it was completed. -/
theorem Settled.finish (h : Settled s) {turnId threadId : String} {text : Option String}
    {assistant : MainAssistant} {events : List ServerEvent} (hflight : Flight s turnId threadId)
    (state : assistant.state = .ready) (thread : assistant.threadId = some threadId)
    (hstarts : starts assistant.transport.log = starts s.log)
    (hreturned : assistant.transport.log.returned = s.log.returned ++ events)
    (hown : Ended.Own (s.log.returned ++ events) ⟨threadId, turnId, s.began, text⟩) :
    Settled (Session.finish turnId text { s with assistant }) := by
  have hended : (⟨assistant.threadId.getD "", turnId, s.began, text⟩ : Ended) =
      ⟨threadId, turnId, s.began, text⟩ := by
    rw [thread]
    rfl
  refine ⟨.ready threadId state thread ?_ hflight.certain, ?_⟩
  · show starts assistant.transport.log = (s.ended ++ [_]).length
    rw [hstarts, hflight.one, List.length_append]
    rfl
  · intro e he
    show e.Own assistant.transport.log.returned
    rw [hreturned]
    rcases List.mem_append.mp he with he | he
    · exact (h.texts e he).grow
    · rw [List.mem_singleton.mp he]
      show Ended.Own _ ⟨assistant.threadId.getD "", turnId, s.began, text⟩
      rw [hended]
      exact hown

theorem Settled.poll (h : Settled s)
    {result : Except ProviderError (Option TurnResult) × MainAssistant}
    (htaken : s.assistant.Taken result) :
    (result.1 = .ok none → Settled { s with assistant := result.2 }) ∧
    (∀ turnId text usage, result.1 = .ok (some (.complete turnId text usage)) →
      Settled (Session.finish turnId (some text) { s with assistant := result.2 })) ∧
    (∀ turnId message, result.1 = .ok (some (.failed turnId message)) →
      Settled (Session.finish turnId none { s with assistant := result.2 })) ∧
    ∀ error, result.1 = .error error →
      Settled (Session.note (error ≠ .notReady) { s with assistant := result.2 }) := by
  obtain ⟨hstarts, hbatch, hfailed⟩ := @takeNotifications_log s.assistant.transport
  cases htaken with
  | refused =>
      refine ⟨nofun, nofun, nofun, fun error herror => ?_⟩
      rw [← Except.error.inj herror]
      exact h
  | broken turnId threadId error inFlight thread failed =>
      refine ⟨nofun, nofun, nofun, fun _ _ => ?_⟩
      have hflight := h.flight inFlight thread
      have hmost : starts s.assistant.transport.takeNotifications.2.log ≤ s.ended.length + 1 := by
        rw [hstarts]
        exact hflight.one.le
      refine @Settled.note_unknown _ _ ?_ turnId rfl
      exact h.unknown rfl hflight.certain hmost (hfailed error failed)
  | polled turnId threadId events inFlight thread batch =>
      have hflight := h.flight inFlight thread
      have hreturned := hbatch events batch
      have hdrop : (s.log.returned ++ events).drop s.began =
          s.log.returned.drop s.began ++ events := List.drop_append_of_le_length hflight.began
      obtain ⟨htransport, hthread⟩ := @MainAssistant.pollEvents_same threadId turnId events
        { s.assistant with
          transport := s.assistant.transport.takeNotifications.2
          threadId := some threadId
          state := .inFlight turnId }
      have hpolled := @MainAssistant.pollEvents_polled threadId turnId events
        { s.assistant with
          transport := s.assistant.transport.takeNotifications.2
          threadId := some threadId
          state := .inFlight turnId }
      generalize MainAssistant.pollEvents threadId turnId events _ = result
        at hpolled htransport hthread
      have hstarts' : starts result.2.transport.log = starts s.log := by
        rw [htransport]
        exact hstarts
      have hreturned' : result.2.transport.log.returned = s.log.returned ++ events := by
        rw [htransport]
        exact hreturned
      have htexts : ∀ own, s.assistant.response ++ String.join (deltas threadId turnId own) =
          String.join (deltas threadId turnId (s.log.returned.drop s.began ++ own)) := by
        intro own
        rw [hflight.response, deltas, deltas, deltas, List.filter_append, List.filterMap_append,
          String.join_append]
      cases hpolled with
      | more after none_ends response state =>
          refine ⟨fun _ => ⟨.inFlight turnId threadId state hthread (hstarts'.trans hflight.one)
            hflight.certain ?_ ?_ ?_, fun e he => ?_⟩, nofun, nofun, nofun⟩
          · show s.began ≤ after.transport.log.returned.length
            rw [hreturned', List.length_append]
            exact hflight.began.trans (Nat.le_add_right _ _)
          · show ∀ event ∈ after.transport.log.returned.drop s.began, _
            rw [hreturned', hdrop]
            exact List.forall_mem_append.mpr ⟨hflight.none_ends, none_ends⟩
          · show after.response =
              String.join (deltas threadId turnId (after.transport.log.returned.drop s.began))
            rw [hreturned', hdrop, ← htexts]
            exact response
          · show e.Own after.transport.log.returned
            rw [hreturned']
            exact (h.texts e he).grow
      | complete after own rest usage text split none_ends whole state =>
          refine ⟨nofun, fun turn text' usage' heq => ?_, nofun, nofun⟩
          cases heq
          refine h.finish hflight state hthread hstarts' hreturned' fun text'' htext => ?_
          cases htext
          refine ⟨s.log.returned.drop s.began ++ own, usage, rest, ?_, ?_, whole.trans (htexts own)⟩
          · rw [hdrop, split, List.append_assoc]
          · exact List.forall_mem_append.mpr ⟨hflight.none_ends, none_ends⟩
      | failed after message state =>
          refine ⟨nofun, nofun, fun turn message' heq => ?_, nofun⟩
          cases heq
          exact h.finish hflight state hthread hstarts' hreturned' nofun
      | error after error other state =>
          refine ⟨nofun, nofun, nofun, fun error' _ => ?_⟩
          refine @Settled.note_unknown _ _ ?_ turnId state
          refine ⟨.unknown turnId state ?_ fun n hn => ?_, fun e he => ?_⟩
          · exact (hstarts'.trans hflight.one).le
          · have hnone : s.uncertain = some n := hn
            rw [hflight.certain] at hnone
            cases hnone
          · show e.Own after.transport.log.returned
            rw [hreturned']
            exact (h.texts e he).grow

theorem Settled.cancel (h : Settled s) {result : Except ProviderError Unit × MainAssistant}
    (hcancelled : s.assistant.Cancelled fate result) :
    ∃ error, result.1 = .error error ∧
      Settled (Session.note (error ≠ .notReady) { s with assistant := result.2 }) := by
  cases hcancelled with
  | refused => exact ⟨_, rfl, h⟩
  | unknown turnId threadId error inFlight thread =>
      refine ⟨error, rfl, ?_⟩
      have hflight := h.flight inFlight thread
      have hmost : starts (s.assistant.transport.interrupt fate threadId turnId).2.log ≤
          s.ended.length + 1 := by
        rw [MainAssistant.interrupt_transport, request_starts_of_ne (by decide)]
        exact hflight.one.le
      refine @Settled.note_unknown _ _ ?_ turnId rfl
      refine h.unknown rfl hflight.certain hmost ?_
      show (s.assistant.transport.interrupt fate threadId turnId).2.log.returned = _
      rw [MainAssistant.interrupt_transport, request_returned]
      rfl

section Perform

variable {parse : List UInt8 → Except String Value} {verify : Value → Except TransportError Unit}
  {verifiedThreadId : Value → Except ProviderError String} {version : String} {call : Call}

theorem Settled.perform (h : Settled s) :
    Settled (s.perform parse verify verifiedThreadId version call) := by
  cases call with
  | arrive line => exact h.alike rfl rfl rfl rfl rfl
  | breakOff error => exact h.alike rfl rfl rfl rfl rfl
  | start fates =>
      exact h.start (MainAssistant.startOrResume_started verify verifiedThreadId version fates _)
  | begin fate prompt =>
      obtain ⟨herror, hok⟩ := h.begin (@MainAssistant.beginTurn_begun fate prompt s.assistant)
      rw [Session.perform]
      match hresult : s.assistant.beginTurn fate prompt with
      | (.ok turnId, assistant) =>
          rw [hresult] at hok
          exact hok turnId rfl
      | (.error error, assistant) =>
          rw [hresult] at herror
          exact herror error rfl
  | poll =>
      obtain ⟨hmore, hcomplete, hfailed, herror⟩ :=
        h.poll (@MainAssistant.pollTurn_taken s.assistant)
      rw [Session.perform]
      match hresult : s.assistant.pollTurn with
      | (.ok none, assistant) =>
          rw [hresult] at hmore
          exact hmore rfl
      | (.ok (some (.complete turnId text usage)), assistant) =>
          rw [hresult] at hcomplete
          exact hcomplete turnId text usage rfl
      | (.ok (some (.failed turnId message)), assistant) =>
          rw [hresult] at hfailed
          exact hfailed turnId message rfl
      | (.error error, assistant) =>
          rw [hresult] at herror
          exact herror error rfl
  | cancel fate =>
      obtain ⟨error, hfirst, hsettled⟩ :=
        h.cancel (@MainAssistant.cancel_cancelled fate s.assistant)
      rw [Session.perform]
      match hresult : s.assistant.cancel fate with
      | (.ok done, assistant) =>
          rw [hresult] at hfirst
          cases hfirst
      | (.error error', assistant) =>
          rw [hresult] at hfirst hsettled
          cases hfirst
          exact hsettled

/-- The assistant that a call leaves. -/
def Call.leaves (parse : List UInt8 → Except String Value)
    (verify : Value → Except TransportError Unit)
    (verifiedThreadId : Value → Except ProviderError String) (version : String)
    (m : MainAssistant) : Call → MainAssistant
  | .arrive line => { m with transport := m.transport.arrive parse line }
  | .breakOff error => { m with transport := m.transport.breakOff error }
  | .start fates => (m.startOrResume verify verifiedThreadId version fates).2
  | .begin fate prompt => (m.beginTurn fate prompt).2
  | .poll => m.pollTurn.2
  | .cancel fate => (m.cancel fate).2

theorem note_assistant (open_ : Bool) : (s.note open_).assistant = s.assistant := by
  cases open_ <;> rfl

theorem perform_assistant : (s.perform parse verify verifiedThreadId version call).assistant =
    call.leaves parse verify verifiedThreadId version s.assistant := by
  cases call with
  | arrive line => rfl
  | breakOff error => rfl
  | start fates => rfl
  | begin fate prompt =>
      rw [Session.perform, Call.leaves]
      match s.assistant.beginTurn fate prompt with
      | (.ok turnId, assistant) => rfl
      | (.error error, assistant) => exact note_assistant _
  | poll =>
      rw [Session.perform, Call.leaves]
      match s.assistant.pollTurn with
      | (.ok none, assistant) => rfl
      | (.ok (some (.complete turnId text usage)), assistant) => rfl
      | (.ok (some (.failed turnId message)), assistant) => rfl
      | (.error error, assistant) => exact note_assistant _
  | cancel fate =>
      rw [Session.perform, Call.leaves]
      match s.assistant.cancel fate with
      | (.ok done, assistant) => rfl
      | (.error error, assistant) => exact note_assistant _

variable {m : MainAssistant}

theorem sound_leaves (h : m.transport.Sound parse) :
    (call.leaves parse verify verifiedThreadId version m).transport.Sound parse := by
  cases call with
  | arrive line => exact h.arrive line
  | breakOff error => exact h.breakOff error
  | start fates =>
      rw [Call.leaves]
      have hopened : (m.opened version fates).2.Sound parse := h.request
      have hconfigured : (m.configured verify version fates).2.Sound parse :=
        hopened.notifyInitialized
      have hthreaded : (m.threaded verify version fates).2.Sound parse := hconfigured.request
      have hstarted := m.startOrResume_started verify verifiedThreadId version fates
      generalize (m.startOrResume verify verifiedThreadId version fates).2 = after at hstarted ⊢
      cases hstarted with
      | refused => exact h
      | opened isNew => exact hopened
      | configured isNew result first => exact hconfigured
      | threaded isNew result first second => exact hthreaded
      | ready isNew result first second id => exact hthreaded
  | begin fate prompt =>
      rw [Call.leaves]
      have hbegun := @MainAssistant.beginTurn_begun fate prompt m
      generalize m.beginTurn fate prompt = result at hbegun ⊢
      cases hbegun with
      | refused error => exact h
      | unknown error threadId isReady thread => exact h.request
      | begun threadId turnId response isReady thread answered => exact h.request
  | poll =>
      rw [Call.leaves]
      have htaken := @MainAssistant.pollTurn_taken m
      generalize m.pollTurn = result at htaken ⊢
      cases htaken with
      | refused => exact h
      | broken turnId threadId error inFlight thread failed => exact h.takeNotifications
      | polled turnId threadId events inFlight thread batch =>
          rw [MainAssistant.pollEvents_same.1]
          exact h.takeNotifications
  | cancel fate =>
      rw [Call.leaves]
      have hcancelled := @MainAssistant.cancel_cancelled fate m
      generalize m.cancel fate = result at hcancelled ⊢
      cases hcancelled with
      | refused => exact h
      | unknown turnId threadId error inFlight thread =>
          rw [MainAssistant.interrupt_transport]
          exact h.request

end Perform

end Runs

/-! ### Runs that lose no event -/

/-- A request that is written meets no event with its own id, and none that the queue refuses. -/
def Clear (fate : Fate) (t : Transport) : Prop :=
  fate.write = none → t.Awaited t.nextId fate.turns

/-- The same for each request of a call; and a batch has no event that is refused or unreadable. -/
def Orderly (verify : Value → Except TransportError Unit) (version : String) (s : Session) :
    Call → Prop
  | .arrive _ => True
  | .breakOff _ => True
  | .start fates => s.assistant.state = .new →
      Clear fates.opening s.assistant.transport ∧
      ∀ result, (s.assistant.opened version fates).1 = .ok result →
        (fates.notify = none → Clear fates.config (s.assistant.opened version fates).2) ∧
        ((s.assistant.configured verify version fates).1 = .ok () →
          Clear fates.thread (s.assistant.configured verify version fates).2)
  | .begin fate _ => s.assistant.state = .ready → Clear fate s.assistant.transport
  | .poll => ∀ turnId, s.assistant.state = .inFlight turnId → s.assistant.transport.Drained
  | .cancel fate =>
      ∀ turnId, s.assistant.state = .inFlight turnId → Clear fate s.assistant.transport

section Whole

variable {parse : List UInt8 → Except String Value} {verify : Value → Except TransportError Unit}
  {verifiedThreadId : Value → Except ProviderError String} {version : String} {call : Call}
  {s : Session}

theorem whole_leaves (h : s.assistant.transport.Whole) (horderly : Orderly verify version s call) :
    (call.leaves parse verify verifiedThreadId version s.assistant).transport.Whole := by
  cases call with
  | arrive line => exact h
  | breakOff error => exact h
  | start fates =>
      rw [Call.leaves]
      have hstarted := s.assistant.startOrResume_started verify verifiedThreadId version fates
      generalize (s.assistant.startOrResume verify verifiedThreadId version fates).2 = after
        at hstarted ⊢
      have hopened : s.assistant.state = .new → (s.assistant.opened version fates).2.Whole :=
        fun isNew => h.request (horderly isNew).1
      have hconfigured : s.assistant.state = .new → ∀ result,
          (s.assistant.opened version fates).1 = .ok result →
          (s.assistant.configured verify version fates).2.Whole := fun isNew result first =>
        (hopened isNew).notifyInitialized ((horderly isNew).2 result first).1
      have hthreaded : s.assistant.state = .new → ∀ result,
          (s.assistant.opened version fates).1 = .ok result →
          (s.assistant.configured verify version fates).1 = .ok () →
          (s.assistant.threaded verify version fates).2.Whole := fun isNew result first second =>
        (hconfigured isNew result first).request (((horderly isNew).2 result first).2 second)
      cases hstarted with
      | refused => exact h
      | opened isNew => exact hopened isNew
      | configured isNew result first => exact hconfigured isNew result first
      | threaded isNew result first second => exact hthreaded isNew result first second
      | ready isNew result first second id => exact hthreaded isNew result first second
  | begin fate prompt =>
      rw [Call.leaves]
      have hbegun := @MainAssistant.beginTurn_begun fate prompt s.assistant
      generalize s.assistant.beginTurn fate prompt = result at hbegun ⊢
      cases hbegun with
      | refused error => exact h
      | unknown error threadId isReady thread => exact h.request (horderly isReady)
      | begun threadId turnId response isReady thread answered => exact h.request (horderly isReady)
  | poll =>
      rw [Call.leaves]
      have htaken := @MainAssistant.pollTurn_taken s.assistant
      generalize s.assistant.pollTurn = result at htaken ⊢
      cases htaken with
      | refused => exact h
      | broken turnId threadId error inFlight thread failed =>
          exact h.takeNotifications (horderly turnId inFlight)
      | polled turnId threadId events inFlight thread batch =>
          rw [MainAssistant.pollEvents_same.1]
          exact h.takeNotifications (horderly turnId inFlight)
  | cancel fate =>
      rw [Call.leaves]
      have hcancelled := @MainAssistant.cancel_cancelled fate s.assistant
      generalize s.assistant.cancel fate = result at hcancelled ⊢
      cases hcancelled with
      | refused => exact h
      | unknown turnId threadId error inFlight thread =>
          rw [MainAssistant.interrupt_transport]
          exact h.request (horderly turnId inFlight)

end Whole

namespace Session

section

variable {parse : List UInt8 → Except String Value} {verify : Value → Except TransportError Unit}
  {verifiedThreadId : Value → Except ProviderError String} {version : String}
  {threadId : Option String} {config : ProviderConfig} {meets : Session → Call → Prop} {s : Session}

theorem Run.settled (h : Run parse verify verifiedThreadId version threadId config meets s) :
    Settled s := by
  induction h with
  | new => exact ⟨.new rfl rfl rfl, List.forall_mem_nil _⟩
  | call s call run met ih => exact ih.perform

theorem Run.sound (h : Run parse verify verifiedThreadId version threadId config meets s) :
    s.assistant.transport.Sound parse := by
  induction h with
  | new => exact ⟨nofun, nofun, List.Sublist.refl _, rfl⟩
  | call s call run met ih =>
      rw [perform_assistant]
      exact sound_leaves ih

theorem Run.whole (h : Run parse verify verifiedThreadId version threadId config meets s)
    (horderly : ∀ s call, meets s call → Orderly verify version s call) :
    s.assistant.transport.Whole := by
  induction h with
  | new => rfl
  | call s call run met ih =>
      rw [perform_assistant]
      exact whole_leaves ih (horderly s call met)

end

end Session

/-- In every run: a result is that of a response with the request's id and no method; events are
returned in the order they came in, none twice; the text of a completed turn is that of its deltas
from when it began to when it was completed; one turn at most is outstanding, and none is asked for
after an outcome that left the delivery open.  And no event is lost in a run in which no wait meets
an event with the id it waits for, and no event is refused by the queue or unreadable. -/
theorem turns_of_their_own (parse : List UInt8 → Except String Value)
    (verify : Value → Except TransportError Unit)
    (verifiedThreadId : Value → Except ProviderError String) (version : String)
    (threadId : Option String) (config : ProviderConfig) (meets : Session → Call → Prop)
    (s : Session)
    (hrun : Session.Run parse verify verifiedThreadId version threadId config meets s) :
    (∀ answer ∈ s.log.answered, Transport.Answers parse s.log.arrived answer) ∧
    (s.log.delivered ++ s.assistant.transport.notifications).Sublist s.log.received ∧
    s.log.delivered.map ServerEvent.fromJson = s.log.returned.map .ok ∧
    (∀ e ∈ s.ended, e.Own s.log.returned) ∧
    starts s.log ≤ s.ended.length + 1 ∧
    (∀ n, s.uncertain = some n → starts s.log = n) ∧
    ((∀ s call, meets s call → Orderly verify version s call) →
      s.log.received = s.log.delivered ++ s.assistant.transport.notifications) := by
  have hsound := hrun.sound
  have hsettled := hrun.settled
  refine ⟨hsound.answered, hsound.order, hsound.returned, hsettled.texts, ?_, ?_, hrun.whole⟩
  · cases hsettled.phase with
    | new state all certain => exact all.le.trans (Nat.le_succ _)
    | ready threadId state thread all certain => exact all.le.trans (Nat.le_succ _)
    | inFlight turnId threadId state thread one certain began none_ends response => exact one.le
    | unknown turnId state most uncertain => exact most
  · intro n hn
    cases hsettled.phase with
    | new state all certain => rw [certain] at hn; cases hn
    | ready threadId state thread all certain => rw [certain] at hn; cases hn
    | inFlight turnId threadId state thread one certain => rw [certain] at hn; cases hn
    | unknown turnId state most uncertain => exact (uncertain n hn).symm

/-! ### Two runs -/

section Samples

def sampleTurn : Value := .object [("id", .string "u"), ("status", .string "completed")]

/-- The lines of a provider, by their numbers. -/
def sampleParse : List UInt8 → Except String Value
  | [1] => .ok (.object [("id", .number (.posInt 1)), ("result", .object [])])
  | [2] => .ok (.object [("id", .number (.posInt 2)), ("result", .object [])])
  | [3] => .ok (.object [("id", .number (.posInt 3)), ("result", .object [])])
  | [4] => .ok (.object [("id", .number (.posInt 4)), ("result", .object [("turn", sampleTurn)])])
  | [5] => .ok (.object [("method", .string "item/agentMessage/delta"), ("params",
      .object [("delta", .string "hi"), ("threadId", .string "t"), ("turnId", .string "u")])])
  | [6] => .ok (.object [("method", .string "turn/completed"), ("params",
      .object [("threadId", .string "t"), ("turn", sampleTurn)])])
  -- a request of the provider's own, which counts its requests by itself
  | [7] => .ok (.object [("id", .number (.posInt 4)), ("method", .string "currentTime/read")])
  | _ => .error "expected value"

def sampleFate : Fate := ⟨none, 8, false⟩

def samplePerform (call : Call) (s : Session) : Session :=
  s.perform sampleParse (fun _ => .ok ()) (fun _ => .ok "t") "1" call

/-- An assistant without a thread, after some calls. -/
def sampleRun (calls : List Call) : Session :=
  calls.foldl (fun s call => samplePerform call s) (Session.new none ⟨"m", "e", 64, 64, "never"⟩)

/-- The handshake, with its answers. -/
def handshake : List Call :=
  [.arrive [1], .arrive [2], .arrive [3], .start ⟨sampleFate, none, sampleFate, sampleFate⟩]

theorem sampleRun_run (calls : List Call) :
    Session.Run sampleParse (fun _ => .ok ()) (fun _ => .ok "t") "1" none
      ⟨"m", "e", 64, 64, "never"⟩ (fun _ _ => True) (sampleRun calls) := by
  induction calls using List.reverseRecOn with
  | nil => exact .new
  | append_singleton calls call ih =>
      rw [sampleRun, List.foldl_append]
      exact .call _ call ih trivial

/-- A turn whose delta came before its response. -/
def greeted : Session :=
  sampleRun (handshake ++ [.arrive [5], .arrive [4], .arrive [6], .begin sampleFate "p", .poll])

theorem turns_of_their_own_greeted : greeted.ended.map Ended.text = [some "hi"] ∧
    starts greeted.log ≤ greeted.ended.length + 1 := by
  obtain ⟨-, -, -, -, hone, -⟩ := turns_of_their_own _ _ _ _ _ _ _ greeted (sampleRun_run _)
  exact ⟨by decide +kernel, hone⟩

/-- The turn's request waits for `4`, and the provider asks something under `4`: what it asks is
read, and neither delivered nor kept. -/
theorem server_request_lost : ¬∀ s : Session,
    Session.Run sampleParse (fun _ => .ok ()) (fun _ => .ok "t") "1" none
      ⟨"m", "e", 64, 64, "never"⟩ (fun _ _ => True) s →
    s.log.received = s.log.delivered ++ s.assistant.transport.notifications := by
  intro hall
  have hlost := hall _ (sampleRun_run (handshake ++ [.arrive [7], .begin sampleFate "p"]))
  have hlength := congrArg List.length hlost
  revert hlength
  decide +kernel

end Samples

end Pikamux.AssistantProvider
