import Mathlib.Data.List.Infix
import Pikamux.Assistant.Lifecycle
import Pikamux.Json.Sizes

/-!
# Assistant — Transport

The frames of the isolated provider process.  A request reads them until its response comes and
keeps the events it meets on the way; between requests all that has come is read, and the events
are returned.

* `waitingResponse`, `drain` — the two loops that read, each with its own order of cases.
* `Transport.Sound` — what holds whatever the provider sends: a result is from the response with
  the request's id, and no event is returned twice or out of order.
* `Awaited`, `Drained` — when a wait, and a batch, lose no event; an event that has the id of the
  request that is waited for is lost.
-/

namespace Pikamux.AssistantTransport

open Json

/-! ### Events -/

structure Usage where
  inputTokens : Nat
  outputTokens : Nat
  deriving DecidableEq, Repr

inductive ServerEvent where
  | contextCompaction (threadId : Option String) (turnId itemId : String) (completed : Bool)
  | agentDelta (threadId : Option String) (turnId text : String)
  | completed (threadId : Option String) (turnId : String) (usage : Option Usage)
  | failed (threadId : Option String) (turnId message : String)
  | toolRequest (threadId : Option String) (turnId : String)
  | other (threadId turnId : Option String)
  deriving DecidableEq, Repr

/-- `value.get(first).and_then(|v| v.get(second))` -/
def getIn (value : Value) (first second : String) : Option Value :=
  (value.get? first).bind (·.get? second)

/-- `valid_compaction_id` -/
def validCompactionId (id : String) : Bool :=
  id ≠ "" && id.utf8ByteSize ≤ 256 && !id.toList.any Lifecycle.isControl

/-- `parse_compaction`; an error is `ProviderError::Protocol` of its text, here and below. -/
def parseCompaction (params : Value) (threadId turnId : Option String) (completed : Bool) :
    Except String ServerEvent :=
  match ((getIn params "item" "id").bind Value.asStr).filter validCompactionId with
  | none => .error "compaction missing valid item id"
  | some itemId =>
      match turnId.filter validCompactionId with
      | none => .error "compaction missing valid turn id"
      | some turnId =>
          match threadId.filter validCompactionId with
          | none => .error "compaction missing valid thread id"
          | some threadId => .ok (.contextCompaction (some threadId) turnId itemId completed)

/-- `parse_completed_event` -/
def parseCompletedEvent (params : Value) (threadId turnId : Option String) :
    Except String ServerEvent :=
  match turnId with
  | none => .error "completion missing turnId"
  | some id =>
      match (getIn params "turn" "status").bind Value.asStr with
      | none => .error "completion missing status"
      | some status =>
          if status ≠ "completed" then .ok (.failed threadId id status)
          else
            let usage := (getIn params "turn" "usage").bind fun usage =>
              ((usage.get? "inputTokens").bind Value.asU64).bind fun inputTokens =>
                ((usage.get? "outputTokens").bind Value.asU64).map fun outputTokens =>
                  ⟨inputTokens, outputTokens⟩
            .ok (.completed threadId id usage)

/-- `str::contains` -/
def contains (text part : String) : Bool := decide (part.toList <:+: text.toList)

/-- `str::starts_with` -/
def startsWith (text part : String) : Bool := part.toList.isPrefixOf text.toList

/-- `ServerEvent::from_json` -/
def ServerEvent.fromJson (value : Value) : Except String ServerEvent :=
  let method := ((value.get? "method").bind Value.asStr).getD ""
  let params := (value.get? "params").getD .null
  let turnId := ((params.get? "turnId").bind Value.asStr).or
    ((getIn params "turn" "id").bind Value.asStr)
  let threadId := (params.get? "threadId").bind Value.asStr
  if (method = "item/started" || method = "item/completed") &&
      (getIn params "item" "type").bind Value.asStr = some "contextCompaction" then
    parseCompaction params threadId turnId (method = "item/completed")
  else if method = "item/agentMessage/delta" then
    match turnId with
    | none => .error "delta missing turnId"
    | some turnId =>
        .ok (.agentDelta threadId turnId (((params.get? "delta").bind Value.asStr).getD ""))
  else if method = "turn/completed" then parseCompletedEvent params threadId turnId
  else if method = "error" || method = "turn/error" then
    match turnId with
    | none => .error "error missing turnId"
    | some turnId =>
        let message := (params.get? "message").or (getIn params "error" "message")
        .ok (.failed threadId turnId ((message.bind Value.asStr).getD "provider error"))
  else if contains method "requestApproval" || contains method "/tool/" ||
      startsWith method "mcpServer/" || startsWith method "serverRequest/" then
    .ok (.toolRequest threadId (turnId.getD ""))
  else .ok (.other threadId turnId)

/-! ### Frames -/

inductive TransportError where
  | isolation (message : String)
  | io (message : String)
  | rpc (message : String)
  | protocol (message : String)
  | cancelled
  deriving DecidableEq, Repr

/-- `TransportError::to_string` -/
def TransportError.text : TransportError → String
  | isolation message => "assistant provider isolation is not enabled: " ++ message
  | io message => "assistant provider transport failed: " ++ message
  | rpc message => "assistant provider RPC failed: " ++ message
  | protocol message => "assistant provider protocol violation: " ++ message
  | cancelled => "assistant provider transport was cancelled"

inductive ProviderError where
  | transport (message : String)
  | protocol (message : String)
  | notReady
  | alreadyInFlight
  | promptTooLarge
  | responseTooLarge
  | unknownDelivery
  | cancelled
  | toolRequestBlocked
  | inProgress
  deriving DecidableEq, Repr

/-- `ProviderError::Transport(error.to_string())` -/
def TransportError.provider (error : TransportError) : ProviderError := .transport error.text

structure Frame where
  id : Option Nat
  result : Option Value
  error : Option Value
  /-- The whole of a frame that has a method. -/
  event : Option Value

/-- What the reader of the provider's output sends. -/
abbrev Incoming := Except TransportError Frame

def maxFrameBytes : Nat := 1024 * 1024
def maxPendingFrames : Nat := 64
def maxNotificationBytes : Nat := 4 * 1024 * 1024
def maxDiagnosticBytes : Nat := 4096

/-- `parse_frame`; `parse` is `serde_json::from_slice`. -/
def parseFrame (parse : List UInt8 → Except String Value) (bytes : List UInt8) : Incoming :=
  if maxFrameBytes < bytes.length then .error (.protocol "RPC frame exceeds 1 MiB")
  else
    match parse bytes with
    | .error message => .error (.protocol message)
    | .ok value =>
        let id := (value.get? "id").bind Value.asU64
        match value.get? "method" with
        | some _ => .ok ⟨id, none, none, some value⟩
        | none => .ok ⟨id, value.get? "result", value.get? "error", none⟩

/-- `bounded_diagnostic` -/
def boundedDiagnostic (message : String) : String :=
  let rec bounded (size : Nat) : List Char → List Char
    | [] => []
    | ch :: rest =>
        let ch := if Lifecycle.isControl ch then ' ' else ch
        if maxDiagnosticBytes < size + ch.utf8Size then ['…']
        else ch :: bounded (size + ch.utf8Size) rest
  String.ofList (bounded 0 message.toList)

/-! ### The transport -/

/-- A request that was written, or perhaps was. -/
structure Sent where
  id : Nat
  method : String
  params : Value

/-- What has gone through the transport since it was spawned. -/
structure Log where
  /-- The lines of the provider. -/
  arrived : List (List UInt8) := []
  /-- The event frames that were read. -/
  received : List Value := []
  /-- The results of requests. -/
  answered : List (Nat × Value) := []
  /-- The event frames that were taken from the queue, and what they were read as. -/
  delivered : List Value := []
  returned : List ServerEvent := []
  sent : List Sent := []

/-- `CodexTransport` -/
structure Transport where
  /-- Frames that are not read yet. -/
  frames : List Incoming := []
  notifications : List Value := []
  notificationBytes : Nat := 0
  nextId : Nat := 1
  ready : Bool := false
  log : Log := {}

/-- What the surroundings make of a request. -/
structure Fate where
  /-- Why it was not written. -/
  write : Option TransportError
  /-- How many frames are read before the deadline. -/
  turns : Nat
  /-- The provider has closed its output. -/
  closed : Bool

namespace Transport

/-- A line of the provider. -/
def arrive (parse : List UInt8 → Except String Value) (line : List UInt8) (t : Transport) :
    Transport :=
  { t with
    frames := t.frames ++ [parseFrame parse line]
    log := { t.log with arrived := t.log.arrived ++ [line] } }

/-- The reader ends with an error. -/
def breakOff (error : TransportError) (t : Transport) : Transport :=
  { t with frames := t.frames ++ [.error error] }

/-- A frame is read, and these are left. -/
def read (frame : Frame) (frames : List Incoming) (t : Transport) : Transport :=
  { t with
    frames
    log := { t.log with received := t.log.received ++ frame.event.toList } }

def answer (id : Nat) (result : Value) (t : Transport) : Transport :=
  { t with log := { t.log with answered := t.log.answered ++ [(id, result)] } }

/-- `push_notification` -/
def pushNotification (event : Value) (t : Transport) : Except TransportError Transport :=
  if maxFrameBytes < event.bytes || maxNotificationBytes < t.notificationBytes + event.bytes ||
      maxPendingFrames ≤ t.notifications.length then
    .error (.protocol "notification queue exceeds safety bound")
  else
    .ok { t with
      notificationBytes := t.notificationBytes + event.bytes
      notifications := t.notifications ++ [event] }

/-- `waiting_response` -/
def waitingResponse (id : Nat) (closed : Bool) : Nat → Transport →
    Except TransportError Value × Transport
  | 0, t => (.error (.rpc "RPC response timeout"), t)
  | turns + 1, t =>
      match t.frames with
      | [] =>
          if closed then (.error (.rpc "Codex closed the connection before replying"), t)
          else (.error (.rpc "RPC response timeout"), t)
      | .error error :: frames => (.error error, { t with frames })
      | .ok frame :: frames =>
          let t := t.read frame frames
          if frame.id = some id then
            match frame.error, frame.result with
            | some error, _ => (.error (.rpc (boundedDiagnostic error.toText)), t)
            | none, some result => (.ok result, t.answer id result)
            | none, none => (.error (.protocol "RPC response omitted result"), t)
          else
            match frame.event with
            | some event =>
                match t.pushNotification event with
                | .error error => (.error error, t)
                | .ok t => waitingResponse id closed turns t
            | none => (.error (.protocol "RPC response id mismatch"), t)

/-- A request is written, under the next id. -/
def send (method : String) (params : Value) (t : Transport) : Transport :=
  { t with
    nextId := t.nextId + 1
    log := { t.log with sent := t.log.sent ++ [⟨t.nextId, method, params⟩] } }

/-- The message of a request. -/
def message (id : Nat) (method : String) (params : Value) : Value :=
  .object [("id", .number (.posInt id)), ("jsonrpc", .string "2.0"), ("method", .string method),
    ("params", params)]

/-- `request_raw` -/
def requestRaw (fate : Fate) (method : String) (params : Value) (t : Transport) :
    Except TransportError Value × Transport :=
  let id := t.nextId
  if id + 1 = 2 ^ 64 then (.error (.protocol "RPC id exhausted"), t)
  else if maxFrameBytes < (message id method params).bytes + 1 then
    (.error (.protocol "RPC request exceeds 1 MiB"), { t with nextId := id + 1 })
  else
    let t := t.send method params
    match fate.write with
    | some error => (.error error, t)
    | none => t.waitingResponse id fate.closed fate.turns

/-- `request` -/
def request (fate : Fate) (method : String) (params : Value) (t : Transport) :
    Except ProviderError Value × Transport :=
  if method ≠ "initialize" && method ≠ "config/read" && !t.ready then
    (.error (.transport "provider effective configuration was not verified"), t)
  else
    match t.requestRaw fate method params with
    | (.error error, t) => (.error error.provider, t)
    | (.ok result, t) => (.ok result, t)

/-- What `config/read` is asked for. -/
def includeLayers : Value := .object [("includeLayers", .bool false)]

/-- `notify`, of `initialized`; `verifyEffectiveConfig` is the check of the provider's settings. -/
def notifyInitialized (verifyEffectiveConfig : Value → Except TransportError Unit)
    (write : Option TransportError) (fate : Fate) (t : Transport) :
    Except ProviderError Unit × Transport :=
  match write with
  | some error => (.error error.provider, t)
  | none =>
      match t.requestRaw fate "config/read" includeLayers with
      | (.error error, t) => (.error error.provider, t)
      | (.ok effective, t) =>
          match verifyEffectiveConfig effective with
          | .error error => (.error error.provider, t)
          | .ok () => (.ok (), { t with ready := true })

/-- One frame of a batch. -/
def takeNotification (frame : Frame) (t : Transport) : Except TransportError Transport :=
  match frame.event, frame.id with
  | some event, _ => t.pushNotification event
  | none, some _ => .error (.protocol "late RPC response without a request")
  | none, none => .ok t

/-- `drain_notifications`: `frames` are the frames of the transport. -/
def drain : List Incoming → Transport → Except TransportError Unit × Transport
  | [], t => (.ok (), { t with frames := [] })
  | .error error :: frames, t => (.error error, { t with frames })
  | .ok frame :: frames, t =>
      let t := t.read frame frames
      match t.takeNotification frame with
      | .error error => (.error error, t)
      | .ok t => drain frames t

/-- The events of a batch. -/
def readEvents : List Value → Except String (List ServerEvent)
  | [] => .ok []
  | value :: pending =>
      match ServerEvent.fromJson value with
      | .error message => .error message
      | .ok event => (readEvents pending).map (event :: ·)

/-- `notifications`.  The frame that it waits for at first is taken as the others are, so a batch
is what is there when it ends. -/
def takeNotifications (t : Transport) : Except ProviderError (List ServerEvent) × Transport :=
  match t.drain t.frames with
  | (.error error, t) => (.error error.provider, t)
  | (.ok (), t) =>
      let pending := t.notifications
      let t := { t with notifications := [], notificationBytes := 0 }
      match readEvents pending with
      | .error message => (.error (.transport ("Protocol(\"" ++ message ++ "\")")), t)
      | .ok events =>
          (.ok events, { t with
            log := { t.log with
              delivered := t.log.delivered ++ pending
              returned := t.log.returned ++ events } })

/-- `interrupt` -/
def interrupt (fate : Fate) (threadId turnId : String) (t : Transport) :
    Except ProviderError Unit × Transport :=
  match t.request fate "turn/interrupt"
    (.object [("threadId", .string threadId), ("turnId", .string turnId)]) with
  | (.error error, t) => (.error error, t)
  | (.ok _, t) => (.ok (), t)

/-! ### What reading does -/

/-- What the loops do with a frame. -/
inductive Reads (t : Transport) : Transport → Prop where
  | broken (error : TransportError) (frames : List Incoming)
      (first : t.frames = .error error :: frames) : Reads t { t with frames }
  /-- The frame is dropped. -/
  | dropped (frame : Frame) (frames : List Incoming) (first : t.frames = .ok frame :: frames) :
      Reads t (t.read frame frames)
  | kept (frame : Frame) (frames : List Incoming) (event : Value) (after : Transport)
      (first : t.frames = .ok frame :: frames) (has : frame.event = some event)
      (push : (t.read frame frames).pushNotification event = .ok after) : Reads t after
  | answered (frame : Frame) (frames : List Incoming) (id : Nat) (result : Value)
      (first : t.frames = .ok frame :: frames) (own : frame.id = some id)
      (good : frame.error = none) (has : frame.result = some result) :
      Reads t ((t.read frame frames).answer id result)

/-- Any number of frames are read. -/
abbrev Reading : Transport → Transport → Prop := Relation.ReflTransGen Reads

section Steps

variable {parse : List UInt8 → Except String Value} {t after : Transport} {id turns : Nat}
  {closed : Bool} {fate : Fate} {method : String} {params event : Value} {frame : Frame}
  {frames : List Incoming}

theorem waitingResponse_reading : Reading t (t.waitingResponse id closed turns).2 := by
  induction turns generalizing t with
  | zero => exact .refl
  | succ turns ih =>
      rw [waitingResponse]
      match hframes : t.frames with
      | [] => cases closed <;> exact .refl
      | .error error :: frames => exact .single (.broken error frames hframes)
      | .ok frame :: frames =>
          simp only
          by_cases hid : frame.id = some id
          · rw [if_pos hid]
            match herror : frame.error, hresult : frame.result with
            | some error, _ => exact .single (.dropped frame frames hframes)
            | none, some result =>
                exact .single (.answered frame frames id result hframes hid herror hresult)
            | none, none => exact .single (.dropped frame frames hframes)
          · rw [if_neg hid]
            match hevent : frame.event with
            | none => exact .single (.dropped frame frames hframes)
            | some event =>
                simp only
                cases hpush : (t.read frame frames).pushNotification event with
                | error error => exact .single (.dropped frame frames hframes)
                | ok after => exact .head (.kept frame frames event after hframes hevent hpush) ih

theorem pushNotification_eq (h : t.pushNotification event = .ok after) :
    after = { t with
      notificationBytes := t.notificationBytes + event.bytes
      notifications := t.notifications ++ [event] } := by
  rw [pushNotification] at h
  split at h
  · cases h
  · exact (Except.ok.inj h).symm

theorem drain_reading (hframes : t.frames = frames) : Reading t (t.drain frames).2 := by
  induction frames generalizing t with
  | nil =>
      rw [drain, ← hframes]
  | cons first frames ih =>
      match first with
      | .error error => exact .single (.broken error frames hframes)
      | .ok frame =>
          rw [drain]
          have hdropped : Reading t (t.read frame frames) :=
            .single (.dropped frame frames hframes)
          match hevent : frame.event, hid : frame.id with
          | some event, _ =>
              simp only [takeNotification, hevent]
              cases hpush : (t.read frame frames).pushNotification event with
              | error error => exact hdropped
              | ok after =>
                  have hafter : after.frames = frames := by rw [pushNotification_eq hpush]; rfl
                  exact .head (.kept frame frames event after hframes hevent hpush) (ih hafter)
          | none, some id =>
              simp only [takeNotification, hevent, hid]
              exact hdropped
          | none, none =>
              simp only [takeNotification, hevent, hid]
              exact hdropped.trans (ih rfl)

/-- A request that is not written leaves everything but the next id; one that is reads frames. -/
theorem requestRaw_cases : (∃ error nextId,
      t.requestRaw fate method params = (.error error, { t with nextId })) ∨
    Reading (t.send method params) (t.requestRaw fate method params).2 := by
  rw [requestRaw]
  by_cases hlast : t.nextId + 1 = 2 ^ 64
  · exact .inl ⟨.protocol "RPC id exhausted", t.nextId, by simp only [if_pos hlast]⟩
  · by_cases hbytes : maxFrameBytes < (message t.nextId method params).bytes + 1
    · exact .inl ⟨.protocol "RPC request exceeds 1 MiB", t.nextId + 1, by
        simp only [if_neg hlast, if_pos hbytes]⟩
    · right
      simp only [if_neg hlast, if_neg hbytes]
      cases fate.write with
      | some error => exact .refl
      | none => exact waitingResponse_reading

theorem request_cases : (∃ error nextId,
      t.request fate method params = (.error error, { t with nextId })) ∨
    Reading (t.send method params) (t.request fate method params).2 := by
  rw [request]
  split
  · exact .inl ⟨_, t.nextId, rfl⟩
  · rcases @requestRaw_cases t fate method params with ⟨error, nextId, hraw⟩ | hread
    · exact .inl ⟨error.provider, nextId, by rw [hraw]⟩
    · right
      match hraw : t.requestRaw fate method params with
      | (.error error, after) =>
          rw [hraw] at hread
          exact hread
      | (.ok result, after) =>
          rw [hraw] at hread
          exact hread

/-! ### What holds whatever comes -/

/-- A result is that of a response with the id, and not of a frame that has a method. -/
def Answers (parse : List UInt8 → Except String Value) (arrived : List (List UInt8))
    (answer : Nat × Value) : Prop :=
  ∃ line ∈ arrived, ∃ value, parse line = .ok value ∧ value.get? "method" = none ∧
    (value.get? "id").bind Value.asU64 = some answer.1 ∧ value.get? "error" = none ∧
    value.get? "result" = some answer.2

structure Sound (parse : List UInt8 → Except String Value) (t : Transport) : Prop where
  frames : ∀ frame, .ok frame ∈ t.frames → ∃ line ∈ t.log.arrived, parseFrame parse line = .ok frame
  answered : ∀ answer ∈ t.log.answered, Answers parse t.log.arrived answer
  order : (t.log.delivered ++ t.notifications).Sublist t.log.received
  returned : t.log.delivered.map ServerEvent.fromJson = t.log.returned.map .ok

theorem parseFrame_response {line : List UInt8} (h : parseFrame parse line = .ok frame)
    (hid : frame.id = some id) (herror : frame.error = none) {result : Value}
    (hresult : frame.result = some result) : ∃ value, parse line = .ok value ∧
      value.get? "method" = none ∧ (value.get? "id").bind Value.asU64 = some id ∧
      value.get? "error" = none ∧ value.get? "result" = some result := by
  rw [parseFrame] at h
  split at h
  · cases h
  · cases hparse : parse line with
    | error message =>
        rw [hparse] at h
        cases h
    | ok value =>
        rw [hparse] at h
        simp only at h
        cases hmethod : value.get? "method" with
        | some name =>
            rw [hmethod] at h
            cases h
            cases hresult
        | none =>
            rw [hmethod] at h
            cases h
            exact ⟨value, rfl, hmethod, hid, herror, hresult⟩

theorem Sound.arrive (h : t.Sound parse) (line : List UInt8) :
    (t.arrive parse line).Sound parse := by
  refine ⟨?_, ?_, h.order, h.returned⟩
  · intro frame hframe
    rcases List.mem_append.mp hframe with hframe | hframe
    · obtain ⟨old, hold, hparse⟩ := h.frames frame hframe
      exact ⟨old, List.mem_append_left _ hold, hparse⟩
    · exact ⟨line, List.mem_append_right _ (List.mem_singleton_self _),
        (List.mem_singleton.mp hframe).symm⟩
  · intro answer hanswer
    obtain ⟨old, hold, hvalue⟩ := h.answered answer hanswer
    exact ⟨old, List.mem_append_left _ hold, hvalue⟩

theorem Sound.breakOff (h : t.Sound parse) (error : TransportError) :
    (t.breakOff error).Sound parse := by
  refine ⟨?_, h.answered, h.order, h.returned⟩
  intro frame hframe
  rcases List.mem_append.mp hframe with hframe | hframe
  · exact h.frames frame hframe
  · cases List.mem_singleton.mp hframe

theorem Sound.reads (h : t.Sound parse) (hreads : Reads t after) : after.Sound parse := by
  have hmore : ∀ (first : Incoming) (frames : List Incoming), t.frames = first :: frames →
      ∀ frame, .ok frame ∈ frames → ∃ line ∈ t.log.arrived, parseFrame parse line = .ok frame := by
    intro first frames hframes frame hframe
    exact h.frames frame (hframes ▸ List.mem_cons_of_mem _ hframe)
  cases hreads with
  | broken error frames first => exact ⟨hmore _ _ first, h.answered, h.order, h.returned⟩
  | dropped frame frames first =>
      exact ⟨hmore _ _ first, h.answered, h.order.trans (List.sublist_append_left _ _), h.returned⟩
  | kept frame frames event after first has push =>
      rw [pushNotification_eq push]
      refine ⟨hmore _ _ first, h.answered, ?_, h.returned⟩
      show (t.log.delivered ++ (t.notifications ++ [event])).Sublist
        (t.log.received ++ frame.event.toList)
      rw [has, ← List.append_assoc]
      exact h.order.append (List.Sublist.refl _)
  | answered frame frames id result first own good has =>
      refine ⟨hmore _ _ first, ?_, h.order.trans (List.sublist_append_left _ _), h.returned⟩
      intro answer hanswer
      rcases List.mem_append.mp hanswer with hanswer | hanswer
      · exact h.answered answer hanswer
      · obtain ⟨line, hline, hparse⟩ := h.frames frame (first ▸ List.mem_cons_self)
        rw [List.mem_singleton.mp hanswer]
        exact ⟨line, hline, parseFrame_response hparse own good has⟩

theorem Sound.reading (h : t.Sound parse) (hreading : Reading t after) : after.Sound parse := by
  induction hreading with
  | refl => exact h
  | tail _ hreads ih => exact ih.reads hreads

theorem Sound.send (h : t.Sound parse) : (t.send method params).Sound parse :=
  ⟨h.frames, h.answered, h.order, h.returned⟩

theorem Sound.requestRaw (h : t.Sound parse) :
    (t.requestRaw fate method params).2.Sound parse := by
  rcases @requestRaw_cases t fate method params with ⟨error, nextId, heq⟩ | hread
  · rw [heq]
    exact ⟨h.frames, h.answered, h.order, h.returned⟩
  · exact h.send.reading hread

theorem Sound.request (h : t.Sound parse) : (t.request fate method params).2.Sound parse := by
  rcases @request_cases t fate method params with ⟨error, nextId, heq⟩ | hread
  · rw [heq]
    exact ⟨h.frames, h.answered, h.order, h.returned⟩
  · exact h.send.reading hread

theorem readEvents_eq {pending : List Value} {events : List ServerEvent}
    (h : readEvents pending = .ok events) : pending.map ServerEvent.fromJson = events.map .ok := by
  induction pending generalizing events with
  | nil =>
      cases h
      rfl
  | cons value pending ih =>
      rw [readEvents] at h
      cases hvalue : ServerEvent.fromJson value with
      | error message =>
          rw [hvalue] at h
          cases h
      | ok event =>
          rw [hvalue] at h
          cases hrest : readEvents pending with
          | error message =>
              rw [hrest] at h
              cases h
          | ok rest =>
              rw [hrest] at h
              cases h
              rw [List.map_cons, List.map_cons, ih hrest, hvalue]

theorem takeNotifications_cases : (∃ error,
      t.takeNotifications = (.error error, (t.drain t.frames).2)) ∨
    (∃ error, t.takeNotifications =
      (.error error, { (t.drain t.frames).2 with notifications := [], notificationBytes := 0 }) ∧
        (t.drain t.frames).1 = .ok () ∧
        ∃ message, readEvents (t.drain t.frames).2.notifications = .error message) ∨
    ∃ events, readEvents (t.drain t.frames).2.notifications = .ok events ∧
      (t.drain t.frames).1 = .ok () ∧
      t.takeNotifications = (.ok events, { (t.drain t.frames).2 with
        notifications := []
        notificationBytes := 0
        log := { (t.drain t.frames).2.log with
          delivered := (t.drain t.frames).2.log.delivered ++ (t.drain t.frames).2.notifications
          returned := (t.drain t.frames).2.log.returned ++ events } }) := by
  rw [takeNotifications]
  match hdrain : t.drain t.frames with
  | (.error error, after) => exact .inl ⟨error.provider, rfl⟩
  | (.ok (), after) =>
      right
      simp only
      cases hevents : readEvents after.notifications with
      | error message => exact .inl ⟨_, rfl, trivial, message, rfl⟩
      | ok events => exact .inr ⟨events, rfl, trivial, rfl⟩

theorem Sound.takeNotifications (h : t.Sound parse) : t.takeNotifications.2.Sound parse := by
  have hdrain := h.reading (@drain_reading t _ rfl)
  rcases @takeNotifications_cases t with ⟨error, heq⟩ | ⟨error, heq, -⟩ | ⟨events, hevents, -, heq⟩
  · rw [heq]
    exact hdrain
  · rw [heq]
    refine ⟨hdrain.frames, hdrain.answered, ?_, hdrain.returned⟩
    rw [List.append_nil]
    exact (List.sublist_append_left _ _).trans hdrain.order
  · rw [heq]
    refine ⟨hdrain.frames, hdrain.answered, ?_, ?_⟩
    · rw [List.append_nil]
      exact hdrain.order
    · rw [List.map_append, List.map_append, hdrain.returned, readEvents_eq hevents]

/-- The notification writes nothing, or asks for the settings. -/
theorem notifyInitialized_cases {verify : Value → Except TransportError Unit}
    {write : Option TransportError} : (t.notifyInitialized verify write fate).2 = t ∨
      write = none ∧ ∃ ready, (t.notifyInitialized verify write fate).2 =
        { (t.requestRaw fate "config/read" includeLayers).2 with ready } := by
  cases write with
  | some error => exact .inl rfl
  | none =>
      refine .inr ⟨rfl, ?_⟩
      simp only [notifyInitialized]
      match t.requestRaw fate "config/read" includeLayers with
      | (.error error, after) => exact ⟨after.ready, rfl⟩
      | (.ok effective, after) =>
          simp only
          cases verify effective with
          | error error => exact ⟨after.ready, rfl⟩
          | ok done => exact ⟨true, rfl⟩

theorem Sound.notifyInitialized {verify : Value → Except TransportError Unit}
    {write : Option TransportError} (h : t.Sound parse) :
    (t.notifyInitialized verify write fate).2.Sound parse := by
  rcases @notifyInitialized_cases t fate verify write with heq | ⟨hwrite, ready, heq⟩
  · rw [heq]
    exact h
  · have hraw := @requestRaw parse t fate "config/read" includeLayers h
    rw [heq]
    exact ⟨hraw.frames, hraw.answered, hraw.order, hraw.returned⟩

/-! ### What reading leaves -/

theorem Reading.sent (h : Reading t after) : after.log.sent = t.log.sent := by
  induction h with
  | refl => rfl
  | tail _ hreads ih =>
      cases hreads with
      | kept frame frames event after first has push =>
          rw [pushNotification_eq push]
          exact ih
      | _ => exact ih

theorem Reading.returned (h : Reading t after) : after.log.returned = t.log.returned := by
  induction h with
  | refl => rfl
  | tail _ hreads ih =>
      cases hreads with
      | kept frame frames event after first has push =>
          rw [pushNotification_eq push]
          exact ih
      | _ => exact ih

/-! ### When no event is lost -/

def eventOf : Incoming → Option Value
  | .ok frame => frame.event
  | .error _ => none

/-- The event frames among these. -/
def events (frames : List Incoming) : List Value := frames.filterMap eventOf

/-- An event that a wait for `id` keeps. -/
def passes (id : Nat) : Incoming → Bool
  | .ok frame => frame.event.isSome && frame.id ≠ some id
  | .error _ => false

/-- A frame that does not end a batch. -/
def fine : Incoming → Bool
  | .ok frame => frame.event.isSome || frame.id.isNone
  | .error _ => false

/-- The events fit into a queue of this many, with this many bytes. -/
def Fits (bytes count : Nat) : List Value → Prop
  | [] => True
  | event :: events =>
      event.bytes ≤ maxFrameBytes ∧ bytes + event.bytes ≤ maxNotificationBytes ∧
        count < maxPendingFrames ∧ Fits (bytes + event.bytes) (count + 1) events

/-- The events before the frame that ends a wait fit into the queue, and that frame is none. -/
structure Awaited (id turns : Nat) (t : Transport) : Prop where
  fits : Fits t.notificationBytes t.notifications.length
    (events ((t.frames.take turns).takeWhile (passes id)))
  response : ∀ frame, ((t.frames.take turns).dropWhile (passes id)).head? = some (.ok frame) →
    frame.event = none

/-- The events of a batch fit into the queue, and can be read if nothing ends it before. -/
structure Drained (t : Transport) : Prop where
  fits : Fits t.notificationBytes t.notifications.length (events (t.frames.takeWhile fine))
  readable : t.frames.all fine = true → ∀ event ∈ t.notifications ++ events t.frames,
    ∃ read, ServerEvent.fromJson event = .ok read

/-- Each event that was read was delivered, or is in the queue. -/
def Whole (t : Transport) : Prop := t.log.received = t.log.delivered ++ t.notifications

theorem pushNotification_fits (hbytes : event.bytes ≤ maxFrameBytes)
    (htotal : t.notificationBytes + event.bytes ≤ maxNotificationBytes)
    (hcount : t.notifications.length < maxPendingFrames) :
    t.pushNotification event = .ok { t with
      notificationBytes := t.notificationBytes + event.bytes
      notifications := t.notifications ++ [event] } := by
  rw [pushNotification, if_neg]
  simp only [Bool.or_eq_true, decide_eq_true_eq]
  omega

/-- A frame that is no event leaves what was read. -/
theorem Whole.read_other (h : t.Whole) (hevent : frame.event = none) (frames : List Incoming) :
    (t.read frame frames).Whole := by
  show t.log.received ++ frame.event.toList = t.log.delivered ++ t.notifications
  rw [hevent, h]
  exact List.append_nil _

theorem Whole.read_event (h : t.Whole) (hevent : frame.event = some event)
    (frames : List Incoming) (bytes : Nat) :
    Whole { t.read frame frames with
      notificationBytes := bytes
      notifications := t.notifications ++ [event] } := by
  show t.log.received ++ frame.event.toList = t.log.delivered ++ (t.notifications ++ [event])
  rw [hevent, h, List.append_assoc]
  rfl

theorem Whole.waitingResponse (h : t.Whole) (hwait : t.Awaited id turns) :
    (t.waitingResponse id closed turns).2.Whole := by
  induction turns generalizing t with
  | zero => exact h
  | succ turns ih =>
      rw [Transport.waitingResponse]
      have hfits := hwait.fits
      have hresponse := hwait.response
      match hframes : t.frames with
      | [] => cases closed <;> exact h
      | .error error :: frames => exact h
      | .ok frame :: frames =>
          rw [hframes, List.take_succ_cons] at hfits hresponse
          simp only
          by_cases hid : frame.id = some id
          · -- the frame that ends the wait
            have hends : passes id (.ok frame) = false := by simp [passes, hid]
            rw [List.dropWhile_cons, hends] at hresponse
            have hread := h.read_other (hresponse frame rfl) frames
            rw [if_pos hid]
            match frame.error, frame.result with
            | some error, _ => exact hread
            | none, some result => exact hread
            | none, none => exact hread
          · rw [if_neg hid]
            match hevent : frame.event with
            | none => exact h.read_other hevent frames
            | some event =>
                have hpasses : passes id (.ok frame) = true := by simp [passes, hid, hevent]
                rw [List.takeWhile_cons, if_pos hpasses, events, List.filterMap_cons] at hfits
                rw [List.dropWhile_cons, if_pos hpasses] at hresponse
                simp only [eventOf, hevent] at hfits
                obtain ⟨hbytes, htotal, hcount, hrest⟩ := hfits
                have hpush :=
                  @pushNotification_fits (t.read frame frames) event hbytes htotal hcount
                simp only [hpush]
                refine ih (h.read_event hevent frames _) ⟨?_, hresponse⟩
                rw [List.length_append]
                exact hrest

theorem Whole.drain (h : t.Whole) (hframes : t.frames = frames)
    (hfits : Fits t.notificationBytes t.notifications.length (events (frames.takeWhile fine))) :
    (t.drain frames).2.Whole ∧ ((t.drain frames).1 = .ok () →
      frames.all fine = true ∧ (t.drain frames).2.notifications =
        t.notifications ++ events frames) := by
  induction frames generalizing t with
  | nil => exact ⟨h, fun _ => ⟨rfl, (List.append_nil _).symm⟩⟩
  | cons first frames ih =>
      match first with
      | .error error => exact ⟨h, fun hok => by cases hok⟩
      | .ok frame =>
          rw [Transport.drain]
          match hevent : frame.event, hid : frame.id with
          | some event, _ =>
              have hfine : fine (.ok frame) = true := by simp [fine, hevent]
              rw [List.takeWhile_cons, if_pos hfine, events, List.filterMap_cons] at hfits
              simp only [eventOf, hevent] at hfits
              obtain ⟨hbytes, htotal, hcount, hrest⟩ := hfits
              have hpush := @pushNotification_fits (t.read frame frames) event hbytes htotal hcount
              simp only [takeNotification, hevent, hpush]
              obtain ⟨hwhole, hok⟩ := ih (h.read_event hevent frames _) rfl (by
                rw [List.length_append]
                exact hrest)
              refine ⟨hwhole, fun hdone => ?_⟩
              obtain ⟨hall, hnotifications⟩ := hok hdone
              refine ⟨by rw [List.all_cons, hfine, hall]; rfl, hnotifications.trans ?_⟩
              simp [events, eventOf, hevent]
          | none, some id =>
              simp only [takeNotification, hevent, hid]
              exact ⟨h.read_other hevent frames, fun hok => by cases hok⟩
          | none, none =>
              have hfine : fine (.ok frame) = true := by simp [fine, hid]
              rw [List.takeWhile_cons, if_pos hfine, events, List.filterMap_cons] at hfits
              simp only [eventOf, hevent] at hfits
              simp only [takeNotification, hevent, hid]
              obtain ⟨hwhole, hok⟩ := ih (h.read_other hevent frames) rfl hfits
              refine ⟨hwhole, fun hdone => ?_⟩
              obtain ⟨hall, hnotifications⟩ := hok hdone
              refine ⟨by rw [List.all_cons, hfine, hall]; rfl, hnotifications.trans ?_⟩
              simp [events, eventOf, hevent, Transport.read]

theorem Whole.requestRaw (h : t.Whole)
    (hwait : fate.write = none → t.Awaited t.nextId fate.turns) :
    (t.requestRaw fate method params).2.Whole := by
  rw [Transport.requestRaw]
  by_cases hlast : t.nextId + 1 = 2 ^ 64
  · simp only [if_pos hlast]
    exact h
  · by_cases hbytes : maxFrameBytes < (message t.nextId method params).bytes + 1
    · simp only [if_neg hlast, if_pos hbytes]
      exact h
    · simp only [if_neg hlast, if_neg hbytes]
      cases hwrite : fate.write with
      | some error => exact h
      | none =>
          obtain ⟨hfits, hresponse⟩ := hwait hwrite
          exact Whole.waitingResponse (t := t.send method params) h ⟨hfits, hresponse⟩

theorem Whole.request (h : t.Whole)
    (hwait : fate.write = none → t.Awaited t.nextId fate.turns) :
    (t.request fate method params).2.Whole := by
  rw [Transport.request]
  split
  · exact h
  · have hraw := @requestRaw t fate method params h hwait
    match hresult : t.requestRaw fate method params with
    | (.error error, after) =>
        rw [hresult] at hraw
        exact hraw
    | (.ok result, after) =>
        rw [hresult] at hraw
        exact hraw

theorem readEvents_of_readable {pending : List Value}
    (h : ∀ event ∈ pending, ∃ read, ServerEvent.fromJson event = .ok read) :
    ∃ events, readEvents pending = .ok events := by
  induction pending with
  | nil => exact ⟨[], rfl⟩
  | cons value pending ih =>
      obtain ⟨read, hread⟩ := h value List.mem_cons_self
      obtain ⟨rest, hrest⟩ := ih fun event hevent => h event (List.mem_cons_of_mem _ hevent)
      exact ⟨read :: rest, by rw [readEvents, hread, hrest]; rfl⟩

theorem Whole.takeNotifications (h : t.Whole) (hdrained : t.Drained) :
    t.takeNotifications.2.Whole := by
  obtain ⟨hwhole, hok⟩ := h.drain rfl hdrained.fits
  rcases @takeNotifications_cases t with ⟨error, heq⟩ | ⟨error, -, hdone, message, hunread⟩ |
    ⟨events, -, -, heq⟩
  · rw [heq]
    exact hwhole
  · obtain ⟨hall, hnotifications⟩ := hok hdone
    obtain ⟨events, hevents⟩ := readEvents_of_readable (hdrained.readable hall)
    rw [hnotifications, hevents] at hunread
    cases hunread
  · rw [heq]
    show _ = _ ++ []
    rw [List.append_nil]
    exact hwhole

theorem Whole.notifyInitialized {verify : Value → Except TransportError Unit}
    {write : Option TransportError} (h : t.Whole)
    (hwait : write = none → fate.write = none → t.Awaited t.nextId fate.turns) :
    (t.notifyInitialized verify write fate).2.Whole := by
  rcases @notifyInitialized_cases t fate verify write with heq | ⟨hwrite, ready, heq⟩
  · rw [heq]
    exact h
  · rw [heq]
    exact @requestRaw t fate "config/read" includeLayers h (hwait hwrite)

end Steps

end Transport

end Pikamux.AssistantTransport
