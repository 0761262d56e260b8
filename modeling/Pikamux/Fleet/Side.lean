import Pikamux.Channel.Operation
import Pikamux.Fleet.Transport
import Pikamux.Terminal.Frame

/-!
# Fleet — Side

A consultation of a conversation on another machine.  A reader puts the peer's frames into a queue
as they come; `ask` hands a question over and reads until it has an answer, and `close` reads until
the cleanup is confirmed.  Frames may come at any time.

* `read_spec` — what reading does to the connection, and what it passes on.
* `Live` — a connection that may take a question has answered all of them.
* `consultation_turns` — in a run: an answer is to the question it is returned for, as long as no
  answer is waiting when a question is handed over; what is previewed belongs to the open turn; a
  turn that failed is the last one; and a confirmed cleanup was confirmed by the peer.
-/

namespace Pikamux.Fleet.Side

open Support Json Channel

structure ConsultationReceipt where
  stage : Option String
  delivery : Option String
  cleanup : Option String
  answersReceived : Option Nat
  turn : Option Nat
  retrySafe : Option Bool
  deriving DecidableEq, Repr

structure SideError where
  kind : FleetErrorKind
  message : String
  receipt : Option ConsultationReceipt := none
  deriving DecidableEq, Repr

def maxQuestionBytes : Nat := 64 * 1024

def maxStreamBytes : Nat := 1024 * 1024

/-! ### Frames -/

/-- `sanitize_terminal_text`, within an escape sequence or outside of one. -/
def sanitizeFrom : Bool → List Char → List Char
  | _, [] => []
  | true, c :: text => sanitizeFrom (c < '@' || '~' < c) text
  | false, '\x1b' :: '[' :: text => sanitizeFrom true text
  | false, c :: text =>
      if c = '\x1b' then sanitizeFrom false text
      else if c = '\n' ∨ c = '\r' then ' ' :: sanitizeFrom false text
      else if c = '\t' ∨ ¬ Terminal.isControl c then c :: sanitizeFrom false text
      else sanitizeFrom false text

def sanitizeTerminalText (text : String) : String := String.ofList (sanitizeFrom false text.toList)

def newError (kind : FleetErrorKind) (message : String) : SideError :=
  ⟨kind, sanitizeTerminalText message, none⟩

def field (fields : List (String × Value)) (key : String) : Option String :=
  (fields.lookup key).bind Value.asStr

def requiredText (value : Option Value) (message : String) (max : Nat) : Except SideError String :=
  match value with
  | some (.string text) =>
      if text ≠ "" ∧ text.length ≤ max then .ok (sanitizeTerminalText text)
      else .error (newError .incompatible message)
  | _ => .error (newError .incompatible message)

def parseErrorKind (kind : Option String) : FleetErrorKind :=
  if kind = some "invalid_request" then .invalidRequest
  else if kind = some "incompatible" then .incompatible
  else if kind = some "quarantined" then .quarantined
  else if kind = some "unreachable" then .unreachable
  else if kind = some "auth" then .authentication
  else if kind = some "missing" then .missing
  else if kind = some "not_found" then .notFound
  else if kind = some "outcome_unknown" then .outcomeUnknown
  else .error

def validProgress (fields : List (String × Value)) : Bool :=
  (field fields "stage").any (fun s => ["prepare", "turn", "response", "cleanup"].contains s) &&
    (field fields "delivery").any fun s => ["not_sent", "unknown", "confirmed"].contains s

structure AnswerDelta where
  turn : Nat
  itemId : String
  text : String
  deriving DecidableEq, Repr

/-- A delta as `serde` reads one, by its fields or in their order. -/
def answerDelta (value : Value) : Option AnswerDelta :=
  match value with
  | .object fields => do
      let turn ← (fields.lookup "turn").bind Value.asU64
      return ⟨turn, ← field fields "item_id", ← field fields "text"⟩
  | .array [turn, itemId, text] => do return ⟨← turn.asU64, ← itemId.asStr, ← text.asStr⟩
  | _ => none

def AnswerDelta.valid (delta : AnswerDelta) (turn : Nat) : Bool :=
  delta.turn == turn && delta.itemId ≠ "" && delta.itemId.utf8ByteSize ≤ 256 && delta.text ≠ "" &&
    delta.text.utf8ByteSize ≤ maxStreamBytes

/-- `with_receipt` -/
def withReceipt (error : SideError) (fields : List (String × Value)) : SideError :=
  { error with receipt := some {
      stage := field fields "stage"
      delivery := field fields "delivery"
      cleanup := field fields "cleanup"
      answersReceived := (fields.lookup "answers_received").bind Value.asU64
      turn := (fields.lookup "turn").bind Value.asU64
      retrySafe := (fields.lookup "retry_safe").bind Value.asBool } }

/-! ### The connection -/

/-- What the reader puts into the queue, with the number of questions that had been handed over when
it came. -/
structure Arrived where
  incoming : Except SideError Value
  after : Nat

/-- `RemoteConsultation`: whether it still has its input, and the queue it reads from. -/
structure RemoteConsultation where
  sshTarget : String
  streamOutput : Bool
  observed : Bool
  opened : Bool := true
  input : Bool := true
  events : Option (List Arrived)
  cleanupConfirmed : Bool := false
  transportAborted : Bool := false
  answersReceived : Nat := 0
  turn : Nat := 0
  streamedBytes : Nat := 0
  /-- How many questions were handed over. -/
  handed : Nat := 0

namespace RemoteConsultation

variable (side : RemoteConsultation)

def shutdownTransport : RemoteConsultation := { side with input := false, events := none }

def abort : RemoteConsultation := { side with transportAborted := true }.shutdownTransport

def closedReceipt : ConsultationReceipt :=
  ⟨some "cleanup", none, some "complete", some side.answersReceived, some side.turn, some false⟩

def cleanupUnknown (message : String) : SideError where
  kind := .outcomeUnknown
  message := message ++ " Inspect the consultation on " ++ side.sshTarget ++ "."
  receipt := some
    ⟨some "cleanup", none, some "unknown", some side.answersReceived, some side.turn, some false⟩

/-- A frame comes, or what cannot be read as one. -/
def arrive (incoming : Except SideError Value) : RemoteConsultation :=
  { side with events := side.events.map (· ++ [⟨incoming, side.handed⟩]) }

end RemoteConsultation

/-- What happens while a call reads. -/
inductive Tick where
  | arrive (incoming : Except SideError Value)
  | receive
  | cancel
  | timeout
  | disconnect (detail : String)

/-- What is made of one frame. -/
inductive Heeded where
  | failed (error : SideError) (side : RemoteConsultation) (deltas : List AnswerDelta)
  | passed (side : RemoteConsultation) (deltas : List AnswerDelta)
  | event

section Read

-- whether the observer goes on after a delta
variable (consumes : AnswerDelta → Bool)

/-- The delta of a frame, if it belongs to the open turn and has room. -/
def deltaOf (side : RemoteConsultation) (fields : List (String × Value)) : Option AnswerDelta :=
  (answerDelta ((fields.lookup "output").getD .null)).filter fun delta =>
    side.streamOutput && side.opened && side.input && side.turn > side.answersReceived &&
      field fields "stage" == some "turn" && field fields "delivery" == some "confirmed" &&
      (fields.lookup "partial").bind Value.asBool == some true &&
      (fields.lookup "turn").bind Value.asU64 == some side.turn && delta.valid side.turn &&
      side.streamedBytes + delta.text.utf8ByteSize ≤ maxStreamBytes

def heed (side : RemoteConsultation) (value : Value) : Heeded :=
  match value.asObject with
  | none =>
      .failed (newError .incompatible "Remote side channel event is not an object") side []
  | some fields =>
      if field fields "type" = some "progress" ∨ field fields "type" = some "answer_delta" then
        if ¬ validProgress fields then
          .failed (newError .incompatible "Remote side channel returned invalid progress") side []
        else if field fields "type" = some "progress" then .passed side []
        else
          match deltaOf side fields with
          | none => .failed (newError .incompatible
              "Invalid or oversized consultation preview; do not resend automatically") side []
          | some delta =>
              let side :=
                { side with streamedBytes := side.streamedBytes + delta.text.utf8ByteSize }
              if ¬ side.observed then .passed side []
              else if consumes delta then .passed side [delta]
              else .failed (newError .outcomeUnknown
                "Consultation output consumer closed; partial answer is not complete") side [delta]
      else if field fields "type" = some "error" then
        .failed (withReceipt (newError (parseErrorKind (field fields "kind"))
          ((field fields "message").getD "remote consultation failed")) fields) side []
      else .event

/-- What a call has read: a frame with the time it came, or an error; the deltas that were passed
on, the frames that were taken from the queue, and what is still to happen. -/
structure Reading where
  outcome : Except SideError (Value × Nat)
  side : RemoteConsultation
  ticks : List Tick
  deltas : List AnswerDelta := []
  frames : List Value := []

def closedError : SideError := newError .unreachable "Remote side channel closed"

def timedOut : SideError := newError .unreachable "Remote side channel timed out"

def cancelledText : String := "Remote side connection cancelled; its owned child was terminated " ++
  "locally but remote cleanup could not be confirmed."

/-- `read_nonprogress`.  When nothing more happens the time runs out. -/
def readNonprogress : List Tick → RemoteConsultation → Reading
  | [], side => ⟨.error timedOut, side.abort, [], [], []⟩
  | .timeout :: ticks, side => ⟨.error timedOut, side.abort, ticks, [], []⟩
  | .cancel :: ticks, side =>
      ⟨.error (side.cleanupUnknown cancelledText), side.abort, ticks, [], []⟩
  | .arrive incoming :: ticks, side => readNonprogress ticks (side.arrive incoming)
  | .disconnect detail :: ticks, side =>
      match side.events with
      | none => ⟨.error closedError, side, ticks, [], []⟩
      | some [] =>
          let text := sanitizeTerminalText detail
          ⟨.error (if detail.toList.all isWhitespace then closedError else
            newError .unreachable (String.ofList (text.toList.drop (text.length - 500)))),
            side.abort, ticks, [], []⟩
      | some (_ :: _) => readNonprogress ticks side
  | .receive :: ticks, side =>
      match side.events with
      | none => ⟨.error closedError, side, ticks, [], []⟩
      | some [] => readNonprogress ticks side
      | some (arrived :: queue) =>
          let side := { side with events := some queue }
          match arrived.incoming with
          | .error error => ⟨.error error, side.abort, ticks, [], []⟩
          | .ok value =>
              match heed consumes side value with
              | .failed error side deltas => ⟨.error error, side.abort, ticks, deltas, [value]⟩
              | .event => ⟨.ok (value, arrived.after), side, ticks, [], [value]⟩
              | .passed side deltas =>
                  let reading := readNonprogress ticks side
                  { reading with
                    deltas := deltas ++ reading.deltas
                    frames := value :: reading.frames }

/-! ### Calls -/

/-- What happens during a call: whether what it hands over is written, what happens while it reads,
and whether the transport is gone in the end. -/
structure Weather where
  written : Except SideError Unit := .ok ()
  ticks : List Tick
  consumes : AnswerDelta → Bool := fun _ => true
  reaped : Except String Unit := .ok ()

inductive Reply where
  | none
  | asked (answer : Except SideError String) (came : Nat)
  | closed (receipt : Except SideError ConsultationReceipt)
  | cancelled (error : SideError)

/-- The result of a call, with what it passed on and took from the queue on the way. -/
structure Result where
  reply : Reply
  handed : Bool := false
  deltas : List AnswerDelta := []
  frames : List Value := []

def questionLine (question : String) : Nat :=
  (Value.object [("question", .string question)]).toText.utf8ByteSize + 1

def refused (kind : FleetErrorKind) (message : String) : Result :=
  { reply := .asked (.error (newError kind message)) 0 }

/-- An answer, if the frame is one. -/
def answerOf (value : Value) : Except SideError String :=
  match value.asObject with
  | none => .error (newError .incompatible "Remote side channel event is not an object")
  | some fields =>
      if field fields "type" ≠ some "answer" then
        .error (newError .incompatible "Remote side channel returned an invalid answer")
      else
        requiredText (fields.lookup "text") "Remote side channel returned an invalid answer"
          maxMessageBytes

/-- What `ask` makes of what it has read. -/
def settle (reading : Reading) : Result × RemoteConsultation :=
  match reading.outcome with
  | .error error =>
      ({ reply := .asked (.error error) 0, handed := true, deltas := reading.deltas,
          frames := reading.frames }, reading.side)
  | .ok (value, came) =>
      match answerOf value with
      | .error error =>
          ({ reply := .asked (.error error) 0, handed := true, deltas := reading.deltas,
              frames := reading.frames }, reading.side.abort)
      | .ok text =>
          ({ reply := .asked (.ok text) came, handed := true, deltas := reading.deltas,
              frames := reading.frames },
            { reading.side with answersReceived := reading.side.answersReceived + 1 })

def ask (question : String) (w : Weather) (side : RemoteConsultation) :
    Result × RemoteConsultation :=
  if question.toList.all isWhitespace then
    (refused .invalidRequest "Question cannot be empty", side)
  else if maxQuestionBytes < question.utf8ByteSize then
    (refused .invalidRequest "Consultation question exceeded the 64 KiB safety limit", side)
  else if side.cleanupConfirmed || side.transportAborted then
    (refused .error "Remote side channel is closed", side)
  else
    let side := { side with turn := side.turn + 1, streamedBytes := 0 }
    if maxMessageBytes < questionLine question then
      (refused .invalidRequest "Consultation question exceeded the safety limit", side)
    else if ¬ side.input then (refused .error "Remote side channel is closed", side)
    else
      let side := { side with handed := side.handed + 1 }
      match w.written with
      | .error error =>
          ({ reply := .asked (.error (newError .outcomeUnknown
              ("Remote turn delivery is unknown: " ++ error.message))) 0, handed := true },
            side.abort)
      | .ok () => settle (readNonprogress w.consumes w.ticks side)

def isClosed (fields : List (String × Value)) : Bool := field fields "type" == some "closed"

/-- A frame that confirms the cleanup. -/
def complete (fields : List (String × Value)) : Bool :=
  (fields.lookup "receipt_version").bind Value.asU64 == some 2 &&
    (fields.lookup "discarded").bind Value.asBool == some true &&
    field fields "cleanup" == some "complete"

def unverified (side : RemoteConsultation) (fields : List (String × Value)) : SideError where
  kind := .outcomeUnknown
  message := "Remote side cleanup was not verified. Keep any received answer; do not resend it."
  receipt := some { side.closedReceipt with
    cleanup := some (if field fields "cleanup" = some "failed" then "failed" else "unknown") }

/-- The loop of `close`, that reads on after an error of the cleanup. -/
def awaitClosed (w : Weather) : Nat → List Tick → RemoteConsultation → Result × RemoteConsultation
  | 0, _, side =>
      ({ reply := .closed (.error (side.cleanupUnknown "Remote cleanup timed out")) }, side.abort)
  | n + 1, ticks, side =>
      let reading := readNonprogress w.consumes ticks side
      let result : Result := { reply := .none, deltas := reading.deltas, frames := reading.frames }
      match reading.outcome with
      | .error error =>
          if error.receipt.bind (·.stage) = some "cleanup" then
            let rest := awaitClosed w n reading.ticks reading.side
            ({ rest.1 with
                deltas := reading.deltas ++ rest.1.deltas
                frames := reading.frames ++ rest.1.frames }, rest.2)
          else
            ({ result with reply := .closed (.error
                (reading.side.cleanupUnknown "Remote cleanup could not be confirmed")) },
              reading.side.abort)
      | .ok (value, _) =>
          match value.asObject.filter isClosed with
          | none =>
              ({ result with reply := .closed (.error
                  (reading.side.cleanupUnknown "Remote cleanup returned an unexpected event")) },
                reading.side.abort)
          | some fields =>
              if ¬ complete fields then
                ({ result with reply := .closed (.error (unverified reading.side fields)) },
                  reading.side.abort)
              else
                match w.reaped with
                | .error error =>
                    ({ result with reply := .closed (.error (newError .unreachable
                        ("Remote cleanup completed but the local SSH transport could not be " ++
                          "reaped: " ++ error))) },
                      reading.side.shutdownTransport)
                | .ok () =>
                    let side :=
                      { reading.side.shutdownTransport with cleanupConfirmed := true }
                    ({ result with reply := .closed (.ok side.closedReceipt) }, side)

def close (w : Weather) (side : RemoteConsultation) : Result × RemoteConsultation :=
  if side.cleanupConfirmed then ({ reply := .closed (.ok side.closedReceipt) }, side)
  else if side.transportAborted then
    ({ reply := .closed (.error
        (side.cleanupUnknown "Remote cleanup is unconfirmed after the connection closed")) }, side)
  else
    let asked := side.input
    let side := { side with input := false }
    match asked, w.written with
    | true, .error _ =>
        ({ reply := .closed (.error
            (side.cleanupUnknown "Remote cleanup could not be requested")) }, side.abort)
    | _, _ => awaitClosed w (w.ticks.length + 1) w.ticks side

def cancel (side : RemoteConsultation) : Result × RemoteConsultation :=
  ({ reply := .cancelled (side.cleanupUnknown ("Remote side connection cancelled; cleanup is " ++
      "unconfirmed. Do not resend the question.")) }, side.abort)

inductive Call where
  | ask (question : String) (w : Weather)
  | close (w : Weather)
  | cancel
  | arrive (incoming : Except SideError Value)

def perform (c : Call) (side : RemoteConsultation) : Result × RemoteConsultation :=
  match c with
  | .ask question w => ask question w side
  | .close w => close w side
  | .cancel => cancel side
  | .arrive incoming => ({ reply := .none }, side.arrive incoming)

end Read

/-! ### Reading -/

section Reading

variable {consumes : AnswerDelta → Bool} {side side' : RemoteConsultation} {value : Value}
  {deltas : List AnswerDelta} {ticks : List Tick}

/-- How many bytes of text were passed on. -/
def textBytes (deltas : List AnswerDelta) : Nat :=
  (deltas.map fun delta => delta.text.utf8ByteSize).sum

theorem textBytes_append (a b : List AnswerDelta) :
    textBytes (a ++ b) = textBytes a + textBytes b := by
  simp [textBytes]

/-- Only the bytes of the previews were counted. -/
structure Counted (side side' : RemoteConsultation) : Prop where
  turn : side'.turn = side.turn
  answers : side'.answersReceived = side.answersReceived
  handed : side'.handed = side.handed
  confirmed : side'.cleanupConfirmed = side.cleanupConfirmed
  streamed : side.streamedBytes ≤ maxStreamBytes → side'.streamedBytes ≤ maxStreamBytes

/-- And nothing was taken from the connection. -/
structure Same (side side' : RemoteConsultation) : Prop extends Counted side side' where
  input : side'.input = side.input
  events : side'.events = side.events
  aborted : side'.transportAborted = side.transportAborted

/-- Deltas that belong to the open turn, and were counted. -/
structure Previews (side side' : RemoteConsultation) (deltas : List AnswerDelta) : Prop where
  turn : ∀ delta ∈ deltas, delta.turn = side.turn
  unanswered : deltas ≠ [] → side.answersReceived < side.turn ∧ side.input = true
  bytes : side.streamedBytes + textBytes deltas ≤ side'.streamedBytes

theorem Counted.refl (side : RemoteConsultation) : Counted side side := ⟨rfl, rfl, rfl, rfl, id⟩

theorem Counted.trans {side'' : RemoteConsultation} (h : Counted side side')
    (h' : Counted side' side'') : Counted side side'' :=
  ⟨h'.turn.trans h.turn, h'.answers.trans h.answers, h'.handed.trans h.handed,
    h'.confirmed.trans h.confirmed, fun hle => h'.streamed (h.streamed hle)⟩

theorem Previews.nil (h : side.streamedBytes = side'.streamedBytes) : Previews side side' [] :=
  ⟨by simp, by simp, by simp [textBytes, h]⟩

theorem deltaOf_spec {fields : List (String × Value)} {delta : AnswerDelta}
    (h : deltaOf side fields = some delta) :
    delta.turn = side.turn ∧ side.answersReceived < side.turn ∧ side.input = true ∧
      side.streamedBytes + delta.text.utf8ByteSize ≤ maxStreamBytes := by
  obtain ⟨-, hkept⟩ := Option.filter_eq_some_iff.mp h
  simp only [Bool.and_eq_true, decide_eq_true_eq, AnswerDelta.valid, beq_iff_eq] at hkept
  obtain ⟨⟨⟨⟨⟨⟨⟨⟨⟨-, -⟩, hinput⟩, hopen⟩, -⟩, -⟩, -⟩, -⟩, hvalid⟩, hroom⟩ := hkept
  exact ⟨hvalid.1.1.1.1, hopen, hinput, hroom⟩

/-- What one frame does to the connection. -/
inductive HeedStep (side : RemoteConsultation) : Heeded → Prop where
  | failed {error : SideError} {side' : RemoteConsultation} {deltas : List AnswerDelta}
      (same : Same side side') (previews : Previews side side' deltas) :
      HeedStep side (.failed error side' deltas)
  | passed {side' : RemoteConsultation} {deltas : List AnswerDelta} (same : Same side side')
      (previews : Previews side side' deltas) : HeedStep side (.passed side' deltas)
  | event : HeedStep side .event

theorem heed_step (consumes : AnswerDelta → Bool) (side : RemoteConsultation) (value : Value) :
    HeedStep side (heed consumes side value) := by
  have hself : Same side side := ⟨.refl side, rfl, rfl, rfl⟩
  rw [heed]
  cases value.asObject with
  | none => exact .failed hself (.nil rfl)
  | some fields =>
      simp only
      by_cases hprogress : field fields "type" = some "progress" ∨
          field fields "type" = some "answer_delta"
      · rw [if_pos hprogress]
        by_cases hvalid : ¬ validProgress fields
        · rw [if_pos hvalid]
          exact .failed hself (.nil rfl)
        rw [if_neg hvalid]
        by_cases hplain : field fields "type" = some "progress"
        · rw [if_pos hplain]
          exact .passed hself (.nil rfl)
        rw [if_neg hplain]
        cases hdelta : deltaOf side fields with
        | none => exact .failed hself (.nil rfl)
        | some delta =>
            obtain ⟨hturn, hopen, hinput, hroom⟩ := deltaOf_spec hdelta
            have hcounted : Same side { side with
                streamedBytes := side.streamedBytes + delta.text.utf8ByteSize } :=
              ⟨⟨rfl, rfl, rfl, rfl, fun _ => hroom⟩, rfl, rfl, rfl⟩
            have hpreview : Previews side { side with
                streamedBytes := side.streamedBytes + delta.text.utf8ByteSize } [delta] :=
              ⟨by simpa using hturn, fun _ => ⟨hopen, hinput⟩, by simp [textBytes]⟩
            have hnone : Previews side { side with
                streamedBytes := side.streamedBytes + delta.text.utf8ByteSize } [] :=
              ⟨by simp, by simp, by simp [textBytes]⟩
            simp only
            by_cases hobserved : ¬ side.observed
            · rw [if_pos hobserved]
              exact .passed hcounted hnone
            rw [if_neg hobserved]
            by_cases hconsumes : consumes delta = true
            · rw [if_pos hconsumes]
              exact .passed hcounted hpreview
            · rw [if_neg hconsumes]
              exact .failed hcounted hpreview
      · rw [if_neg hprogress]
        by_cases herror : field fields "type" = some "error"
        · rw [if_pos herror]
          exact .failed hself (.nil rfl)
        · rw [if_neg herror]
          exact .event

/-- What reading does. -/
structure ReadSpec (side : RemoteConsultation) (r : Reading) : Prop where
  counted : Counted side r.side
  previews : Previews side r.side r.deltas
  input : r.side.input = true → side.input = true
  failed : ∀ error, r.outcome = .error error → side.events.isSome → r.side.input = false
  read : ∀ value came, r.outcome = .ok (value, came) → r.side.input = side.input ∧
    r.side.transportAborted = side.transportAborted ∧ r.side.events.isSome ∧ value ∈ r.frames

theorem ReadSpec.gone {error : SideError} {rest : List Tick} {frames : List Value}
    (h : Counted side side') (hpreviews : Previews side side' deltas) :
    ReadSpec side ⟨.error error, side'.abort, rest, deltas, frames⟩ where
  counted := ⟨h.turn, h.answers, h.handed, h.confirmed, h.streamed⟩
  previews := ⟨hpreviews.turn, hpreviews.unanswered, hpreviews.bytes⟩
  input := nofun
  failed _ _ _ := rfl
  read := nofun

/-- The connection stays, but for its queue. -/
structure Stays (side side' : RemoteConsultation) : Prop extends Counted side side' where
  input : side'.input = side.input
  events : side.events.isSome → side'.events.isSome
  aborted : side'.transportAborted = side.transportAborted

/-- Reading goes on after one frame. -/
theorem ReadSpec.after {r : Reading} (frames : List Value) (hstays : Stays side side')
    (hpreviews : Previews side side' deltas) (h : ReadSpec side' r) :
    ReadSpec side { r with deltas := deltas ++ r.deltas, frames := frames ++ r.frames } where
  counted := hstays.toCounted.trans h.counted
  previews := by
    refine ⟨fun delta hdelta => ?_, fun hne => ?_, ?_⟩
    · rcases List.mem_append.mp hdelta with hdelta | hdelta
      · exact hpreviews.turn delta hdelta
      · rw [h.previews.turn delta hdelta, hstays.turn]
    · by_cases hfirst : deltas = []
      · subst hfirst
        obtain ⟨hopen, hinput⟩ := h.previews.unanswered (by simpa using hne)
        rw [hstays.answers, hstays.turn] at hopen
        rw [hstays.input] at hinput
        exact ⟨hopen, hinput⟩
      · exact hpreviews.unanswered hfirst
    · have hfirst := hpreviews.bytes
      have hrest := h.previews.bytes
      rw [textBytes_append]
      simp only
      omega
  input hinput := by
    rw [← hstays.input]
    exact h.input hinput
  failed error herror hevents := h.failed error herror (hstays.events hevents)
  read value came hread := by
    obtain ⟨hinput, haborted, hevents, hmem⟩ := h.read value came hread
    exact ⟨hinput.trans hstays.input, haborted.trans hstays.aborted, hevents,
      List.mem_append_right _ hmem⟩

theorem ReadSpec.closed (h : side.events = none) (rest : List Tick) :
    ReadSpec side ⟨.error closedError, side, rest, [], []⟩ where
  counted := .refl side
  previews := .nil rfl
  input := id
  failed _ _ hevents := by
    rw [h] at hevents
    cases hevents
  read := nofun

theorem read_spec (consumes : AnswerDelta → Bool) (ticks : List Tick) (side : RemoteConsultation) :
    ReadSpec side (readNonprogress consumes ticks side) := by
  induction ticks generalizing side with
  | nil => exact .gone (.refl side) (.nil rfl)
  | cons tick ticks ih =>
      cases tick with
      | arrive incoming =>
          have hstays : Stays side (side.arrive incoming) :=
            ⟨⟨rfl, rfl, rfl, rfl, id⟩, rfl, by simp [RemoteConsultation.arrive], rfl⟩
          exact ReadSpec.after [] hstays (.nil rfl) (ih (side.arrive incoming))
      | timeout => exact .gone (.refl side) (.nil rfl)
      | cancel => exact .gone (.refl side) (.nil rfl)
      | disconnect detail =>
          rw [readNonprogress]
          cases hevents : side.events with
          | none => exact .closed hevents _
          | some queue =>
              cases queue with
              | nil => exact .gone (.refl side) (.nil rfl)
              | cons arrived queue => exact ih side
      | receive =>
          rw [readNonprogress]
          cases hevents : side.events with
          | none => exact .closed hevents _
          | some queue =>
              cases queue with
              | nil => exact ih side
              | cons arrived queue =>
                  obtain ⟨incoming, after⟩ := arrived
                  have hqueue : Counted side { side with events := some queue } :=
                    ⟨rfl, rfl, rfl, rfl, id⟩
                  simp only
                  cases incoming with
                  | error error => exact .gone hqueue (.nil rfl)
                  | ok value =>
                      have hheed := heed_step consumes { side with events := some queue } value
                      simp only
                      generalize heed consumes { side with events := some queue } value = heeded
                        at hheed
                      cases hheed with
                      | failed same previews =>
                          exact .gone (hqueue.trans same.toCounted) ⟨previews.turn,
                            previews.unanswered, previews.bytes⟩
                      | @passed side' deltas same previews =>
                          refine ReadSpec.after [value] ?_ ⟨previews.turn,
                            previews.unanswered, previews.bytes⟩ (ih side')
                          refine ⟨hqueue.trans same.toCounted, same.input, fun _ => ?_,
                            same.aborted⟩
                          rw [same.events]
                          rfl
                      | event =>
                          refine ⟨hqueue, .nil rfl, id, fun error h => ?_, fun value came h => ?_⟩
                          · cases h
                          · cases h
                            exact ⟨rfl, rfl, rfl, List.mem_singleton_self _⟩

end Reading

/-! ### Answers that wait -/

section Waiting

variable {consumes : AnswerDelta → Bool} {side : RemoteConsultation} {value : Value}
  {queue new : List Arrived} {came : Nat}

def isAnswer (value : Value) : Bool :=
  match answerOf value with
  | .ok _ => true
  | .error _ => false

/-- What waits in the queue would answer the open turn. -/
def answeredBy (consumes : AnswerDelta → Bool) : List Arrived → RemoteConsultation → Bool
  | [], _ => false
  | arrived :: queue, side =>
      match arrived.incoming with
      | .error _ => false
      | .ok value =>
          match heed consumes side value with
          | .failed _ _ _ => false
          | .event => isAnswer value
          | .passed side _ => answeredBy consumes queue side

/-- The same with another queue. -/
def Heeded.waiting (heeded : Heeded) (events : Option (List Arrived)) : Heeded :=
  match heeded with
  | .failed error side deltas => .failed error { side with events } deltas
  | .passed side deltas => .passed { side with events } deltas
  | .event => .event

/-- What is made of a frame does not depend on what comes after it. -/
theorem heed_waiting (consumes : AnswerDelta → Bool) (side : RemoteConsultation)
    (events : Option (List Arrived)) (value : Value) :
    heed consumes { side with events } value = (heed consumes side value).waiting events := by
  rw [heed, heed]
  cases value.asObject with
  | none => rfl
  | some fields =>
      have hdelta : deltaOf { side with events } fields = deltaOf side fields := rfl
      simp only [hdelta]
      cases deltaOf side fields with
      | none => split_ifs <;> rfl
      | some delta =>
          simp only
          split_ifs <;> rfl

theorem answeredBy_waiting (consumes : AnswerDelta → Bool) (queue : List Arrived)
    (side : RemoteConsultation) (events : Option (List Arrived)) :
    answeredBy consumes queue { side with events } = answeredBy consumes queue side := by
  induction queue generalizing side with
  | nil => rfl
  | cons arrived queue ih =>
      rw [answeredBy, answeredBy]
      cases arrived.incoming with
      | error error => rfl
      | ok value =>
          simp only [heed_waiting]
          cases heed consumes side value with
          | failed error side deltas => rfl
          | passed side deltas => exact ih side
          | event => rfl

/-- An answer that is read came since the question was handed over, unless one was waiting. -/
theorem read_fresh (ticks : List Tick) (hevents : side.events = some (queue ++ new))
    (hnew : ∀ a ∈ new, a.after = side.handed) (hqueue : answeredBy consumes queue side = false)
    (hread : (readNonprogress consumes ticks side).outcome = .ok (value, came))
    (hanswer : isAnswer value = true) : came = side.handed := by
  induction ticks generalizing side queue new with
  | nil => cases hread
  | cons tick ticks ih =>
      cases tick with
      | arrive incoming =>
          have hevents' : (side.arrive incoming).events =
              some (queue ++ (new ++ [⟨incoming, side.handed⟩])) := by
            simp [RemoteConsultation.arrive, hevents]
          have hnew' : ∀ a ∈ new ++ [⟨incoming, side.handed⟩],
              a.after = (side.arrive incoming).handed := by
            intro a ha
            rcases List.mem_append.mp ha with ha | ha
            · exact hnew a ha
            · rw [List.mem_singleton.mp ha]
              rfl
          have hqueue' : answeredBy consumes queue (side.arrive incoming) = false := by
            rw [RemoteConsultation.arrive, answeredBy_waiting, hqueue]
          have hcame := ih hevents' hnew' hqueue' hread
          exact hcame
      | timeout => cases hread
      | cancel => cases hread
      | disconnect detail =>
          rw [readNonprogress, hevents] at hread
          cases hall : queue ++ new with
          | nil =>
              rw [hall] at hread
              cases hread
          | cons arrived rest =>
              rw [hall] at hread
              exact ih hevents hnew hqueue hread
      | receive =>
          rw [readNonprogress, hevents] at hread
          cases queue with
          | nil =>
              cases new with
              | nil => exact ih hevents hnew hqueue hread
              | cons arrived new =>
                  -- nothing was waiting: the frame came since
                  obtain ⟨incoming, after⟩ := arrived
                  have hafter : after = side.handed := hnew _ List.mem_cons_self
                  simp only [List.nil_append] at hread
                  cases incoming with
                  | error error => cases hread
                  | ok frame =>
                      have hstep := heed_step consumes side frame
                      simp only [heed_waiting] at hread
                      generalize heed consumes side frame = heeded at hstep hread
                      cases hstep with
                      | failed same previews => cases hread
                      | event =>
                          cases hread
                          exact hafter
                      | @passed side' deltas same previews =>
                          have hnew' : ∀ a ∈ new, a.after = side'.handed := by
                            intro a ha
                            rw [same.handed]
                            exact hnew a (List.mem_cons_of_mem _ ha)
                          have hevents' : ({ side' with events := some new } :
                              RemoteConsultation).events = some ([] ++ new) := rfl
                          simp only [Heeded.waiting] at hread
                          have hcame := ih hevents' hnew' rfl hread
                          exact hcame.trans same.handed
          | cons arrived queue =>
              obtain ⟨incoming, after⟩ := arrived
              simp only [List.cons_append] at hread
              cases incoming with
              | error error => cases hread
              | ok frame =>
                  have hstep := heed_step consumes side frame
                  rw [answeredBy] at hqueue
                  simp only [heed_waiting] at hread hqueue
                  generalize heed consumes side frame = heeded at hstep hread hqueue
                  cases hstep with
                  | failed same previews => cases hread
                  | event =>
                      cases hread
                      rw [hanswer] at hqueue
                      cases hqueue
                  | @passed side' deltas same previews =>
                      have hnew' : ∀ a ∈ new, a.after = side'.handed := by
                        intro a ha
                        rw [same.handed]
                        exact hnew a ha
                      have hqueue' : answeredBy consumes queue
                          { side' with events := some (queue ++ new) } = false := by
                        rw [answeredBy_waiting]
                        exact hqueue
                      have hevents' : ({ side' with events := some (queue ++ new) } :
                          RemoteConsultation).events = some (queue ++ new) := rfl
                      simp only [Heeded.waiting] at hread
                      have hcame := ih hevents' hnew' hqueue' hread
                      exact hcame.trans same.handed

end Waiting

/-! ### Calls -/

section Calls

variable {question : String} {w : Weather} {side : RemoteConsultation}

/-- A connection that a question can be handed over to. -/
def Live (side : RemoteConsultation) : Prop :=
  side.input = true ∧ side.transportAborted = false ∧ side.cleanupConfirmed = false

/-- The connection that has taken another question. -/
def handedOver (side : RemoteConsultation) : RemoteConsultation :=
  { side with turn := side.turn + 1, streamedBytes := 0, handed := side.handed + 1 }

/-- An answer is waiting when a question is handed over. -/
def Waiting (w : Weather) (side : RemoteConsultation) : Prop :=
  ∃ queue, side.events = some queue ∧ answeredBy w.consumes queue (handedOver side) = true

/-- The frames confirm the cleanup. -/
def Confirms (frames : List Value) : Prop :=
  ∃ value ∈ frames, ∃ fields, value.asObject = some fields ∧ isClosed fields = true ∧
    complete fields = true

/-- A question of the size that is allowed fits into a line. -/
theorem questionLine_le (h : question.utf8ByteSize ≤ maxQuestionBytes) :
    questionLine question ≤ maxMessageBytes := by
  have hquoted := charsBytes_quoted_le question
  have hkey : charsBytes (quoted "question") = 10 := by decide +kernel
  have hvalue : (Value.string question).bytes = charsBytes (quoted question) := rfl
  rw [questionLine, Value.utf8ByteSize_toText, Value.bytes_object (List.cons_ne_nil _ _)]
  simp only [Value.fieldsBytes, Value.fieldBytes, List.map_cons, List.map_nil, List.sum_cons,
    List.sum_nil, hkey, hvalue]
  simp only [maxQuestionBytes] at h
  simp only [maxMessageBytes, maxRemoteSnapshotBytes]
  omega

/-- What `ask` does: it refuses, or hands the question over and loses the connection or has an
answer. -/
inductive AskStep (w : Weather) (side : RemoteConsultation) :
    Result × RemoteConsultation → Prop where
  | refused {kind : FleetErrorKind} {message : String} {side' : RemoteConsultation}
      (dead : side' = side ∨ side.input = false ∧ side'.input = false)
      (answers : side'.answersReceived = side.answersReceived) (handed : side'.handed = side.handed)
      (confirmed : side'.cleanupConfirmed = side.cleanupConfirmed)
      (events : side'.events = side.events) : AskStep w side (refused kind message, side')
  | lost {error : SideError} {deltas : List AnswerDelta} {frames : List Value}
      {side' : RemoteConsultation} (live : Live side) (lost : side'.input = false)
      (answers : side'.answersReceived = side.answersReceived)
      (confirmed : side'.cleanupConfirmed = false)
      (turn : ∀ delta ∈ deltas, delta.turn = side.turn + 1)
      (bytes : textBytes deltas ≤ maxStreamBytes) :
      AskStep w side ({ reply := .asked (.error error) 0, handed := true, deltas, frames }, side')
  | answered {text : String} {came : Nat} {deltas : List AnswerDelta} {frames : List Value}
      {side' : RemoteConsultation} (live : Live side) (live' : Live side')
      (events : side'.events.isSome) (answers : side'.answersReceived = side.answersReceived + 1)
      (handed : side'.handed = side.handed + 1) (opened : side'.turn = side.turn + 1)
      (frame : ∃ value ∈ frames, answerOf value = .ok text)
      (fresh : ¬ Waiting w side → came = side.handed + 1)
      (turn : ∀ delta ∈ deltas, delta.turn = side.turn + 1)
      (bytes : textBytes deltas ≤ maxStreamBytes) :
      AskStep w side ({ reply := .asked (.ok text) came, handed := true, deltas, frames }, side')

theorem settle_step {reading : Reading} (live : Live side) (hevents : side.events.isSome)
    (hspec : ReadSpec (handedOver side) reading)
    (hfresh : ∀ value came, reading.outcome = .ok (value, came) → isAnswer value = true →
      ¬ Waiting w side → came = side.handed + 1) : AskStep w side (settle reading) := by
  have hbytes : textBytes reading.deltas ≤ maxStreamBytes := by
    have hall := hspec.previews.bytes
    have hmax := hspec.counted.streamed (Nat.zero_le _)
    omega
  have hconfirmed : reading.side.cleanupConfirmed = false := hspec.counted.confirmed.trans live.2.2
  rw [settle]
  cases hread : reading.outcome with
  | error error =>
      exact .lost live (hspec.failed error hread hevents) hspec.counted.answers hconfirmed
        hspec.previews.turn hbytes
  | ok found =>
      obtain ⟨value, came⟩ := found
      obtain ⟨hinput, haborted, hsome, hmem⟩ := hspec.read value came hread
      simp only
      cases hanswer : answerOf value with
      | error error =>
          exact .lost live rfl hspec.counted.answers hconfirmed hspec.previews.turn hbytes
      | ok text =>
          have hfresh' := hfresh value came hread (by rw [isAnswer, hanswer])
          exact .answered live ⟨hinput.trans live.1, haborted.trans live.2.1, hconfirmed⟩ hsome
            (congrArg (· + 1) hspec.counted.answers) hspec.counted.handed hspec.counted.turn
            ⟨value, hmem, hanswer⟩ hfresh' hspec.previews.turn hbytes

theorem ask_step (question : String) (w : Weather)
    (hevents : side.input = true → side.events.isSome) : AskStep w side (ask question w side) := by
  rw [ask]
  by_cases hempty : question.toList.all isWhitespace = true
  · rw [if_pos hempty]
    exact .refused (.inl rfl) rfl rfl rfl rfl
  rw [if_neg hempty]
  by_cases hlong : maxQuestionBytes < question.utf8ByteSize
  · rw [if_pos hlong]
    exact .refused (.inl rfl) rfl rfl rfl rfl
  rw [if_neg hlong]
  by_cases hclosed : (side.cleanupConfirmed || side.transportAborted) = true
  · rw [if_pos hclosed]
    exact .refused (.inl rfl) rfl rfl rfl rfl
  rw [if_neg hclosed]
  have hline : ¬ maxMessageBytes < questionLine question :=
    Nat.not_lt.mpr (questionLine_le (Nat.not_lt.mp hlong))
  simp only [if_neg hline]
  by_cases hinput : side.input = true
  · rw [if_neg (not_not.mpr hinput)]
    simp only [Bool.or_eq_true, not_or, Bool.not_eq_true] at hclosed
    have hlive : Live side := ⟨hinput, hclosed.2, hclosed.1⟩
    cases w.written with
    | error error => exact .lost hlive rfl rfl hclosed.1 (by simp) (by simp [textBytes])
    | ok _ =>
        have hspec := read_spec w.consumes w.ticks (handedOver side)
        refine settle_step hlive (hevents hinput) hspec ?_
        intro value came hread hanswer hwaiting
        obtain ⟨queue, hqueue⟩ := Option.isSome_iff_exists.mp (hevents hinput)
        have hwhole : (handedOver side).events = some (queue ++ []) := by
          rw [List.append_nil]
          exact hqueue
        have hnone : answeredBy w.consumes queue (handedOver side) = false := by
          by_contra hanswered
          exact hwaiting ⟨queue, hqueue, by simpa using hanswered⟩
        exact read_fresh w.ticks hwhole (by simp) hnone hread hanswer
  · rw [if_pos hinput]
    have hnone : side.input = false := by simpa using hinput
    exact .refused (.inr ⟨hnone, hnone⟩) rfl rfl rfl rfl

/-- What `close` does: it passes nothing on, takes the input, and is confirmed by a frame. -/
structure CloseStep (side : RemoteConsultation) (r : Result × RemoteConsultation) : Prop where
  handed : r.1.handed = false
  deltas : r.1.deltas = []
  asked : ∀ answer came, r.1.reply ≠ .asked answer came
  answers : r.2.answersReceived = side.answersReceived
  questions : r.2.handed = side.handed
  dead : ¬ Live r.2
  input : r.2.input = true → side.input = true ∧ r.2.events = side.events
  confirmed : r.2.cleanupConfirmed = true →
    side.cleanupConfirmed = true ∨ Confirms r.1.frames
  closed : ∀ receipt, r.1.reply = .closed (.ok receipt) → r.2.cleanupConfirmed = true

theorem closed_ne_asked {receipt : Except SideError ConsultationReceipt}
    {answer : Except SideError String} {came : Nat} :
    Reply.closed receipt ≠ .asked answer came := by
  intro h
  cases h

theorem not_live_of_input (h : side.input = false) : ¬ Live side := by
  intro hlive
  rw [hlive.1] at h
  cases h

/-- The cleanup is not reported complete. -/
theorem CloseStep.unclosed {error : SideError} {deltas : List AnswerDelta} {frames : List Value}
    {side' : RemoteConsultation} (hdeltas : deltas = []) (hinput : side'.input = false)
    (answers : side'.answersReceived = side.answersReceived)
    (questions : side'.handed = side.handed)
    (confirmed : side'.cleanupConfirmed = true → side.cleanupConfirmed = true) :
    CloseStep side (⟨.closed (.error error), false, deltas, frames⟩, side') := by
  refine ⟨rfl, hdeltas, fun _ _ => closed_ne_asked, answers, questions, not_live_of_input hinput,
    fun h => ?_, fun h => .inl (confirmed h), fun receipt h => ?_⟩
  · rw [hinput] at h
    cases h
  · cases h

theorem awaitClosed_step (w : Weather) (n : Nat) (ticks : List Tick) (side : RemoteConsultation)
    (hinput : side.input = false) : CloseStep side (awaitClosed w n ticks side) := by
  induction n generalizing ticks side with
  | zero => exact .unclosed rfl rfl rfl rfl id
  | succ n ih =>
      have hspec := read_spec w.consumes ticks side
      rw [awaitClosed]
      generalize readNonprogress w.consumes ticks side = reading at hspec
      have hdeltas : reading.deltas = [] := by
        by_contra hne
        rw [(hspec.previews.unanswered hne).2] at hinput
        cases hinput
      have hgone : reading.side.input = false := by
        by_contra hkept
        rw [hspec.input (by simpa using hkept)] at hinput
        cases hinput
      have hconfirmed : reading.side.cleanupConfirmed = true → side.cleanupConfirmed = true :=
        fun h => hspec.counted.confirmed.symm.trans h
      have hfailed : ∀ error (side' : RemoteConsultation), side'.input = false →
          side'.answersReceived = reading.side.answersReceived →
          side'.handed = reading.side.handed →
          side'.cleanupConfirmed = reading.side.cleanupConfirmed →
          CloseStep side
            (⟨.closed (.error error), false, reading.deltas, reading.frames⟩, side') :=
        fun error side' hdead hanswers hhanded hsame =>
          .unclosed hdeltas hdead (hanswers.trans hspec.counted.answers)
            (hhanded.trans hspec.counted.handed) fun h => hconfirmed (hsame.symm.trans h)
      cases hread : reading.outcome with
      | error error =>
          simp only
          by_cases hcleanup : error.receipt.bind (·.stage) = some "cleanup"
          · rw [if_pos hcleanup]
            have hrest := ih reading.ticks reading.side hgone
            refine ⟨hrest.handed, ?_, hrest.asked, hrest.answers.trans hspec.counted.answers,
              hrest.questions.trans hspec.counted.handed, hrest.dead, fun h => ?_, fun h => ?_,
              hrest.closed⟩
            · simp only [hdeltas, hrest.deltas, List.append_nil]
            · rw [(hrest.input h).1] at hgone
              cases hgone
            · rcases hrest.confirmed h with h | ⟨value, hvalue, hconfirms⟩
              · exact .inl (hconfirmed h)
              · exact .inr ⟨value, List.mem_append_right _ hvalue, hconfirms⟩
          · rw [if_neg hcleanup]
            exact hfailed _ _ rfl rfl rfl rfl
      | ok found =>
          obtain ⟨value, came⟩ := found
          have hmem := (hspec.read value came hread).2.2.2
          simp only
          cases hclosed : value.asObject.filter isClosed with
          | none => exact hfailed _ _ rfl rfl rfl rfl
          | some fields =>
              obtain ⟨hfields, hisclosed⟩ := Option.filter_eq_some_iff.mp hclosed
              simp only
              by_cases hcomplete : complete fields = true
              · rw [if_neg (not_not.mpr hcomplete)]
                cases w.reaped with
                | error error => exact hfailed _ _ rfl rfl rfl rfl
                | ok _ =>
                    exact ⟨rfl, hdeltas, fun _ _ => closed_ne_asked, hspec.counted.answers,
                      hspec.counted.handed, not_live_of_input rfl,
                      fun h => (Bool.false_ne_true h).elim,
                      fun _ => .inr ⟨value, hmem, fields, hfields, hisclosed, hcomplete⟩,
                      fun _ _ => rfl⟩
              · rw [if_pos hcomplete]
                exact hfailed _ _ rfl rfl rfl rfl

theorem close_step (w : Weather) (side : RemoteConsultation) : CloseStep side (close w side) := by
  rw [close]
  by_cases hconfirmed : side.cleanupConfirmed = true
  · rw [if_pos hconfirmed]
    refine ⟨rfl, rfl, fun _ _ => closed_ne_asked, rfl, rfl, fun hlive => ?_, fun h => ⟨h, rfl⟩,
      .inl, fun _ _ => hconfirmed⟩
    rw [hlive.2.2] at hconfirmed
    cases hconfirmed
  rw [if_neg hconfirmed]
  by_cases haborted : side.transportAborted = true
  · rw [if_pos haborted]
    refine ⟨rfl, rfl, fun _ _ => closed_ne_asked, rfl, rfl, fun hlive => ?_, fun h => ⟨h, rfl⟩,
      .inl, fun receipt h => ?_⟩
    · rw [hlive.2.1] at haborted
      cases haborted
    · cases h
  rw [if_neg haborted]
  have hawait := awaitClosed_step w (w.ticks.length + 1) w.ticks { side with input := false } rfl
  have hstep : CloseStep side
      (awaitClosed w (w.ticks.length + 1) w.ticks { side with input := false }) :=
    ⟨hawait.handed, hawait.deltas, hawait.asked, hawait.answers, hawait.questions, hawait.dead,
      fun h => (Bool.false_ne_true (hawait.input h).1).elim, hawait.confirmed, hawait.closed⟩
  cases side.input with
  | false => exact hstep
  | true =>
      cases w.written with
      | ok _ => exact hstep
      | error error => exact .unclosed rfl rfl rfl rfl id

end Calls

/-! ### Runs -/

section Runs

abbrev Made := Entry RemoteConsultation Call Result

/-- A connection that has just been opened, whatever waits in its queue. -/
structure Start (side : RemoteConsultation) : Prop where
  live : Live side
  events : ∃ queue, side.events = some queue ∧ ∀ arrived ∈ queue, arrived.after = 0
  answers : side.answersReceived = 0
  turn : side.turn = 0
  handed : side.handed = 0

def succeeded (result : Result) : Bool :=
  match result.reply with
  | .asked (.ok _) _ => true
  | _ => false

/-- How many calls of `ask` returned a text. -/
def successes (entries : List Made) : Nat := entries.countP fun e => succeeded e.result

/-- What holds of the connection after some calls. -/
structure Kept (entries : List Made) (side : RemoteConsultation) : Prop where
  answers : side.answersReceived = successes entries
  live : Live side → side.turn = side.answersReceived ∧ side.handed = side.answersReceived
  events : side.input = true → side.events.isSome
  failed : ∀ e ∈ entries, e.result.handed = true → succeeded e.result = false → ¬ Live side
  confirmed : side.cleanupConfirmed = true → ∃ e ∈ entries, Confirms e.result.frames

variable {entries pre post : List Made} {e : Made} {side start : RemoteConsultation}

theorem successes_append (entries : List Made) (e : Made) :
    successes (entries ++ [e]) = successes entries + if succeeded e.result then 1 else 0 := by
  rw [successes, List.countP_append, successes, List.countP_singleton]

/-- A call that hands nothing over and leaves no live connection that was not live before. -/
theorem Kept.quiet {c : Call} {result : Result} {side' : RemoteConsultation}
    (h : Kept entries side) (hhanded : result.handed = false) (hfailed : succeeded result = false)
    (answers : side'.answersReceived = side.answersReceived)
    (live : Live side' → Live side ∧ side'.turn = side.turn ∧ side'.handed = side.handed)
    (events : side'.input = true → side'.events.isSome)
    (confirmed : side'.cleanupConfirmed = true →
      side.cleanupConfirmed = true ∨ Confirms result.frames) :
    Kept (entries ++ [⟨side, c, result⟩]) side' := by
  refine ⟨?_, fun hlive => ?_, events, fun e he hhand hfail hlive => ?_, fun hconfirmed => ?_⟩
  · rw [successes_append, hfailed, answers, h.answers]
    rfl
  · obtain ⟨hbefore, hturn, hhand⟩ := live hlive
    rw [hturn, hhand, answers]
    exact h.live hbefore
  · rcases List.mem_append.mp he with he | he
    · exact h.failed e he hhand hfail (live hlive).1
    · rw [List.mem_singleton.mp he, hhanded] at hhand
      cases hhand
  · rcases confirmed hconfirmed with hbefore | hframes
    · obtain ⟨e, he, hframes⟩ := h.confirmed hbefore
      exact ⟨e, List.mem_append_left _ he, hframes⟩
    · exact ⟨_, List.mem_append_right _ (List.mem_singleton_self _), hframes⟩

theorem Kept.ask {question : String} {w : Weather} {r : Result × RemoteConsultation}
    (h : Kept entries side) (hr : AskStep w side r) :
    Kept (entries ++ [⟨side, .ask question w, r.1⟩]) r.2 := by
  cases hr with
  | refused dead answers handed confirmed events =>
      rcases dead with rfl | ⟨-, hinput⟩
      · exact h.quiet rfl rfl rfl (fun hlive => ⟨hlive, rfl, rfl⟩) h.events .inl
      · refine h.quiet rfl rfl answers (fun hlive => absurd hlive (not_live_of_input hinput))
          (fun htrue => ?_) fun hconfirmed => .inl (confirmed.symm.trans hconfirmed)
        rw [hinput] at htrue
        cases htrue
  | lost live lost answers confirmed turn bytes =>
      have hdead := not_live_of_input lost
      refine ⟨?_, fun hlive => (hdead hlive).elim, fun hinput => ?_, fun _ _ _ _ => hdead,
        fun hconfirmed => ?_⟩
      · rw [successes_append, answers, h.answers]
        rfl
      · rw [lost] at hinput
        cases hinput
      · rw [confirmed] at hconfirmed
        cases hconfirmed
  | answered live live' events answers handed opened frame fresh turn bytes =>
      obtain ⟨hturn, hhanded⟩ := h.live live
      refine ⟨?_, fun _ => ?_, fun _ => events, fun e he hhand hfail => ?_, fun hconfirmed => ?_⟩
      · rw [successes_append, answers, h.answers]
        rfl
      · rw [opened, handed, answers, hturn, hhanded]
        exact ⟨rfl, rfl⟩
      · rcases List.mem_append.mp he with he | he
        · exact absurd live (h.failed e he hhand hfail)
        · rw [List.mem_singleton.mp he] at hfail
          cases hfail
      · rw [live'.2.2] at hconfirmed
        cases hconfirmed

theorem Kept.close {w : Weather} {r : Result × RemoteConsultation} (h : Kept entries side)
    (hr : CloseStep side r) : Kept (entries ++ [⟨side, .close w, r.1⟩]) r.2 := by
  have hfailed : succeeded r.1 = false := by
    rw [succeeded]
    cases hreply : r.1.reply with
    | asked answer came => exact absurd hreply (hr.asked answer came)
    | none => rfl
    | closed receipt => rfl
    | cancelled error => rfl
  refine h.quiet hr.handed hfailed hr.answers (fun hlive => absurd hlive hr.dead) (fun hinput => ?_)
    hr.confirmed
  obtain ⟨hbefore, hevents⟩ := hr.input hinput
  rw [hevents]
  exact h.events hbefore

theorem Kept.arrive (h : Kept entries side) (incoming : Except SideError Value) :
    Kept (entries ++ [⟨side, .arrive incoming, ⟨.none, false, [], []⟩⟩])
      (side.arrive incoming) := by
  refine h.quiet rfl rfl rfl (fun hlive => ⟨hlive, rfl, rfl⟩) (fun hinput => ?_) .inl
  have hevents := h.events hinput
  simpa [RemoteConsultation.arrive] using hevents

theorem Start.kept (h : Start start) : Kept [] start where
  answers := h.answers
  live _ := by
    rw [h.turn, h.handed, h.answers]
    exact ⟨rfl, rfl⟩
  events _ := by
    obtain ⟨queue, hqueue, -⟩ := h.events
    simp [hqueue]
  failed e he := by simp at he
  confirmed hconfirmed := by
    rw [h.live.2.2] at hconfirmed
    cases hconfirmed

/-- Every run keeps it. -/
theorem kept (h : History perform NoDrift start entries side) (hstart : Start start) :
    Kept entries side := by
  refine h.invariant_entries Kept hstart.kept (fun es u c _ hkept => ?_)
    fun es u u' _ => NoDrift.keeps (Kept es) u u'
  cases c with
  | ask question w => exact hkept.ask (ask_step question w hkept.events)
  | close w => exact hkept.close (close_step w u)
  | cancel =>
      refine hkept.quiet rfl rfl rfl (fun hlive => ?_) (fun h => (Bool.false_ne_true h).elim) .inl
      exact absurd hlive (not_live_of_input rfl)
  | arrive incoming => exact hkept.arrive incoming

/-- What a call showed and returned, `n` questions having been answered before it. -/
structure Turn (n : Nat) (e : Made) : Prop where
  frame : ∀ text came, e.result.reply = .asked (.ok text) came →
    ∃ value ∈ e.result.frames, answerOf value = .ok text
  fresh : (∀ question w, e.call = .ask question w → ¬ Waiting w e.before) →
    ∀ text came, e.result.reply = .asked (.ok text) came → came = n + 1
  turn : ∀ delta ∈ e.result.deltas, e.result.handed = true ∧ delta.turn = n + 1
  bytes : textBytes e.result.deltas ≤ maxStreamBytes

/-- A call that shows nothing and returns no text. -/
theorem Turn.silent {n : Nat} (hdeltas : e.result.deltas = [])
    (hasked : ∀ text came, e.result.reply ≠ .asked (.ok text) came) : Turn n e where
  frame text came hreply := absurd hreply (hasked text came)
  fresh _ text came hreply := absurd hreply (hasked text came)
  turn delta hdelta := by
    rw [hdeltas] at hdelta
    cases hdelta
  bytes := by simp [hdeltas, textBytes]

theorem Kept.turn {c : Call} (h : Kept entries side) :
    Turn (successes entries) ⟨side, c, (perform c side).1⟩ := by
  cases c with
  | close w =>
      have hclose := close_step w side
      exact .silent hclose.deltas fun text came => hclose.asked (.ok text) came
  | cancel => exact .silent rfl nofun
  | arrive incoming => exact .silent rfl nofun
  | ask question w =>
      have hask := ask_step question w h.events
      rw [perform]
      generalize Side.ask question w side = r at hask
      cases hask with
      | refused dead answers handed confirmed events => exact .silent rfl nofun
      | lost live lost answers confirmed turn bytes =>
          refine ⟨nofun, fun _ => nofun, fun delta hdelta => ⟨rfl, ?_⟩, bytes⟩
          rw [turn delta hdelta, (h.live live).1, h.answers]
      | answered live live' events answers handed opened frame fresh turn bytes =>
          refine ⟨fun text came hreply => ?_, fun hclear text came hreply => ?_,
            fun delta hdelta => ⟨rfl, ?_⟩, bytes⟩
          · cases hreply
            exact frame
          · cases hreply
            rw [fresh (hclear question w rfl), (h.live live).2, h.answers]
          · rw [turn delta hdelta, (h.live live).1, h.answers]

/-- A dead connection takes no question. -/
theorem Kept.refuses {c : Call} (h : Kept entries side) (hdead : ¬ Live side) :
    (perform c side).1.handed = false := by
  cases c with
  | close w => exact (close_step w side).handed
  | cancel => rfl
  | arrive incoming => rfl
  | ask question w =>
      have hask := ask_step question w h.events
      rw [perform]
      generalize Side.ask question w side = r at hask
      cases hask with
      | refused dead answers handed confirmed events => rfl
      | lost live lost answers confirmed turn bytes => exact absurd live hdead
      | answered live live' events answers handed opened frame fresh turn bytes =>
          exact absurd live hdead

/-! ### A connection with nothing in its queue -/

def opened : RemoteConsultation where
  sshTarget := "host"
  streamOutput := true
  observed := true
  events := some []

theorem opened_start : Start opened :=
  ⟨⟨rfl, rfl, rfl⟩, ⟨[], rfl, by simp⟩, rfl, rfl, rfl⟩

def answerFrame (text : String) : Value :=
  .object [("type", .string "answer"), ("text", .string text)]

def firstAsk : Call :=
  .ask "first" { ticks := [.arrive (.ok (answerFrame "one")), .arrive (.ok (answerFrame "more")),
    .receive] }

def secondAsk : Call := .ask "second" { ticks := [.receive] }

def firstMade : Made := ⟨opened, firstAsk, (perform firstAsk opened).1⟩

theorem firstMade_history :
    History perform NoDrift opened ([] ++ firstMade :: []) (perform firstAsk opened).2 :=
  .call .nil firstAsk

/-- In a run of calls and of frames that come: what is returned is of an answer that came since the
question was handed over, as long as no answer waited unread then; what is passed on belongs to the
open turn and has room; after a question that failed no other is handed over; and a cleanup is
reported complete only when a frame said so. -/
theorem consultation_turns (h : History perform NoDrift start (pre ++ e :: post) side)
    (hstart : Start start) :
    Turn (successes pre) e ∧
      (e.result.handed = true → succeeded e.result = false →
        ∀ later ∈ post, later.result.handed = false) ∧
      ∀ receipt, e.result.reply = .closed (.ok receipt) →
        ∃ made ∈ pre ++ [e], Confirms made.result.frames := by
  obtain ⟨hpre, hresult, -⟩ := h.split
  have hkept := kept hpre hstart
  obtain ⟨before, c, result⟩ := e
  obtain rfl : result = (perform c before).1 := hresult
  refine ⟨hkept.turn, fun hhanded hfailed later hlater => ?_, fun receipt hreply => ?_⟩
  · obtain ⟨mid, rest, rfl⟩ := List.append_of_mem hlater
    rw [← List.cons_append, ← List.append_assoc] at h
    obtain ⟨hbefore, hresult, -⟩ := h.split
    have hlate := kept hbefore hstart
    rw [hresult]
    refine hlate.refuses (hlate.failed _ ?_ hhanded hfailed)
    exact List.mem_append_right _ List.mem_cons_self
  · cases c with
    | ask question w =>
        have hask := ask_step question w hkept.events
        simp only [perform] at hreply
        generalize Side.ask question w before = r at hask hreply
        cases hask <;> cases hreply
    | cancel => cases hreply
    | arrive incoming => cases hreply
    | close w =>
        have hclose := close_step w before
        rcases hclose.confirmed (hclose.closed receipt hreply) with hconfirmed | hframes
        · obtain ⟨made, hmade, hframes⟩ := hkept.confirmed hconfirmed
          exact ⟨made, List.mem_append_left _ hmade, hframes⟩
        · exact ⟨_, List.mem_append_right _ (List.mem_singleton_self _), hframes⟩

theorem consultation_turns_first : Turn 0 firstMade :=
  (consultation_turns firstMade_history opened_start).1

/-- Two answers to the first question: the second question is answered by what was left over. -/
theorem answer_left_over :
    ¬ ∀ (start side : RemoteConsultation) (pre post : List Made) (e : Made),
      History perform NoDrift start (pre ++ e :: post) side → Start start →
        ∀ text came, e.result.reply = .asked (.ok text) came → came = successes pre + 1 := by
  intro hall
  have hrun := firstMade_history.call secondAsk
  have hcame := hall opened _ [firstMade] [] _ hrun opened_start "more" 1 rfl
  have hone : successes [firstMade] = 1 := rfl
  rw [hone] at hcame
  cases hcame

end Runs

end Pikamux.Fleet.Side
