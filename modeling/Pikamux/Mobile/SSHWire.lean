import Mathlib.Data.List.Infix
import Pikamux.Mobile.Boards

/-!
# Mobile — SSHWire

One wire of the phone: calls are queued and written one at a time, each with a timer, and what comes
back is cut into lines, of which each answers a call or is an event.

* `Step` — one job of the actor: a call, the writing of the queue up to its next suspension, a chunk
  of bytes, a timer, `close`, and what is outside of it.
* `Call` — what the log says of one call, by itself: it waits until the first response with its id,
  its timer or the end of the wire.
* `dispatched_and_answered_once` — in every run the frames go out once, in the order of the calls,
  while their callers wait; every caller has the answer that the log gives it, and no other; and how
  the bytes are cut into chunks changes nothing.
-/

namespace Pikamux.Mobile.SSHWire

open Boards (JSONValue)

abbrev Data := List UInt8

/-- The errors of `ConnectionError` that a caller of a wire sees. -/
inductive ConnectionError where
  | disconnected
  | malformed
  | timeout
  | remote (message : String)
  | sharedConnectionRequired (message : String)
  | rejected (message : String)
  deriving DecidableEq, Repr

/-- What a caller is resumed with. -/
inductive Answer where
  | result (value : JSONValue)
  | error (error : ConnectionError)
  deriving DecidableEq

/-! ### The stream of events -/

/-- `AsyncStream`, buffering the oldest 256. -/
structure Sink where
  buffer : List JSONValue
  /-- A consumer is suspended in `next`. -/
  waiting : Bool
  finished : Bool

inductive YieldResult where
  | enqueued
  | dropped
  | terminated
  deriving DecidableEq

/-- `yield` -/
def Sink.yield (sink : Sink) (frame : JSONValue) : Sink × YieldResult :=
  if sink.finished then (sink, .terminated)
  else if sink.waiting then ({ sink with waiting := false }, .enqueued)
  else if sink.buffer.length < 256 then ({ sink with buffer := sink.buffer ++ [frame] }, .enqueued)
  else (sink, .dropped)

/-- `next` -/
def Sink.next (sink : Sink) : Sink :=
  match sink.buffer with
  | [] => { sink with waiting := !sink.finished }
  | _ :: buffer => { sink with buffer }

/-! ### Frames -/

/-- `has` -/
def has (value : JSONValue) (key : String) : Bool :=
  match value with
  | .object fields => (fields.lookup key).isSome
  | _ => false

/-- The frame of a call. -/
def requestFrame (id method : String) (params : JSONValue) : JSONValue :=
  .object [("v", .number 1), ("id", .string id), ("method", .string method), ("params", params)]

/-- A line of the machine, if it is well-formed. -/
inductive Frame where
  | response (id : String) (answer : Answer)
  | event (frame : JSONValue)

/-- What a response resumes its caller with. -/
def answerOf (frame : JSONValue) : Answer :=
  if has frame "error" then
    let error := frame.get "error"
    let message :=
      (error.get "message").text?.getD "The machine could not confirm this request."
    let code := (error.get "code").text?.getD ""
    if code = "rejected_before_dispatch" then .error (.rejected message)
    else if code = "shared_connection_required" then .error (.sharedConnectionRequired message)
    else .error (.remote message)
  else .result (frame.get "result")

/-- A line, as `JSONDecoder` reads it. -/
def readFrame (decode : Data → Option JSONValue) (line : Data) : Option Frame :=
  match decode line with
  | none => none
  | some frame =>
      if (frame.get "v").number? ≠ some 1 then none
      else
        match (frame.get "id").text? with
        | some id =>
            if !has frame "event" && !has frame "method" &&
                has frame "result" != has frame "error" then
              some (.response id (answerOf frame))
            else none
        | none =>
            if (frame.get "event").text?.isSome && has frame "params" && !has frame "result" &&
                !has frame "error" then
              some (.event frame)
            else none

/-! ### The wire -/

/-- What has happened, in order. -/
inductive Entry where
  /-- A call was queued, with these bytes. -/
  | called (id : String) (bytes : Data)
  /-- They were given to the channel. -/
  | handed (id : String) (bytes : Data)
  /-- A response came, whether or not anybody waits for it. -/
  | received (id : String) (answer : Answer)
  | event (frame : JSONValue)
  | timedOut (id : String)
  | closed

def Entry.called? : Entry → Option (String × Data)
  | called id bytes => some (id, bytes)
  | _ => none

def Entry.handed? : Entry → Option (String × Data)
  | handed id bytes => some (id, bytes)
  | _ => none

/-- Where a task is in `drainOutbound`. -/
inductive Drain where
  /-- At the head of the loop. -/
  | running
  /-- Suspended in `write`. -/
  | suspended
  /-- Suspended in the `close` after a write that failed. -/
  | closing
  deriving DecidableEq

structure Wire where
  /-- The callers that wait, by id. -/
  pending : List String
  outbound : List (String × Data)
  writing : Bool
  /-- There is a `writer`. -/
  writer : Bool
  buffered : Data
  closed : Bool
  eventSink : Sink
  /-- The tasks in `drainOutbound`. -/
  drains : List Drain
  /-- The calls whose timers run. -/
  timers : List String
  /-- `receive` has thrown: it gets no more bytes, and the channel is closed. -/
  failed : Bool
  log : List Entry
  answers : List (String × Answer)

/-- The wire before it has a writer. -/
def Wire.fresh : Wire :=
  ⟨[], [], false, false, [], false, ⟨[], false, false⟩, [], [], false, [], []⟩

def maxLine : Nat := 16 * 1048576

section Actor

variable (encode : JSONValue → Except ConnectionError Data) (decode : Data → Option JSONValue)

def Wire.note (w : Wire) (entry : Entry) : Wire := { w with log := w.log ++ [entry] }

/-- The caller is resumed, if it waits. -/
def Wire.settle (w : Wire) (id : String) (answer : Answer) : Wire :=
  if w.pending.contains id then
    { w with pending := w.pending.erase id, answers := w.answers ++ [(id, answer)] }
  else w

/-- A call is queued, and the queue is drained. -/
def Wire.queue (w : Wire) (id : String) (bytes : Data) : Wire :=
  { w with
    pending := w.pending ++ [id]
    outbound := w.outbound ++ [(id, bytes)]
    writing := true
    drains := if w.writing then w.drains else w.drains ++ [Drain.running]
    timers := w.timers ++ [id] }.note (.called id bytes)

/-- `request`, up to its suspension. -/
def Wire.request (w : Wire) (id method : String) (params : JSONValue) :
    Except ConnectionError Wire :=
  if w.closed || !w.writer || 32 ≤ w.pending.length then .error .disconnected
  else
    match encode (requestFrame id method params) with
    | .error error => .error error
    | .ok bytes =>
        if 131072 < bytes.length then .error .malformed
        else .ok (w.queue id (bytes ++ [10]))

/-- The next frame of the queue whose caller still waits, and what is behind it. -/
def nextFrame (pending : List String) :
    List (String × Data) → Option (String × Data) × List (String × Data)
  | [] => (none, [])
  | frame :: outbound =>
      if pending.contains frame.1 then (some frame, outbound) else nextFrame pending outbound

/-- The task `k` leaves `drainOutbound`. -/
def Wire.endDrain (w : Wire) (k : Nat) : Wire :=
  { w with writing := false, drains := w.drains.eraseIdx k }

/-- `drainOutbound`, from the head of the loop to the next suspension of the task `k`. -/
def Wire.drainOutbound (w : Wire) (k : Nat) : Wire :=
  if w.closed || !w.writer then w.endDrain k
  else
    match nextFrame w.pending w.outbound with
    | (none, outbound) => { w with outbound }.endDrain k
    | (some frame, outbound) =>
        { w with outbound, drains := w.drains.set k .suspended }.note (.handed frame.1 frame.2)

/-- A well-formed line. -/
def Wire.deliver (w : Wire) : Frame → Wire
  | .response id answer => (w.note (.received id answer)).settle id answer
  | .event frame =>
      match w.eventSink.yield frame with
      | (eventSink, .enqueued) => { w with eventSink }.note (.event frame)
      | (eventSink, .terminated) => { w with eventSink }
      | (eventSink, .dropped) => { w with eventSink, failed := true }

@[simp] theorem Wire.deliver_buffered (w : Wire) (frame : Frame) :
    (w.deliver frame).buffered = w.buffered := by
  cases frame with
  | response id answer =>
      rw [deliver, settle]
      split <;> rfl
  | event frame =>
      rw [deliver]
      split <;> rfl

/-- The loop of `receive`. -/
def Wire.receiveLoop (w : Wire) : Wire :=
  match h : w.buffered.dropWhile (· ≠ 10) with
  | [] => if maxLine < w.buffered.length then { w with failed := true } else w
  | _ :: rest =>
      let line := w.buffered.takeWhile (· ≠ 10)
      if maxLine < line.length then { w with failed := true }
      else
        match readFrame decode line with
        | none => { w with buffered := rest, failed := true }
        | some frame =>
            let after := { w with buffered := rest }.deliver frame
            if after.failed then after else after.receiveLoop
termination_by w.buffered.length
decreasing_by
  have hlength := (List.dropWhile_suffix (l := w.buffered) (· ≠ 10)).length_le
  rw [h, List.length_cons] at hlength
  rw [deliver_buffered]
  exact hlength

/-- `receive` -/
def Wire.receive (w : Wire) (bytes : Data) : Wire :=
  { w with buffered := w.buffered ++ bytes }.receiveLoop decode

/-- `close`, up to its suspension. -/
def Wire.close (w : Wire) : Wire :=
  if w.closed then w
  else
    { w with
      closed := true
      answers := w.answers ++ w.pending.map fun id => (id, Answer.error .disconnected)
      pending := []
      writer := false
      outbound := [] }.note .closed

/-- One job of the actor, or something outside of it that the actor waits for. -/
inductive Step (w : Wire) : Wire → Prop where
  | setWriter : Step w { w with writer := true }
  /-- The id is a new `UUID`. -/
  | request (id method : String) (params : JSONValue) (after : Wire)
      (new : ∀ bytes, .called id bytes ∉ w.log)
      (queued : w.request encode id method params = .ok after) : Step w after
  | drain (k : Nat) (running : w.drains[k]? = some .running) : Step w (w.drainOutbound k)
  | written (k : Nat) (suspended : w.drains[k]? = some .suspended) :
      Step w { w with drains := w.drains.set k .running }
  | writeFailed (k : Nat) (suspended : w.drains[k]? = some .suspended) :
      Step w { w with drains := w.drains.set k .closing }.close
  | returned (k : Nat) (closing : w.drains[k]? = some .closing) : Step w (w.endDrain k)
  | receive (bytes : Data) (reading : w.failed = false) : Step w (w.receive decode bytes)
  | timeout (id : String) (running : id ∈ w.timers) :
      Step w (({ w with timers := w.timers.erase id }.note (.timedOut id)).settle id
        (.error .timeout))
  | close : Step w w.close
  /-- The session is closed. -/
  | finish (closed : w.closed = true) :
      Step w { w with eventSink := { w.eventSink with finished := true } }
  | next : Step w { w with eventSink := w.eventSink.next }

inductive Run : Wire → Prop where
  | start : Run .fresh
  | step (w after : Wire) (run : Run w) (step : Step encode decode w after) : Run after

end Actor

/-! ### One call -/

/-- A call, as far as a log tells. -/
inductive Call where
  | unknown
  | waiting
  | answered (answer : Answer)
  deriving DecidableEq

/-- The first response with its id ends a call, as its timer and the end of the wire do. -/
def Call.after (id : String) (call : Call) (entry : Entry) : Call :=
  match call, entry with
  | .unknown, .called id' _ => if id' = id then .waiting else .unknown
  | .waiting, .received id' answer => if id' = id then .answered answer else .waiting
  | .waiting, .timedOut id' => if id' = id then .answered (.error .timeout) else .waiting
  | .waiting, .closed => .answered (.error .disconnected)
  | call, _ => call

def call (id : String) (log : List Entry) : Call := log.foldl (Call.after id) .unknown

/-- What the caller is told. -/
def Call.answers : Call → List Answer
  | answered answer => [answer]
  | _ => []

def Wire.answersTo (w : Wire) (id : String) : List Answer :=
  (w.answers.filter fun answer => answer.1 = id).map Prod.snd

section Calls

variable {id : String} {log : List Entry} {entry : Entry} {answer : Answer} {w : Wire}

@[simp] theorem call_concat : call id (log ++ [entry]) = (call id log).after id entry := by
  simp [call]

@[simp] theorem note_log : (w.note entry).log = w.log ++ [entry] := rfl

theorem Call.after_unknown {c : Call} :
    c.after id entry = .unknown ↔ c = .unknown ∧ ∀ bytes, entry ≠ .called id bytes := by
  cases c with
  | unknown =>
      cases entry with
      | called id' bytes =>
          by_cases h : id' = id <;> simp [Call.after, h]
      | _ => simp [Call.after]
  | waiting =>
      cases entry with
      | received id' answer => by_cases h : id' = id <;> simp [Call.after, h]
      | timedOut id' => by_cases h : id' = id <;> simp [Call.after, h]
      | _ => simp [Call.after]
  | answered answer => simp [Call.after]

theorem call_unknown : call id log = .unknown ↔ ∀ bytes, .called id bytes ∉ log := by
  induction log using List.reverseRecOn with
  | nil => simp [call]
  | append_singleton log entry ih =>
      rw [call_concat, Call.after_unknown, ih]
      constructor
      · intro ⟨hlog, hentry⟩ bytes hmem
        rcases List.mem_append.mp hmem with hmem | hmem
        · exact hlog bytes hmem
        · exact hentry bytes (List.mem_singleton.mp hmem).symm
      · intro h
        refine ⟨fun bytes hmem => h bytes (List.mem_append_left _ hmem), ?_⟩
        intro bytes hentry
        exact h bytes (by simp [hentry])

/-- The entry ends the call `id` with an answer, and no other call. -/
structure Ends (entry : Entry) (id : String) (answer : Answer) : Prop where
  called : entry.called? = none
  handed : entry.handed? = none
  open_ : entry ≠ .closed
  after : ∀ other c, Call.after other c entry =
    if other = id ∧ c = .waiting then .answered answer else c

theorem ends_received : Ends (.received id answer) id answer := by
  refine ⟨rfl, rfl, by simp, ?_⟩
  intro other c
  cases c with
  | waiting => by_cases h : id = other <;> simp [Call.after, h, eq_comm]
  | _ => simp [Call.after]

theorem ends_timedOut : Ends (.timedOut id) id (.error .timeout) := by
  refine ⟨rfl, rfl, by simp, ?_⟩
  intro other c
  cases c with
  | waiting => by_cases h : id = other <;> simp [Call.after, h, eq_comm]
  | _ => simp [Call.after]

end Calls

/-! ### The invariant -/

/-- What holds of a wire and its log, at any time. -/
structure Inv (w : Wire) : Prop where
  drains : w.drains.length = w.writing.toNat
  calls : ((w.log.filterMap Entry.called?).map Prod.fst).Nodup
  queue : (w.log.filterMap Entry.handed? ++ w.outbound).Sublist (w.log.filterMap Entry.called?)
  once : w.pending.Nodup
  pending : ∀ id, id ∈ w.pending ↔ call id w.log = .waiting
  answers : ∀ id, w.answersTo id = (call id w.log).answers
  timers : ∀ id ∈ w.pending, id ∈ w.timers
  handed : ∀ before id bytes, before ++ [.handed id bytes] <+: w.log →
    call id before = .waiting ∧ .closed ∉ before
  open_ : .closed ∈ w.log ↔ w.closed = true
  ended : w.closed = true → w.pending = [] ∧ w.outbound = []

section Invariant

variable {encode : JSONValue → Except ConnectionError Data} {decode : Data → Option JSONValue}
  {id : String} {log : List Entry} {entry : Entry} {answer : Answer} {w after : Wire}

theorem handed_concat {before : List Entry} {bytes : Data} (hentry : entry.handed? = none)
    (h : before ++ [.handed id bytes] <+: log ++ [entry]) :
    before ++ [.handed id bytes] <+: log := by
  rcases List.prefix_concat_iff.mp h with h | h
  · have hlast := (List.append_inj' h rfl).2
    rw [← (List.cons.inj hlast).1] at hentry
    cases hentry
  · exact h

theorem filterMap_concat {f : Entry → Option (String × Data)} (h : f entry = none) :
    (log ++ [entry]).filterMap f = log.filterMap f := by
  rw [List.filterMap_append, List.filterMap_cons, h]
  exact List.append_nil _

theorem settle_of_mem (h : id ∈ w.pending) : w.settle id answer =
    { w with pending := w.pending.erase id, answers := w.answers ++ [(id, answer)] } :=
  if_pos (List.contains_iff_mem.mpr h)

theorem settle_of_not_mem (h : id ∉ w.pending) : w.settle id answer = w :=
  if_neg fun hcontains => h (List.contains_iff_mem.mp hcontains)

theorem Inv.fresh : Inv .fresh where
  drains := rfl
  calls := List.nodup_nil
  queue := List.Sublist.refl _
  once := List.nodup_nil
  pending := by simp [Wire.fresh, call]
  answers := by simp [Wire.fresh, Wire.answersTo, call, Call.answers]
  timers := by simp [Wire.fresh]
  handed := by simp [Wire.fresh]
  open_ := by simp [Wire.fresh]
  ended := by simp [Wire.fresh]

/-- An entry that ends a call resumes its caller. -/
theorem Inv.settle (h : Inv w) (hends : Ends entry id answer) (timers : List String)
    (htimers : ∀ other ∈ w.timers, other ≠ id → other ∈ timers) :
    Inv (({ w with timers }.note entry).settle id answer) := by
  have hcall : ∀ other, call other (w.log ++ [entry]) =
      if other = id ∧ call other w.log = .waiting then .answered answer else call other w.log := by
    intro other
    rw [call_concat, hends.after]
  have hcalled : (w.log ++ [entry]).filterMap Entry.called? = w.log.filterMap Entry.called? :=
    filterMap_concat hends.called
  have hqueue : (w.log ++ [entry]).filterMap Entry.handed? = w.log.filterMap Entry.handed? :=
    filterMap_concat hends.handed
  have hhanded : ∀ before id bytes, before ++ [.handed id bytes] <+: w.log ++ [entry] →
      call id before = .waiting ∧ .closed ∉ before :=
    fun before id bytes hprefix => h.handed before id bytes (handed_concat hends.handed hprefix)
  have hopen : .closed ∈ w.log ++ [entry] ↔ w.closed = true := by
    rw [List.mem_append, List.mem_singleton, h.open_]
    simp [hends.open_.symm]
  by_cases hid : id ∈ w.pending
  · have hwaiting := (h.pending id).mp hid
    have hsettle : ({ w with timers }.note entry).settle id answer = _ := settle_of_mem hid
    rw [hsettle]
    refine ⟨h.drains, hcalled ▸ h.calls, ?_, h.once.erase id, ?_, ?_, ?_, hhanded, hopen, ?_⟩
    · show List.Sublist ((w.log ++ [entry]).filterMap Entry.handed? ++ w.outbound)
        ((w.log ++ [entry]).filterMap Entry.called?)
      rw [hcalled, hqueue]
      exact h.queue
    · intro other
      show other ∈ w.pending.erase id ↔ call other (w.log ++ [entry]) = .waiting
      rw [h.once.mem_erase_iff, hcall, h.pending]
      by_cases hother : other = id
      · simp [hother, hwaiting]
      · simp [hother]
    · intro other
      show ((w.answers ++ [(id, answer)]).filter fun answer => answer.1 = other).map Prod.snd =
        (call other (w.log ++ [entry])).answers
      have hbefore := h.answers other
      rw [Wire.answersTo] at hbefore
      rw [List.filter_append, List.map_append, hbefore, hcall]
      by_cases hother : other = id
      · simp [hother, hwaiting, Call.answers]
      · simp [hother, Ne.symm hother]
    · intro other hother
      have hmem := h.once.mem_erase_iff.mp hother
      exact htimers other (h.timers other hmem.2) hmem.1
    · intro hclosed
      have hnone := (h.ended hclosed).1
      rw [hnone] at hid
      cases hid
  · have hwaiting : call id w.log ≠ .waiting := fun hwaiting => hid ((h.pending id).mpr hwaiting)
    have hsame : ∀ other, call other (w.log ++ [entry]) = call other w.log := by
      intro other
      rw [hcall]
      by_cases hother : other = id
      · rw [if_neg]
        rw [hother]
        exact fun hboth => hwaiting hboth.2
      · rw [if_neg (fun hboth => hother hboth.1)]
    have hsettle : ({ w with timers }.note entry).settle id answer = _ := settle_of_not_mem hid
    rw [hsettle]
    refine ⟨h.drains, hcalled ▸ h.calls, ?_, h.once, ?_, ?_, ?_, hhanded, hopen, h.ended⟩
    · show List.Sublist ((w.log ++ [entry]).filterMap Entry.handed? ++ w.outbound)
        ((w.log ++ [entry]).filterMap Entry.called?)
      rw [hcalled, hqueue]
      exact h.queue
    · intro other
      show other ∈ w.pending ↔ call other (w.log ++ [entry]) = .waiting
      rw [hsame, h.pending]
    · intro other
      show w.answersTo other = (call other (w.log ++ [entry])).answers
      rw [hsame, h.answers]
    · intro other hother
      exact htimers other (h.timers other hother) (fun heq => hid (heq ▸ hother))

/-- An entry that says nothing about calls. -/
theorem Inv.event (h : Inv w) (frame : JSONValue) : Inv (w.note (.event frame)) := by
  have hcall : ∀ id, call id (w.log ++ [.event frame]) = call id w.log := by
    intro id
    rw [call_concat]
    cases call id w.log <;> rfl
  refine ⟨h.drains, ?_, ?_, h.once, ?_, ?_, h.timers, ?_, ?_, h.ended⟩
  · rw [note_log, filterMap_concat rfl]
    exact h.calls
  · rw [note_log, filterMap_concat rfl, filterMap_concat rfl]
    exact h.queue
  · intro id
    rw [note_log, hcall]
    exact h.pending id
  · intro id
    rw [note_log, hcall]
    exact h.answers id
  · intro before id bytes hprefix
    exact h.handed before id bytes (handed_concat rfl hprefix)
  · rw [note_log, List.mem_append, List.mem_singleton, h.open_]
    simp [Wire.note]

/-- What no call depends on. -/
theorem Inv.other (h : Inv w) (eventSink : Sink) (failed : Bool) (buffered : Data)
    (writer : Bool) : Inv { w with eventSink, failed, buffered, writer } :=
  ⟨h.drains, h.calls, h.queue, h.once, h.pending, h.answers, h.timers, h.handed, h.open_, h.ended⟩

theorem Inv.deliver (h : Inv w) (frame : Frame) : Inv (w.deliver frame) := by
  cases frame with
  | response id answer =>
      exact h.settle ends_received w.timers fun other hother _ => hother
  | event frame =>
      rw [Wire.deliver]
      split
      · exact (h.other _ w.failed w.buffered w.writer).event frame
      · exact h.other _ w.failed w.buffered w.writer
      · exact h.other _ true w.buffered w.writer

theorem Inv.receiveLoop (h : Inv w) : Inv (w.receiveLoop decode) := by
  fun_induction Wire.receiveLoop decode w with
  | case1 w hdrop hlong => exact h.other _ _ _ _
  | case2 w hdrop hshort => exact h
  | case3 w head rest hdrop line hlong => exact h.other _ _ _ _
  | case4 w head rest hdrop line hshort hframe => exact h.other _ _ _ _
  | case5 w head rest hdrop line hshort frame hframe after hfailed =>
      exact (h.other w.eventSink w.failed rest w.writer).deliver frame
  | case6 w head rest hdrop line hshort frame hframe after hfailed ih =>
      exact ih ((h.other w.eventSink w.failed rest w.writer).deliver frame)

theorem answers_disconnected {pending : List String} (h : pending.Nodup) :
    ((pending.map fun id => (id, answer)).filter fun entry => entry.1 = id).map Prod.snd =
      if id ∈ pending then [answer] else [] := by
  induction pending with
  | nil => rfl
  | cons first pending ih =>
      obtain ⟨hfirst, hrest⟩ := List.nodup_cons.mp h
      rw [List.map_cons, List.filter_cons]
      by_cases heq : first = id
      · have hnone : id ∉ pending := heq ▸ hfirst
        rw [if_pos (by simpa using heq), List.map_cons, ih hrest, if_neg hnone,
          if_pos (by simp [heq])]
      · rw [if_neg (by simpa using heq), ih hrest]
        simp [Ne.symm heq]

theorem Inv.close (h : Inv w) : Inv w.close := by
  rw [Wire.close]
  by_cases hclosed : w.closed = true
  · rw [if_pos hclosed]
    exact h
  · rw [if_neg hclosed]
    have hcall : ∀ id, call id (w.log ++ [.closed]) =
        if call id w.log = .waiting then .answered (.error .disconnected) else call id w.log := by
      intro id
      rw [call_concat]
      cases call id w.log <;> rfl
    refine ⟨h.drains, ?_, ?_, List.nodup_nil, ?_, ?_, ?_, ?_, ?_, fun _ => ⟨rfl, rfl⟩⟩
    · rw [note_log, filterMap_concat rfl]
      exact h.calls
    · rw [note_log, filterMap_concat rfl, filterMap_concat rfl]
      exact ((List.Sublist.refl _).append (List.nil_sublist w.outbound)).trans h.queue
    · intro id
      rw [note_log, hcall]
      by_cases hwaiting : call id w.log = .waiting
      · simp [hwaiting, Wire.note]
      · simp [hwaiting, Wire.note]
    · intro id
      show ((w.answers ++ w.pending.map fun id => (id, Answer.error .disconnected)).filter
        fun answer => answer.1 = id).map Prod.snd = (call id (w.log ++ [.closed])).answers
      have hbefore := h.answers id
      rw [Wire.answersTo] at hbefore
      rw [List.filter_append, List.map_append, hbefore, answers_disconnected h.once, hcall]
      by_cases hwaiting : call id w.log = .waiting
      · rw [if_pos ((h.pending id).mpr hwaiting), if_pos hwaiting, hwaiting]
        rfl
      · rw [if_neg (fun hmem => hwaiting ((h.pending id).mp hmem)), if_neg hwaiting]
        exact List.append_nil _
    · intro id hmem
      cases hmem
    · intro before id bytes hprefix
      exact h.handed before id bytes (handed_concat rfl hprefix)
    · simp [Wire.note]

theorem request_ok {method : String} {params : JSONValue}
    (h : w.request encode id method params = .ok after) :
    w.closed = false ∧ ∃ bytes, encode (requestFrame id method params) = .ok bytes ∧
      after = w.queue id (bytes ++ [10]) := by
  rw [Wire.request] at h
  by_cases hrefused : (w.closed || !w.writer || 32 ≤ w.pending.length) = true
  · rw [if_pos hrefused] at h
    cases h
  · rw [if_neg hrefused] at h
    have hopen : w.closed = false := by
      cases hclosed : w.closed with
      | false => rfl
      | true => simp [hclosed] at hrefused
    cases hencode : encode (requestFrame id method params) with
    | error error =>
        rw [hencode] at h
        cases h
    | ok bytes =>
        rw [hencode] at h
        by_cases hlong : 131072 < bytes.length
        · simp only [if_pos hlong] at h
          cases h
        · simp only [if_neg hlong] at h
          cases h
          exact ⟨hopen, bytes, rfl, rfl⟩

theorem mem_called {bytes : Data} :
    (id, bytes) ∈ log.filterMap Entry.called? ↔ .called id bytes ∈ log := by
  rw [List.mem_filterMap]
  constructor
  · intro ⟨entry, hmem, hentry⟩
    cases entry with
    | called id' bytes' =>
        cases hentry
        exact hmem
    | _ => cases hentry
  · intro hmem
    exact ⟨_, hmem, rfl⟩

theorem Inv.enqueue {bytes : Data} (h : Inv w) (new : ∀ bytes, .called id bytes ∉ w.log)
    (hopen : w.closed = false) : Inv (w.queue id bytes) := by
  have hunknown := call_unknown.mpr new
  have hid : id ∉ w.pending := by
    intro hmem
    rw [(h.pending id).mp hmem] at hunknown
    cases hunknown
  have hcall : ∀ other, call other (w.log ++ [.called id bytes]) =
      if other = id then .waiting else call other w.log := by
    intro other
    rw [call_concat]
    by_cases hother : other = id
    · rw [if_pos hother, hother, hunknown]
      simp [Call.after]
    · rw [if_neg hother]
      cases call other w.log <;> simp [Call.after, Ne.symm hother]
  have hcalled : (w.log ++ [Entry.called id bytes]).filterMap Entry.called? =
      w.log.filterMap Entry.called? ++ [(id, bytes)] := by
    rw [List.filterMap_append]
    rfl
  refine ⟨?_, ?_, ?_, ?_, ?_, ?_, ?_, ?_, ?_, ?_⟩
  · -- a task is there already, or one begins
    have hdrains := h.drains
    show (if w.writing then w.drains else w.drains ++ [Drain.running]).length = 1
    cases hwriting : w.writing with
    | false => simp [hwriting, List.length_eq_zero_iff] at hdrains ⊢; exact hdrains
    | true => simpa [hwriting] using hdrains
  · show (((w.log ++ [Entry.called id bytes]).filterMap Entry.called?).map Prod.fst).Nodup
    rw [hcalled, List.map_append, List.nodup_append]
    refine ⟨h.calls, by simp, ?_⟩
    intro other hother new' hnew' heq
    obtain ⟨⟨id', bytes'⟩, hmem, rfl⟩ := List.mem_map.mp hother
    cases List.mem_singleton.mp hnew'
    cases heq
    exact new bytes' (mem_called.mp hmem)
  · show List.Sublist ((w.log ++ [Entry.called id bytes]).filterMap Entry.handed? ++
      (w.outbound ++ [(id, bytes)])) ((w.log ++ [Entry.called id bytes]).filterMap Entry.called?)
    rw [filterMap_concat rfl, hcalled, ← List.append_assoc]
    exact h.queue.append (List.Sublist.refl _)
  · exact List.nodup_append.mpr ⟨h.once, by simp, by
      intro other hother new' hnew' heq
      cases List.mem_singleton.mp hnew'
      exact hid (heq ▸ hother)⟩
  · intro other
    show other ∈ w.pending ++ [id] ↔ call other (w.log ++ [.called id bytes]) = .waiting
    rw [hcall, List.mem_append, List.mem_singleton, h.pending]
    by_cases hother : other = id
    · simp [hother]
    · simp [hother]
  · intro other
    show w.answersTo other = (call other (w.log ++ [.called id bytes])).answers
    rw [hcall, h.answers]
    by_cases hother : other = id
    · rw [if_pos hother, hother, hunknown]
      rfl
    · rw [if_neg hother]
  · intro other hother
    rcases List.mem_append.mp hother with hother | hother
    · exact List.mem_append_left _ (h.timers other hother)
    · exact List.mem_append_right _ hother
  · intro before other bytes' hprefix
    exact h.handed before other bytes' (handed_concat rfl hprefix)
  · show .closed ∈ w.log ++ [.called id bytes] ↔ w.closed = true
    rw [List.mem_append, List.mem_singleton, h.open_]
    simp
  · intro hclosed
    have hclosed' : w.closed = true := hclosed
    rw [hopen] at hclosed'
    cases hclosed'

/-- A frame that `drainOutbound` takes is one whose caller waits, and those before it are gone. -/
theorem nextFrame_some {pending : List String} {outbound rest : List (String × Data)}
    {frame : String × Data} (h : nextFrame pending outbound = (some frame, rest)) :
    frame.1 ∈ pending ∧ (frame :: rest).Sublist outbound := by
  induction outbound with
  | nil => cases h
  | cons first outbound ih =>
      rw [nextFrame] at h
      by_cases hfirst : pending.contains first.1 = true
      · rw [if_pos hfirst] at h
        cases h
        exact ⟨List.contains_iff_mem.mp hfirst, List.Sublist.refl _⟩
      · rw [if_neg hfirst] at h
        exact ⟨(ih h).1, (ih h).2.cons first⟩

theorem nextFrame_none {pending : List String} {outbound rest : List (String × Data)}
    (h : nextFrame pending outbound = (none, rest)) : rest = [] := by
  induction outbound with
  | nil =>
      cases h
      rfl
  | cons first outbound ih =>
      rw [nextFrame] at h
      by_cases hfirst : pending.contains first.1 = true
      · rw [if_pos hfirst] at h
        cases h
      · rw [if_neg hfirst] at h
        exact ih h

theorem Inv.endDrain {k : Nat} {drain : Drain} {outbound : List (String × Data)} (h : Inv w)
    (hdrain : w.drains[k]? = some drain) (houtbound : outbound.Sublist w.outbound) :
    Inv ({ w with outbound }.endDrain k) := by
  refine ⟨?_, h.calls, ?_, h.once, h.pending, h.answers, h.timers, h.handed, h.open_, ?_⟩
  · obtain ⟨hk, -⟩ := List.getElem?_eq_some_iff.mp hdrain
    have hdrains := h.drains
    show (w.drains.eraseIdx k).length = 0
    rw [List.length_eraseIdx_of_lt hk, hdrains]
    cases w.writing <;> rfl
  · exact ((List.Sublist.refl _).append houtbound).trans h.queue
  · intro hclosed
    obtain ⟨hpending, hnone⟩ := h.ended hclosed
    rw [hnone] at houtbound
    exact ⟨hpending, List.sublist_nil.mp houtbound⟩

theorem Inv.setDrain {k : Nat} (h : Inv w) (drain : Drain) :
    Inv { w with drains := w.drains.set k drain } :=
  ⟨by rw [List.length_set]; exact h.drains, h.calls, h.queue, h.once, h.pending, h.answers,
    h.timers, h.handed, h.open_, h.ended⟩

theorem Inv.drainOutbound {k : Nat} (h : Inv w) (hdrain : w.drains[k]? = some .running) :
    Inv (w.drainOutbound k) := by
  rw [Wire.drainOutbound]
  by_cases hstopped : (w.closed || !w.writer) = true
  · rw [if_pos hstopped]
    exact h.endDrain hdrain (List.Sublist.refl _)
  · rw [if_neg hstopped]
    have hopen : w.closed = false := by
      cases hclosed : w.closed with
      | false => rfl
      | true => simp [hclosed] at hstopped
    match hnext : nextFrame w.pending w.outbound with
    | (none, outbound) =>
        have hnone := nextFrame_none hnext
        exact h.endDrain hdrain (hnone ▸ List.nil_sublist _)
    | (some (id, bytes), outbound) =>
        obtain ⟨hwaits, hqueue⟩ := nextFrame_some hnext
        have hcall : ∀ other, call other (w.log ++ [.handed id bytes]) = call other w.log := by
          intro other
          rw [call_concat]
          cases call other w.log <;> rfl
        have hdrains : (w.drains.set k .suspended).length = w.writing.toNat := by
          rw [List.length_set]
          exact h.drains
        refine ⟨hdrains, ?_, ?_, h.once, ?_, ?_, h.timers, ?_, ?_, ?_⟩
        · rw [note_log, filterMap_concat rfl]
          exact h.calls
        · have hcalled : (w.log ++ [Entry.handed id bytes]).filterMap Entry.called? =
              w.log.filterMap Entry.called? := filterMap_concat rfl
          rw [note_log, hcalled, List.filterMap_append]
          have hmoved := ((List.Sublist.refl _).append hqueue).trans h.queue
          rw [← List.singleton_append, ← List.append_assoc] at hmoved
          exact hmoved
        · intro other
          rw [note_log, hcall]
          exact h.pending other
        · intro other
          rw [note_log, hcall]
          exact h.answers other
        · intro before other bytes' hprefix
          rcases List.prefix_concat_iff.mp hprefix with heq | hprefix
          · obtain ⟨hbefore, hlast⟩ := List.append_inj' heq rfl
            cases hlast
            refine ⟨hbefore ▸ (h.pending _).mp hwaits, ?_⟩
            intro hclosed
            have hended := h.open_.mp (hbefore ▸ hclosed)
            rw [hopen] at hended
            cases hended
          · exact h.handed before other bytes' hprefix
        · rw [note_log, List.mem_append, List.mem_singleton, h.open_]
          simp [Wire.note]
        · intro hclosed
          have hclosed' : w.closed = true := hclosed
          rw [hopen] at hclosed'
          cases hclosed'

theorem Inv.step (h : Inv w) (hstep : Step encode decode w after) : Inv after := by
  cases hstep with
  | setWriter => exact h.other w.eventSink w.failed w.buffered true
  | request id method params after new queued =>
      obtain ⟨hopen, bytes, -, rfl⟩ := request_ok queued
      exact h.enqueue new hopen
  | drain k running => exact h.drainOutbound running
  | written k suspended => exact h.setDrain .running
  | writeFailed k suspended => exact (h.setDrain .closing).close
  | returned k closing => exact h.endDrain closing (List.Sublist.refl _)
  | receive bytes reading =>
      exact (h.other w.eventSink w.failed (w.buffered ++ bytes) w.writer).receiveLoop
  | timeout id running =>
      refine h.settle ends_timedOut (w.timers.erase id) ?_
      intro other hother hne
      exact (List.mem_erase_of_ne hne).mpr hother
  | close => exact h.close
  | finish closed => exact h.other _ w.failed w.buffered w.writer
  | next => exact h.other _ w.failed w.buffered w.writer

theorem Run.inv (h : Run encode decode w) : Inv w := by
  induction h with
  | start => exact .fresh
  | step w after run step ih => exact ih.step step

end Invariant

/-! ### Chunks -/

/-- What comes of bytes that are cut into chunks: none is read behind a malformed line. -/
def Wire.feed (decode : Data → Option JSONValue) (w : Wire) (chunks : List Data) : Wire :=
  chunks.foldl (fun w bytes => if w.failed then w else w.receive decode bytes) w

/-- Two wires differ in unread bytes at most, and in those only behind a malformed line. -/
structure SameOutput (w w' : Wire) : Prop where
  output : { w with buffered := [] } = { w' with buffered := [] }
  buffered : w.failed = false → w.buffered = w'.buffered

/-- What is left of the bytes is a part of one line. -/
def Wire.Quiet (w : Wire) : Prop :=
  w.failed = false → w.buffered.dropWhile (· ≠ 10) = [] ∧ ¬maxLine < w.buffered.length

section Chunks

variable {decode : Data → Option JSONValue} {encode : JSONValue → Except ConnectionError Data}
  {w w' after : Wire} {rest more : Data} {head : UInt8}

theorem deliver_unread (frame : Frame) (more : Data) :
    { w with buffered := more }.deliver frame = { w.deliver frame with buffered := more } := by
  cases frame with
  | response id answer =>
      rw [Wire.deliver, Wire.deliver]
      by_cases hid : id ∈ w.pending
      · have hleft : ({ w with buffered := more }.note (.received id answer)).settle id answer =
          _ := settle_of_mem hid
        have hright : (w.note (.received id answer)).settle id answer = _ := settle_of_mem hid
        rw [hleft, hright]
        rfl
      · have hleft : ({ w with buffered := more }.note (.received id answer)).settle id answer =
          _ := settle_of_not_mem hid
        have hright : (w.note (.received id answer)).settle id answer = _ :=
          settle_of_not_mem hid
        rw [hleft, hright]
        rfl
  | event frame =>
      rw [Wire.deliver, Wire.deliver]
      match w.eventSink.yield frame with
      | (eventSink, .enqueued) => rfl
      | (eventSink, .terminated) => rfl
      | (eventSink, .dropped) => rfl

theorem deliver_behind (frame : Frame) (rest more : Data) :
    { w with buffered := rest ++ more }.deliver frame =
      { { w with buffered := rest }.deliver frame with buffered := rest ++ more } := by
  rw [deliver_unread frame (rest ++ more), deliver_unread frame rest]

theorem receiveLoop_part (h : w.buffered.dropWhile (· ≠ 10) = []) :
    w.receiveLoop decode =
      if maxLine < w.buffered.length then { w with failed := true } else w := by
  rw [Wire.receiveLoop]
  split
  · rfl
  · next hcons => rw [h] at hcons; cases hcons

theorem receiveLoop_line (h : w.buffered.dropWhile (· ≠ 10) = head :: rest) :
    w.receiveLoop decode =
      if maxLine < (w.buffered.takeWhile (· ≠ 10)).length then { w with failed := true }
      else
        match readFrame decode (w.buffered.takeWhile (· ≠ 10)) with
        | none => { w with buffered := rest, failed := true }
        | some frame =>
            if ({ w with buffered := rest }.deliver frame).failed then
              { w with buffered := rest }.deliver frame
            else ({ w with buffered := rest }.deliver frame).receiveLoop decode := by
  rw [Wire.receiveLoop]
  split
  · next hnil => rw [h] at hnil; cases hnil
  · next hcons =>
      cases h.symm.trans hcons
      rfl

theorem takeWhile_more (h : w.buffered.dropWhile (· ≠ 10) = head :: rest) (more : Data) :
    (w.buffered ++ more).takeWhile (· ≠ 10) = w.buffered.takeWhile (· ≠ 10) ∧
    (w.buffered ++ more).dropWhile (· ≠ 10) = head :: (rest ++ more) := by
  have hparts := congrArg List.length (List.takeWhile_append_dropWhile (p := (· ≠ 10))
    (l := w.buffered))
  rw [List.length_append, h, List.length_cons] at hparts
  constructor
  · rw [List.takeWhile_append, if_neg (by omega)]
  · rw [List.dropWhile_append, h]
    rfl

/-- Where a line is too long already, it stays so. -/
theorem receiveLoop_long (h : w.buffered.dropWhile (· ≠ 10) = [])
    (hlong : maxLine < w.buffered.length) (more : Data) :
    { w with buffered := w.buffered ++ more }.receiveLoop decode =
      { w with buffered := w.buffered ++ more, failed := true } := by
  match hdrop : (w.buffered ++ more).dropWhile (· ≠ 10) with
  | [] =>
      rw [receiveLoop_part hdrop, if_pos]
      rw [List.length_append]
      exact Nat.lt_add_right _ hlong
  | head :: rest =>
      have htake := List.takeWhile_append_dropWhile (p := (· ≠ 10)) (l := w.buffered)
      rw [h, List.append_nil] at htake
      rw [receiveLoop_line hdrop, if_pos]
      show maxLine < ((w.buffered ++ more).takeWhile (· ≠ 10)).length
      rw [List.takeWhile_append, htake, if_pos rfl, List.length_append]
      exact Nat.lt_add_right _ hlong

/-- More bytes behind those that are read change nothing of what is read. -/
theorem receiveLoop_more (decode : Data → Option JSONValue) (w : Wire) (more : Data)
    (hopen : w.failed = false) :
    ((w.receiveLoop decode).failed = true → ∃ buffered,
      { w with buffered := w.buffered ++ more }.receiveLoop decode =
        { w.receiveLoop decode with buffered }) ∧
    ((w.receiveLoop decode).failed = false →
      { w with buffered := w.buffered ++ more }.receiveLoop decode =
        { w.receiveLoop decode with
          buffered := (w.receiveLoop decode).buffered ++ more }.receiveLoop decode) := by
  fun_induction Wire.receiveLoop decode w with
  | case1 w hdrop hlong => exact ⟨fun _ => ⟨_, receiveLoop_long hdrop hlong more⟩, nofun⟩
  | case2 w hdrop hshort =>
      constructor
      · intro hfailed
        rw [hopen] at hfailed
        cases hfailed
      · exact fun _ => rfl
  | case3 w head rest hdrop line hlong =>
      obtain ⟨htake, hdrop'⟩ := takeWhile_more hdrop more
      refine ⟨fun _ => ⟨w.buffered ++ more, ?_⟩, nofun⟩
      rw [receiveLoop_line hdrop']
      simp only [htake]
      rw [if_pos hlong]
  | case4 w head rest hdrop line hshort hframe =>
      obtain ⟨htake, hdrop'⟩ := takeWhile_more hdrop more
      refine ⟨fun _ => ⟨rest ++ more, ?_⟩, nofun⟩
      rw [receiveLoop_line hdrop']
      simp only [htake]
      rw [if_neg hshort, hframe]
  | case5 w head rest hdrop line hshort frame hframe after hfailed =>
      obtain ⟨htake, hdrop'⟩ := takeWhile_more hdrop more
      constructor
      · intro _
        refine ⟨rest ++ more, ?_⟩
        rw [receiveLoop_line hdrop']
        simp only [htake]
        rw [if_neg hshort, hframe]
        show (if ({ w with buffered := rest ++ more }.deliver frame).failed = true then _
          else _) = _
        rw [deliver_behind, if_pos hfailed]
      · intro hopen'
        rw [hfailed] at hopen'
        cases hopen'
  | case6 w head rest hdrop line hshort frame hframe after hfailed ih =>
      obtain ⟨htake, hdrop'⟩ := takeWhile_more hdrop more
      have hloop : { w with buffered := w.buffered ++ more }.receiveLoop decode =
          { after with buffered := after.buffered ++ more }.receiveLoop decode := by
        rw [receiveLoop_line hdrop']
        simp only [htake]
        rw [if_neg hshort, hframe, Wire.deliver_buffered]
        show (if ({ w with buffered := rest ++ more }.deliver frame).failed = true then _
          else _) = _
        rw [deliver_behind, if_neg hfailed]
      rw [hloop]
      exact ih (by simpa using hfailed)

theorem receiveLoop_quiet : (w.receiveLoop decode).Quiet := by
  fun_induction Wire.receiveLoop decode w with
  | case1 w hdrop hlong => exact fun hopen => by cases hopen
  | case2 w hdrop hshort => exact fun _ => ⟨hdrop, hshort⟩
  | case3 w head rest hdrop line hlong => exact fun hopen => by cases hopen
  | case4 w head rest hdrop line hshort hframe => exact fun hopen => by cases hopen
  | case5 w head rest hdrop line hshort frame hframe after hfailed =>
      intro hopen
      rw [hfailed] at hopen
      cases hopen
  | case6 w head rest hdrop line hshort frame hframe after hfailed ih => exact ih

theorem receive_quiet (w : Wire) (more : Data) : (w.receive decode more).Quiet :=
  receiveLoop_quiet

theorem Wire.Quiet.receive_nil (h : w.Quiet) (hopen : w.failed = false) :
    w.receive decode [] = w := by
  obtain ⟨hdrop, hshort⟩ := h hopen
  rw [Wire.receive]
  simp only [List.append_nil]
  rw [receiveLoop_part hdrop, if_neg hshort]

theorem feed_failed (hfailed : w.failed = true) (chunks : List Data) :
    w.feed decode chunks = w := by
  induction chunks with
  | nil => rfl
  | cons bytes chunks ih =>
      rw [Wire.feed, List.foldl_cons, if_pos hfailed]
      exact ih

/-- Chunks come to what all of their bytes at once come to. -/
theorem feed_flatten (decode : Data → Option JSONValue) (h : w.Quiet) (hopen : w.failed = false)
    (chunks : List Data) :
    SameOutput (w.feed decode chunks) (w.receive decode chunks.flatten) := by
  induction chunks generalizing w with
  | nil =>
      rw [List.flatten_nil, h.receive_nil hopen]
      exact ⟨rfl, fun _ => rfl⟩
  | cons bytes chunks ih =>
      obtain ⟨hstopped, hgoes⟩ := receiveLoop_more decode { w with
        buffered := w.buffered ++ bytes } chunks.flatten hopen
      have hwhole : w.receive decode (bytes :: chunks).flatten =
          { w with buffered := w.buffered ++ bytes ++ chunks.flatten }.receiveLoop decode := by
        rw [Wire.receive, List.flatten_cons, List.append_assoc]
      have hfeed : w.feed decode (bytes :: chunks) =
          (w.receive decode bytes).feed decode chunks := by
        rw [Wire.feed, List.foldl_cons, if_neg (by simp [hopen])]
        rfl
      rw [hfeed, hwhole]
      cases hfailed : (w.receive decode bytes).failed with
      | true =>
          obtain ⟨buffered, hbuffered⟩ := hstopped hfailed
          rw [feed_failed hfailed]
          refine ⟨?_, ?_⟩
          · exact (congrArg (fun w : Wire => { w with buffered := [] }) hbuffered).symm
          · intro hopen'
            rw [hfailed] at hopen'
            cases hopen'
      | false =>
          have hrest := hgoes hfailed
          have hsame := ih (receive_quiet w bytes) hfailed
          exact hrest ▸ hsame

theorem SameOutput.trans_symm (h : SameOutput w after) (h' : SameOutput w' after) :
    SameOutput w w' := by
  refine ⟨h.output.trans h'.output.symm, ?_⟩
  intro hopen
  have houtput := congrArg Wire.failed (h.output.trans h'.output.symm)
  have hfailed : w.failed = w'.failed := houtput
  rw [h.buffered hopen, h'.buffered (hfailed ▸ hopen)]

theorem Wire.close_unread : w.close.buffered = w.buffered ∧ w.close.failed = w.failed := by
  rw [close]
  split <;> exact ⟨rfl, rfl⟩

theorem Wire.Quiet.same (h : w.Quiet) (hbuffered : after.buffered = w.buffered)
    (hfailed : after.failed = w.failed) : after.Quiet := by
  intro hopen
  rw [hbuffered]
  exact h (hfailed ▸ hopen)

theorem Run.quiet (h : Run encode decode w) : w.Quiet := by
  induction h with
  | start => exact fun _ => ⟨rfl, by decide⟩
  | step w after run step ih =>
      cases step with
      | setWriter => exact ih.same rfl rfl
      | request id method params after new queued =>
          obtain ⟨-, bytes, -, rfl⟩ := request_ok queued
          exact ih.same rfl rfl
      | drain k running =>
          rw [Wire.drainOutbound]
          split
          · exact ih.same rfl rfl
          · split <;> exact ih.same rfl rfl
      | written k suspended => exact ih.same rfl rfl
      | writeFailed k suspended => exact ih.same Wire.close_unread.1 Wire.close_unread.2
      | returned k closing => exact ih.same rfl rfl
      | receive bytes reading => exact receive_quiet w bytes
      | timeout id running =>
          rw [Wire.settle]
          split <;> exact ih.same rfl rfl
      | close => exact ih.same Wire.close_unread.1 Wire.close_unread.2
      | finish closed => exact ih.same rfl rfl
      | next => exact ih.same rfl rfl

end Chunks

/-- In every run: frames go to the channel in the order of the calls, each at most once, while its
caller waits and before the wire is closed, one write at a time; a caller has the answer that its
first response, its timer or the end of the wire gives it, and until then the timer runs on an open
wire; and from every state on, the same bytes in other chunks do the same. -/
theorem dispatched_and_answered_once (encode : JSONValue → Except ConnectionError Data)
    (decode : Data → Option JSONValue) (w : Wire) (hrun : Run encode decode w) :
    ((w.log.filterMap Entry.handed?).Sublist (w.log.filterMap Entry.called?) ∧
      ((w.log.filterMap Entry.handed?).map Prod.fst).Nodup ∧
      ((w.log.filterMap Entry.called?).map Prod.fst).Nodup ∧
      (∀ before id bytes, before ++ [.handed id bytes] <+: w.log →
        call id before = .waiting ∧ .closed ∉ before) ∧
      w.drains.length ≤ 1) ∧
    ((∀ id, w.answersTo id = (call id w.log).answers) ∧
      ∀ id bytes, .called id bytes ∈ w.log →
        (∃ answer, w.answersTo id = [answer]) ∨
          w.answersTo id = [] ∧ id ∈ w.timers ∧ w.closed = false) ∧
    ∀ chunks chunks' : List Data, w.failed = false → chunks.flatten = chunks'.flatten →
      SameOutput (w.feed decode chunks) (w.feed decode chunks') := by
  have hinv := hrun.inv
  have hqueue := (List.sublist_append_left _ w.outbound).trans hinv.queue
  refine ⟨⟨hqueue, (hqueue.map Prod.fst).nodup hinv.calls, hinv.calls, hinv.handed, ?_⟩,
    ⟨hinv.answers, ?_⟩, ?_⟩
  · rw [hinv.drains]
    exact Bool.toNat_le _
  · intro id bytes hcalled
    rw [hinv.answers]
    cases hcall : call id w.log with
    | unknown => exact absurd hcalled (call_unknown.mp hcall bytes)
    | answered answer => exact .inl ⟨answer, rfl⟩
    | waiting =>
        have hpending := (hinv.pending id).mpr hcall
        refine .inr ⟨rfl, hinv.timers id hpending, ?_⟩
        cases hclosed : w.closed with
        | false => rfl
        | true =>
            rw [(hinv.ended hclosed).1] at hpending
            cases hpending
  · intro chunks chunks' hopen hsame
    have hflatten := feed_flatten decode hrun.quiet hopen chunks
    have hflatten' := feed_flatten decode hrun.quiet hopen chunks'
    rw [← hsame] at hflatten'
    exact hflatten.trans_symm hflatten'

/-! ### One call -/

def sampleBytes : Data :=
  ("\x7b\x22v\x22:1,\x22id\x22:\x22A\x22,\x22method\x22:\x22nodes\x22," ++
    "\x22params\x22:\x7b\x7d\x7d").toList.map fun ch => ch.val.toUInt8

def sampleWire : Wire :=
  ({ Wire.fresh with writer := true }.queue "A" (sampleBytes ++ [10])).drainOutbound 0

theorem dispatched_and_answered_once_sample :
    (sampleWire.log.filterMap Entry.handed?).Sublist (sampleWire.log.filterMap Entry.called?) ∧
    ((∃ answer, sampleWire.answersTo "A" = [answer]) ∨ sampleWire.answersTo "A" = [] ∧
      "A" ∈ sampleWire.timers ∧ sampleWire.closed = false) := by
  have hwriter : Run (fun _ => .ok sampleBytes) (fun _ => none)
      { Wire.fresh with writer := true } := .step _ _ .start .setWriter
  have hqueued : Run (fun _ => .ok sampleBytes) (fun _ => none)
      ({ Wire.fresh with writer := true }.queue "A" (sampleBytes ++ [10])) :=
    .step _ _ hwriter (.request "A" "nodes" (.object []) _ (by simp [Wire.fresh]) rfl)
  have hrun : Run (fun _ => .ok sampleBytes) (fun _ => none) sampleWire :=
    .step _ _ hqueued (.drain 0 rfl)
  obtain ⟨⟨hqueue, -⟩, ⟨-, hanswered⟩, -⟩ := dispatched_and_answered_once _ _ _ hrun
  exact ⟨hqueue, hanswered "A" (sampleBytes ++ [10]) (List.mem_cons_self ..)⟩

end Pikamux.Mobile.SSHWire
