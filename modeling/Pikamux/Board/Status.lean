import Pikamux.Model
import Pikamux.Support.Newest

/-!
# Board — Status

`status.rs`: what a session shows, from what has been observed of it.  Times are only compared.
-/

namespace Pikamux.Board

open Support

inductive ObservationKind where
  | lifecycle
  | runtime
  | safety
  deriving DecidableEq, Repr

/-- `observation_kind_str`. -/
def ObservationKind.text : ObservationKind → String
  | lifecycle => "lifecycle"
  | runtime => "runtime"
  | safety => "safety"

structure StatusObservation where
  kind : ObservationKind
  status : Status
  unread : Bool
  attentionReason : Option String := none
  error : Option String := none
  observedAt : Int
  source : String
  deriving DecidableEq, Repr

structure StatusProjection where
  status : Status
  unread : Bool
  attentionReason : Option String
  error : Option String
  observedAt : Int
  source : String
  kind : String
  rule : String
  deriving DecidableEq, Repr

structure ProjectionFallback where
  status : Status := .parked
  unread : Bool := false
  attentionReason : Option String := none
  error : Option String := none
  observedAt : Int := 0

def fromObservation (item : StatusObservation) (status : Status) (unread : Bool) (rule : String) :
    StatusProjection where
  status
  unread
  attentionReason := item.attentionReason
  error := item.error
  observedAt := item.observedAt
  source := item.source
  kind := item.kind.text
  rule

def normalized (item : StatusObservation) (status : Status) (rule : String) : StatusProjection :=
  { fromObservation item status false rule with attentionReason := none, error := none }

def synthetic (status : Status) (unread : Bool) (observedAt : Int) (source kind rule : String) :
    StatusProjection where
  status
  unread
  attentionReason := none
  error := none
  observedAt
  source
  kind
  rule

/-- The last of the newest observations of a kind. -/
def newestOf (kind : ObservationKind) (observations : List StatusObservation) :
    Option StatusObservation :=
  newest StatusObservation.observedAt none (observations.filter fun item => item.kind = kind)

/-- What the lifecycle says, if it says anything. -/
def projectLifecycle (item : StatusObservation) (live : Bool) : Option StatusProjection :=
  match item.status with
  | .needsYou | .error => some (fromObservation item item.status item.unread "lifecycle")
  | .openTwice => none
  | .working =>
      if live then some (fromObservation item item.status item.unread "lifecycle")
      else some (normalized item .parked "working_process_gone")
  | .ready =>
      if live || item.unread then some (fromObservation item item.status item.unread "lifecycle")
      else some (normalized item .parked "completed_and_collected_process_gone")
  | .parked => some (fromObservation item .parked false "lifecycle")
  | .starting | .unbound => none

/-- Without safety, runtime or lifecycle. -/
def projectProcess (live : Bool) (homeState : String) (fallback : ProjectionFallback) :
    StatusProjection :=
  if homeState = "unbound" then
    synthetic .unbound false fallback.observedAt "ownership" "ownership" "unbound_without_lifecycle"
  else if live then
    synthetic .ready false fallback.observedAt "process" "runtime" "live_without_turn_evidence"
  else if fallback.status ∈ [.needsYou, .ready, .error] then
    { status := fallback.status
      unread := fallback.unread
      attentionReason := fallback.attentionReason
      error := fallback.error
      observedAt := fallback.observedAt
      source := "legacy"
      kind := "legacy"
      rule := "legacy_observation" }
  else synthetic .parked false fallback.observedAt "process" "runtime" "no_live_process"

def projectStatus (observations : List StatusObservation) (live : Bool) (homeState : String)
    (fallback : ProjectionFallback) : StatusProjection :=
  let safety := (newestOf .safety observations).filter fun item =>
    item.status ∈ [.openTwice, .error]
  let runtime := (newestOf .runtime observations).filter fun item =>
    !live && item.status ∈ [.error, .openTwice]
  match safety with
  | some item => fromObservation item item.status item.unread "safety_precedence"
  | none =>
      if homeState = "open_twice" then
        synthetic .openTwice true fallback.observedAt "ownership" "safety"
          "duplicate_owner_without_safety_observation"
      else
        match runtime with
        | some item =>
            fromObservation item item.status item.unread "runtime_failure_without_live_process"
        | none =>
            (newestOf .lifecycle observations).bind (projectLifecycle · live) |>.getD
              (projectProcess live homeState fallback)

end Pikamux.Board
