import Pikamux.Support.History
import Pikamux.Support.Integers
import Pikamux.Support.Result
import Pikamux.Support.Table

/-!
# Assistant — Retention

`assistant_retention.rs`: after a forget advances the epoch of memory, what was derived from memory
is scrubbed from the databases named here, one transaction a database, and the marker is written
last.  A revoked scope is cleaned up the same way but keeps permissions and tools.

Cleanups of several processes run at the same time, and each may end after any of its steps; so a
cleanup is a task with the steps it still has to take.
-/

namespace Pikamux.Retention

open Support

inductive Cell where
  | null
  | int (n : Int)
  | text (s : String)
  deriving DecidableEq, Repr, Inhabited

/-- The columns of a row. -/
abbrev Row := List (String × Cell)

def Row.get (row : Row) (column : String) : Cell := (row.lookup column).getD .null

def Row.set (row : Row) (column : String) (f : Cell → Cell) : Row :=
  row.map fun (name, cell) => (name, if name = column then f cell else cell)

structure Database where
  tables : Table String (List Row) := ∅

/-- A statement: how many rows it changed, and the database after it. -/
abbrev Statement := Database → Nat × Database

/-- Statements one after the other. -/
def sequence (statements : List Statement) : Statement := fun db =>
  loop statements (0, db) fun (changed, db) statement =>
    (changed + (statement db).1, (statement db).2)

def executeIfPresent (table : String) (f : List Row → Nat × List Row) : Statement := fun db =>
  match db.tables.get? table with
  | none => (0, db)
  | some rows => ((f rows).1, { db with tables := db.tables.modify table fun rows => (f rows).2 })

/-- `DELETE FROM`. -/
def deleteAll (rows : List Row) : Nat × List Row := (rows.length, [])

/-- `UPDATE … WHERE`. -/
def update (p : Row → Bool) (f : Row → Row) (rows : List Row) : Nat × List Row :=
  (rows.countP p, rows.map fun row => if p row then f row else row)

/-- `id=1`. -/
def firstRow (row : Row) : Bool := row.get "id" = .int 1

/-- `MAX(cell, epoch)`. -/
def maxEpoch (epoch : Nat) : Cell → Cell
  | .int n => .int (max n epoch)
  | cell => cell

def assign (values : List (String × Cell)) (row : Row) : Row :=
  loop values row fun row (column, cell) => row.set column fun _ => cell

/-! ### Scrubs -/

def scrubPresentationTables : Statement :=
  sequence (["assistant_briefing_cache", "assistant_briefing_cursors",
    "assistant_briefing_pages"].map fun table => executeIfPresent table deleteAll)

/-- The revocations of the saved board grants, queued before the grants are deleted. -/
def queueRevocations : Statement := fun db =>
  match db.tables.get? "assistant_board_shares" with
  | none => (0, db)
  | some shares =>
      let revocations := (db.tables.get? "assistant_board_revocations").getD []
      let new := loop shares [] fun (new : List Row) share =>
        if (revocations ++ new).any fun row => row.get "scope" = share.get "scope" then new
        else new ++ [[("scope", share.get "scope"), ("epoch", .null)]]
      match db.tables.insert? "assistant_board_revocations" new with
      | some tables => (new.length, { db with tables })
      | none => (new.length, { db with
          tables := db.tables.modify "assistant_board_revocations" fun rows => rows ++ new })

def scrubDerivedTables (epoch : Nat) (scrubPermissions : Bool) : Statement :=
  sequence [scrubPresentationTables,
    if scrubPermissions then queueRevocations else fun db => (0, db),
    executeIfPresent "assistant_control" (update firstRow (assign [("context_blocked", .int 1)])),
    -- rows and receipts stay, replay becomes impossible
    executeIfPresent "assistant_runtime_turns" (update (fun _ => true) (assign
      [("prompt", .text ""), ("reply", .text ""), ("dependencies", .text "[]"),
        ("state", .text "unknown")])),
    executeIfPresent "assistant_runtime_guard" (update firstRow (assign [("blocked", .int 1)])),
    executeIfPresent "assistant_runtime_epoch" (update firstRow fun row =>
      row.set "epoch" (maxEpoch epoch)),
    executeIfPresent "investigation_jobs" (update (fun _ => true) fun row =>
      (assign [("task_json", .text ""), ("finding", .null), ("state", .text "unknown")] row).set
        "forget_epoch" (maxEpoch epoch)),
    executeIfPresent "investigation_roots" (update (fun _ => true) (assign
      [("state", .text "unknown")]))]

/-- The tables a full scrub empties; a scoped one empties the first of them only. -/
def deletedTables : List String :=
  ["assistant_evolution_pending", "consultation_permissions", "assistant_board_shares",
    "assistant_lifetime", "tool_assessments", "tool_observations", "tool_retirements",
    "learning_uses", "learning_candidates", "learning_hypotheses", "tool_comparisons",
    "tool_activations", "tool_grants", "tool_evaluations", "candidate_required_suites",
    "tool_candidates", "protected_suites"]

def scrubDatabase (epoch : Nat) (scrubPermissions : Bool) : Statement :=
  sequence (scrubDerivedTables epoch scrubPermissions ::
    (deletedTables.filter fun table =>
      scrubPermissions || table = "assistant_evolution_pending").map fun table =>
        executeIfPresent table deleteAll)

def scrubPresentationOnly : Statement := scrubPresentationTables

def scrubObservations : Statement := executeIfPresent "tool_observations" deleteAll

def scrubKnown (path : String) (epoch : Nat) (scrubPermissions : Bool) : Statement :=
  if !scrubPermissions && path = "owner.sqlite" then scrubPresentationOnly
  else if !scrubPermissions && path = "workshop.sqlite" then scrubObservations
  else scrubDatabase epoch scrubPermissions

/-- The databases under the root that a cleanup scrubs, in order. -/
def known : List String :=
  ["runtime.sqlite", "author-runtime.sqlite", "maintenance-runtime.sqlite", "learning.sqlite",
    "investigation.sqlite", "workshop.sqlite", "consultation-permissions.sqlite", "owner.sqlite"]

/-! ### Cleanups -/

inductive Action where
  | scrub (path : String)
  | writeEpoch
  | writeFormat
  deriving DecidableEq, Repr

/-- The steps of a cleanup.  The marker is written last. -/
def plan : List Action := known.map .scrub ++ [.writeEpoch, .writeFormat]

structure CleanupReport where
  epoch : Nat
  databases : List String := []
  changed : Nat := 0
  deriving DecidableEq, Repr

/-- A cleanup under way. -/
structure Task where
  epoch : Nat
  scrubPermissions : Bool
  todo : List Action
  report : CleanupReport

inductive RetentionError where
  | unsafePath (path : String)
  deriving DecidableEq, Repr

structure State where
  /-- The epoch of memory. -/
  forgetEpoch : Nat := 0
  /-- `retention_meta`. -/
  marker : Option Int := none
  /-- `retention_format`. -/
  format : Option Nat := none
  files : String → Option Database := fun _ => none
  tasks : List Task := []

instance : Inhabited State := ⟨{}⟩

def previousEpoch (s : State) : Except RetentionError (Option Nat) :=
  if s.format = some 2 then
    if s.marker.getD 0 < 0 then .error (.unsafePath "invalid retention epoch")
    else .ok (some (s.marker.getD 0).toNat)
  else .ok none

/-- The start of `cleanup_inner`, which reads the marker. -/
def cleanupInner (epoch : Nat) (scrubPermissions : Bool) (s : State) :
    Except RetentionError (Option CleanupReport × State) := do
  if epoch = 0 then return (some { epoch }, s)
  let previous ← previousEpoch s
  if previous.any fun value => epoch ≤ value then return (some { epoch }, s)
  return (none, { s with tasks := s.tasks ++ [⟨epoch, scrubPermissions, plan, { epoch }⟩] })

/-- The marker after `INSERT … ON CONFLICT DO UPDATE SET epoch=MAX(epoch,excluded.epoch)`. -/
def raised (marker : Option Int) (epoch : Nat) : Int :=
  match marker with
  | none => asInt epoch
  | some old => max old (asInt epoch)

/-- One step of a cleanup. -/
def Action.run (task : Task) (s : State) : Action → CleanupReport × State
  | scrub path =>
      match s.files path with
      | none => (task.report, s)
      | some db =>
          let (count, db') := scrubKnown path task.epoch task.scrubPermissions db
          ({ task.report with
              databases := task.report.databases ++ [path]
              changed := task.report.changed + count },
            { s with files := fun other => if other = path then some db' else s.files other })
  | writeEpoch =>
      (task.report, { s with marker := some (raised s.marker task.epoch) })
  | writeFormat => (task.report, { s with format := some 2 })

/-- Task `i` takes its next step; after the last it returns its report. -/
def advance (i : Nat) (s : State) : Option CleanupReport × State :=
  match s.tasks[i]? with
  | none => (none, s)
  | some task =>
      match task.todo with
      | [] => (some task.report, { s with tasks := s.tasks.eraseIdx i })
      | action :: todo =>
          let (report, s) := action.run task s
          (none, { s with tasks := s.tasks.set i { task with todo, report } })

/-! ### Calls -/

inductive Call where
  /-- `Store::forget` of a record that is there or not. -/
  | forget (found : Bool)
  /-- `Store::forget_worker_scope` with an exact project or without. -/
  | forgetWorkerScope (exactProject : Bool)
  /-- `cleanup` or `cleanup_revoked_context`, with an epoch read from memory. -/
  | cleanup (epoch : Nat) (scrubPermissions : Bool)
  | advance (i : Nat)
  /-- A crash, or an error, ends a cleanup. -/
  | crash (i : Nat)

inductive Reply where
  | epoch (e : Nat)
  | refused
  | report (report : CleanupReport)
  | failed (error : RetentionError)
  | running
  deriving DecidableEq, Repr

/-- The transaction that advances the epoch of memory. -/
def nextForgetEpoch (allowed : Bool) (s : State) : Reply × State :=
  match if allowed then checkedSucc s.forgetEpoch else none with
  | some epoch => (.epoch epoch, { s with forgetEpoch := epoch })
  | none => (.refused, s)

def replyOf : Option CleanupReport → Reply
  | some report => .report report
  | none => .running

def Call.perform : Call → State → Reply × State
  | forget found, s => nextForgetEpoch found s
  | forgetWorkerScope exactProject, s => nextForgetEpoch exactProject s
  | cleanup epoch scrubPermissions, s =>
      match cleanupInner epoch scrubPermissions s with
      | .ok (report, s') => (replyOf report, s')
      | .error e => (.failed e, s)
  | advance i, s => (replyOf (Retention.advance i s).1, (Retention.advance i s).2)
  | crash i, s => (.running, { s with tasks := s.tasks.eraseIdx i })

/-- Others change databases, but neither memory's epoch, the marker nor the cleanups. -/
def Elsewhere (s s' : State) : Prop := s' = { s with files := s'.files }

end Pikamux.Retention
