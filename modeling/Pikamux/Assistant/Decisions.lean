import Pikamux.Assistant.Memory
import Pikamux.Support.Program

/-!
# Assistant — Decisions

`assistant_decisions.rs`: a person records a decision, changes its state or its words, and reports on
commitments.  Each of these reads the record it follows and appends a revision of it; reads and the
append are separate, so other clients may append in between.

What `serde_json` reads from and prints to a text is a `Wording`.
-/

namespace Pikamux.Decisions

open Support Support.Program Memory

inductive Completion where
  | «open»
  | humanReported (statement : String)
  | receiptConfirmed (receiptRecordId : String)
  deriving DecidableEq, Repr

structure Commitment where
  schema : Nat
  commitment : String
  condition : String
  dueAt : Option Int
  completion : Completion
  deriving DecidableEq, Repr

/-- `assistant_briefing::Decision`. -/
structure Decision where
  chosen : String
  rationale : String
  rejected : List String := []
  owner : String
  openQuestions : List String := []
  commitments : List String := []
  deriving DecidableEq, Repr

structure CommitmentExecutionReceipt where
  schema : Nat
  commitmentId : String
  operationId : String
  succeeded : Bool
  deriving DecidableEq, Repr

/-- Authorship and the actor of a transition are different facts. -/
structure RevisionProvenance where
  schema : Nat
  action : String
  actor : Origin
  sourceRecordId : String
  sourceOrigin : Origin
  rationaleAuthor : Origin
  /-- None when the words are new in this record; otherwise the record they are from. -/
  rationaleSourceRecordId : Option String
  semanticKind : Option RecordKind
  deriving DecidableEq, Repr

structure Wording where
  readProvenance : String → Option RevisionProvenance
  printProvenance : RevisionProvenance → String
  readCommitment : String → Option Commitment
  printCommitment : Commitment → String
  printDecision : Decision → String
  readReceipt : String → Except MemoryError CommitmentExecutionReceipt

/-- What is known of `serde_json`: a printed provenance is read back.  The schema is a `u8`. -/
def Wording.Faithful (w : Wording) : Prop :=
  ∀ p, p.schema < 256 → w.readProvenance (w.printProvenance p) = some p

/-- Steps on the memory database; a transaction is given the identifier for a new record. -/
abbrev Action (α : Type) := Fallible String Store MemoryError α

def commitment (w : Wording) (text : String) : Option Commitment :=
  (w.readCommitment text).filter fun c => c.schema = 1

def revisionProvenance (w : Wording) (text : String) : Option RevisionProvenance :=
  (w.readProvenance text).filter fun p => p.schema = 1

def recordProvenance (w : Wording) (record : Record) : Option RevisionProvenance :=
  (revisionProvenance w record.provenance).filter fun p =>
    record.origin = .human && p.actor = .human && record.supersedes = some p.sourceRecordId

def human (origin : Origin) : Except MemoryError Unit :=
  ensure (origin = .human) .workerCannotAssumeUserAuthority

def boundedBody (body : String) : Except MemoryError Unit :=
  ensure (!body.toList.all Channel.isWhitespace && body.utf8ByteSize ≤ 16 * 1024)
    (.invalid "decision or correction must contain 1–16384 bytes")

/-! ### Reading -/

/-- `Store::get`. -/
def get (store : Store) (id : String) : Option Record :=
  (store.records.get? id).map fun row => { row.record with id }

def predecessor (scope : Scope) (id : String) : Action Record := do
  let record ← query fun store => context (.notFound id) (get store id)
  require (record.scope = scope && !record.protectedPolicy)
    (.invalid "revision requires the exact original scope and an unprotected record")
  return record

def decisionPredecessor (scope : Scope) (id : String) : Action Record := do
  let record ← predecessor scope id
  require (record.kind = .decision) (.invalid "record is not a decision")
  require (record.decisionState ≠ some .superseded)
    (.invalid "a superseded decision is historical; create a new decision instead")
  return record

/-- `Store::get_active`, in two reads. -/
def getActive (id : String) : Action (Option Record) := do
  let superseded ← query fun store => .ok (hasSuccessor store id)
  if superseded then return none
  query fun store => .ok (get store id)

def validateExecutionReceipt (w : Wording) (scope : Scope) (id receiptId : String) :
    Action Unit := do
  let found ← getActive receiptId
  let evidence ← expect (.notFound receiptId) found
  let receipt ← check (w.readReceipt evidence.body)
  require (evidence.origin = .system && evidence.kind = .finding && evidence.scope = scope &&
    receipt.schema = 1 && receipt.commitmentId = id && receipt.succeeded)
    (.invalid "execution confirmation requires an exact successful native receipt")
  check (boundedBody receipt.operationId)

/-- Ancestry without bodies; of a provenance only its start. -/
structure RecordLineage where
  id : String
  kind : RecordKind
  origin : Origin
  scope : Scope
  supersedes : Option String
  provenance : String
  deriving DecidableEq, Repr

def lineageOf (record : Record) : RecordLineage where
  id := record.id
  kind := record.kind
  origin := record.origin
  scope := record.scope
  supersedes := record.supersedes
  provenance := record.provenance

/-- `Store::lineage`. -/
def lineage (store : Store) (id : String) : Option RecordLineage :=
  (get store id).map fun record =>
    { lineageOf record with provenance := String.ofList (record.provenance.toList.take 16384) }

/-- What the lineage itself says of its kind. -/
def ownSemanticKind (w : Wording) (scope : Scope) (current : RecordLineage) :
    Option (Option RecordKind) :=
  if current.scope ≠ scope then some none
  else if current.kind ≠ .correction then
    some (if current.kind ≠ .userInstruction || current.origin = .human then some current.kind
      else none)
  else if current.origin ≠ .human then some none
  else
    match ((revisionProvenance w current.provenance).filter fun p =>
        p.actor = .human && current.supersedes = some p.sourceRecordId).bind (·.semanticKind) with
    | some kind => some (some kind)
    | none => none

/-- The loop of `assistant_briefing::semantic_kind`, with the turns and the budget that are left. -/
def semanticKindFrom (w : Wording) (scope : Scope) : Nat → Nat → RecordLineage →
    Action (Option RecordKind)
  | 0, _, _ => return none
  | turns + 1, budget, current =>
      match ownSemanticKind w scope current with
      | some kind => return kind
      | none =>
          match current.supersedes with
          | none => return none
          | some id =>
              if budget = 0 then return none
              else do
                let found ← query fun store => .ok (lineage store id)
                match found with
                | none => return none
                | some parent => semanticKindFrom w scope turns (budget - 1) parent

def semanticKind (w : Wording) (record : Record) (budget : Nat) : Action (Option RecordKind) :=
  semanticKindFrom w record.scope 129 budget (lineageOf record)

/-! ### Revisions -/

/-- The dependencies of a revision: those of the record and the record itself. -/
def revisionDependencies (record : Record) : List String :=
  if record.dependencies.contains record.id then record.dependencies
  else if record.dependencies.length = 64 then [record.id]
  else record.dependencies ++ [record.id]

def revisionOf (w : Wording) (record : Record) (body : String) (timestamp : Int) (action : String)
    (changedWords : Bool) : NewRecord :=
  let previous := recordProvenance w record
  { kind := record.kind
    origin := .human
    scope := record.scope
    body
    provenance := w.printProvenance
      { schema := 1
        action
        actor := .human
        sourceRecordId := record.id
        sourceOrigin := record.origin
        rationaleAuthor :=
          if changedWords then .human else (previous.map (·.rationaleAuthor)).getD record.origin
        rationaleSourceRecordId :=
          if changedWords then none
          else some ((previous.bind (·.rationaleSourceRecordId)).getD record.id)
        semanticKind :=
          if record.kind = .correction then previous.bind (·.semanticKind) else some record.kind }
    timestamp
    supersedes := some record.id
    dependencies := revisionDependencies record
    decisionState := record.decisionState
    protectedPolicy := false }

/-- The transaction of `append_revision_idempotent`. -/
def commitRevision (lib : Library) (requestId : String) (input : NewRecord) : Action Record :=
  transaction fun id store => appendRevisionIdempotent lib requestId id input store

/-! ### The requests of a person -/

def create (w : Wording) (lib : Library) (requestId : String) (origin : Origin) (scope : Scope)
    (body : String) (state : DecisionState) (timestamp : Int) : Action Record := do
  check (human origin)
  check (boundedBody body)
  require (commitment w body).isNone
    (.invalid "structured commitments require the proposal and explicit transition path")
  require (state ≠ .superseded)
    (.invalid "superseded requires an existing decision; use a state transition")
  transaction fun id store => appendIdempotent lib requestId id
    { kind := .decision
      origin
      scope
      body
      provenance := "explicit human decision; not an execution receipt or authority grant"
      timestamp
      decisionState := some state } store

def transition (w : Wording) (lib : Library) (requestId : String) (origin : Origin) (scope : Scope)
    (recordId : String) (state : DecisionState) (timestamp : Int) : Action Record := do
  check (human origin)
  let record ← decisionPredecessor scope recordId
  commitRevision lib requestId
    { revisionOf w record record.body timestamp "explicit human decision state transition" false with
      decisionState := some state }

def revise (w : Wording) (lib : Library) (requestId : String) (origin : Origin) (scope : Scope)
    (recordId : String) (decision : Decision) (timestamp : Int) : Action Record := do
  check (human origin)
  let record ← decisionPredecessor scope recordId
  require (commitment w record.body).isNone
    (.invalid "use commitment controls to preserve its condition and completion evidence")
  check (boundedBody (w.printDecision decision))
  commitRevision lib requestId
    (revisionOf w record (w.printDecision decision) timestamp
      "explicit human structured decision revision" true)

/-- An instruction that is corrected becomes a correction. -/
def correctedKind (kind : RecordKind) : RecordKind :=
  if kind = .userInstruction then .correction else kind

def withSemanticKind (w : Wording) (provenance : String) (kind : Option RecordKind) : String :=
  match revisionProvenance w provenance with
  | some p => w.printProvenance { p with semanticKind := kind }
  | none => provenance

def correct (w : Wording) (lib : Library) (requestId : String) (origin : Origin) (scope : Scope)
    (recordId body : String) (timestamp : Int) : Action Record := do
  check (human origin)
  check (boundedBody body)
  let record ← predecessor scope recordId
  require (record.kind ≠ .decision)
    (.invalid ("use /decision-revise-json " ++ recordId ++
      " with the complete decision JSON to preserve its state and reasoning; use /decision-state " ++
      recordId ++ " STATE to change only its state"))
  let kind ← semanticKind w record 128
  let input := revisionOf w record body timestamp "explicit human correction of saved wording" true
  commitRevision lib requestId
    { input with
      kind := correctedKind input.kind
      provenance := withSemanticKind w input.provenance kind }

def updateCommitment (w : Wording) (lib : Library) (requestId : String) (origin : Origin)
    (scope : Scope) (id : String) (timestamp : Int)
    (change : Commitment → Except MemoryError Commitment) : Action Record := do
  check (human origin)
  let record ← decisionPredecessor scope id
  let value ← expect (.invalid "record is not a structured commitment") (commitment w record.body)
  let value ← check (change value)
  commitRevision lib requestId
    (revisionOf w record (w.printCommitment value) timestamp
      "explicit human commitment update; wording retains original authorship" false)

def setCommitmentDue (w : Wording) (lib : Library) (requestId : String) (origin : Origin)
    (scope : Scope) (id : String) (dueAt timestamp : Int) : Action Record := do
  require (!(dueAt < timestamp || dueAt > min (timestamp + 365 * 24 * 60 * 60) maxInt))
    (.invalid "commitment due time must be within the next year")
  let record ← decisionPredecessor scope id
  require (record.decisionState = some .accepted || record.decisionState = some .deferred)
    (.invalid "only accepted or deferred commitments can be scheduled")
  updateCommitment w lib requestId origin scope id timestamp fun value => do
    ensure (value.completion = .open) (.invalid "completed commitments cannot be scheduled")
    return { value with dueAt := some dueAt }

def reportCommitmentCompletion (w : Wording) (lib : Library) (requestId : String) (origin : Origin)
    (scope : Scope) (id statement : String) (timestamp : Int) : Action Record := do
  check (boundedBody statement)
  updateCommitment w lib requestId origin scope id timestamp fun value =>
    .ok { value with completion := .humanReported statement }

/-- The receipt is one more dependency. -/
def receiptDependencies (dependencies : List String) (id receiptId : String) : List String :=
  (if dependencies.length = 64 then [id] else dependencies) ++ [receiptId]

def confirmCommitmentExecution (w : Wording) (lib : Library) (requestId : String) (origin : Origin)
    (scope : Scope) (id receiptId : String) (timestamp : Int) : Action Record := do
  check (human origin)
  validateExecutionReceipt w scope id receiptId
  let record ← decisionPredecessor scope id
  let value ← expect (.invalid "record is not a structured commitment") (commitment w record.body)
  let input := revisionOf w record
    (w.printCommitment { value with completion := .receiptConfirmed receiptId }) timestamp
    "human associated verified native execution receipt" false
  commitRevision lib requestId
    { input with dependencies := receiptDependencies input.dependencies id receiptId }

/-! ### Calls -/

inductive Call where
  | create (requestId : String) (origin : Origin) (scope : Scope) (body : String)
      (state : DecisionState) (timestamp : Int)
  | transition (requestId : String) (origin : Origin) (scope : Scope) (recordId : String)
      (state : DecisionState) (timestamp : Int)
  | revise (requestId : String) (origin : Origin) (scope : Scope) (recordId : String)
      (decision : Decision) (timestamp : Int)
  | correct (requestId : String) (origin : Origin) (scope : Scope) (recordId body : String)
      (timestamp : Int)
  | setCommitmentDue (requestId : String) (origin : Origin) (scope : Scope) (id : String)
      (dueAt timestamp : Int)
  | reportCommitmentCompletion (requestId : String) (origin : Origin) (scope : Scope)
      (id statement : String) (timestamp : Int)
  | confirmCommitmentExecution (requestId : String) (origin : Origin) (scope : Scope)
      (id receiptId : String) (timestamp : Int)
  deriving DecidableEq, Repr

abbrev Result := Except MemoryError Record

def Call.code (w : Wording) (lib : Library) : Call → Program String Store Result
  | create requestId origin scope body state timestamp =>
      (Decisions.create w lib requestId origin scope body state timestamp).run
  | transition requestId origin scope recordId state timestamp =>
      (Decisions.transition w lib requestId origin scope recordId state timestamp).run
  | revise requestId origin scope recordId decision timestamp =>
      (Decisions.revise w lib requestId origin scope recordId decision timestamp).run
  | correct requestId origin scope recordId body timestamp =>
      (Decisions.correct w lib requestId origin scope recordId body timestamp).run
  | setCommitmentDue requestId origin scope id dueAt timestamp =>
      (Decisions.setCommitmentDue w lib requestId origin scope id dueAt timestamp).run
  | reportCommitmentCompletion requestId origin scope id statement timestamp =>
      (Decisions.reportCommitmentCompletion w lib requestId origin scope id statement timestamp).run
  | confirmCommitmentExecution requestId origin scope id receiptId timestamp =>
      (Decisions.confirmCommitmentExecution w lib requestId origin scope id receiptId timestamp).run

end Pikamux.Decisions
