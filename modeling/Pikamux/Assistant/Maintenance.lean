import Pikamux.Assistant.Fence

/-!
# Assistant — Maintenance

`assistant_maintenance.rs` and `assistant_workshop_handoff.rs`: a maintenance commit appends what it
learned, with an outbox row for each workshop proposal, in one transaction.  Delivering the outbox
validates each proposal once more and hands it to the workshop.

The JSON coder of proposals stands outside the repository.  The rows of the outbox are read as they
were inserted.  Of a maintenance job only what it answers to a commit is kept.
-/

namespace Pikamux.Maintenance

open Support Memory

inductive ProposalKind where
  | method
  | tool
  deriving DecidableEq, Repr

structure WorkshopProposal where
  kind : ProposalKind
  hypothesis : String
  proposedChange : String
  baseline : Option String := none
  requestedCapabilities : List String := []
  successCriterion : String
  sources : List SourceVersion
  deriving DecidableEq, Repr

structure Library extends Memory.Library where
  encode : WorkshopProposal → String
  decode : String → Except MemoryError WorkshopProposal

inductive HandoffState where
  | pending
  | bound
  deriving DecidableEq, Repr

structure HandoffReceipt where
  recordId : String
  state : HandoffState
  deriving DecidableEq, Repr

structure State where
  memory : Store := {}
  /-- `maintenance_outbox`: whether the row of a record was delivered. -/
  outbox : Table String Bool := ∅
  /-- `workshop_handoffs`. -/
  handoffs : Table String HandoffState := ∅

/-! ### Proposals -/

def getActive (store : Store) (id : String) : Option NewRecord :=
  if hasSuccessor store id then none else (store.records.get? id).map Row.record

def isActive (store : Store) (id : String) : Bool := (getActive store id).isSome

def sourceVersion (store : Store) (id : String) : Option Nat :=
  (store.records.get? id).map Row.revision

/-- The loop of `validate_sources`, with the sources it has seen. -/
def validateEach (store : Store) (scope : Scope) : List String → List SourceVersion →
    Except MemoryError Unit
  | _, [] => .ok ()
  | seen, source :: rest => do
      ensure (!seen.contains source.id) (.invalid "duplicate guidance source")
      let record ← context (.invalid "guidance source is no longer active")
        (getActive store source.id)
      ensure (record.scope.permits scope && sourceVersion store source.id = some source.revision)
        (.invalid "guidance source version or scope changed")
      validateEach store scope (source.id :: seen) rest

def validateSources (store : Store) (scope : Scope) (sources : List SourceVersion) :
    Except MemoryError Unit := do
  ensure (!sources.isEmpty && sources.length ≤ 64) (.invalid "guidance needs 1–64 exact sources")
  validateEach store scope [] sources

/-- `assistant_guidance::validate_sources_in_tx`. -/
def validateLiveSources (store : Store) (sources : List SourceVersion) : Except MemoryError Unit :=
  forM sources fun source =>
    ensure (sourceVersion store source.id = some source.revision && !hasSuccessor store source.id)
      (.invalid "guidance source revision is no longer active")

def isBlank (text : String) : Bool := text.toList.all Channel.isWhitespace

def WorkshopProposal.bounded (proposal : WorkshopProposal) : Bool :=
  ([proposal.hypothesis, proposal.proposedChange, proposal.successCriterion].all fun text =>
      !isBlank text && text.utf8ByteSize ≤ 2048) &&
    (proposal.baseline.all fun text => text.utf8ByteSize ≤ 2048) &&
    proposal.requestedCapabilities.length ≤ 16 &&
    proposal.requestedCapabilities.all fun name => name ≠ "" && name.utf8ByteSize ≤ 128

def workshopProvenance : String := "validated_workshop_proposal_v1"

/-- The record of a proposal. -/
def proposalRecord (lib : Library) (scope : Scope) (proposal : WorkshopProposal)
    (timestamp : Int) : NewRecord where
  kind := .proposal
  origin := .worker
  scope := scope
  body := lib.encode proposal
  provenance := workshopProvenance
  timestamp := timestamp
  dependencies := proposal.sources.map SourceVersion.id
  decisionState := some .proposed

def validateProposal (lib : Library) (store : Store) (scope : Scope) (proposal : WorkshopProposal)
    (timestamp : Int) : Except MemoryError NewRecord := do
  validateSources store scope proposal.sources
  ensure proposal.bounded (.invalid "workshop proposal fields exceed bounds")
  return proposalRecord lib scope proposal timestamp

def proposal (lib : Library) (store : Store) (id : String) :
    Except MemoryError (Scope × WorkshopProposal) := do
  let record ← context (.invalid "workshop proposal is unavailable") (getActive store id)
  ensure (record.kind = .proposal && record.origin = .worker &&
    record.provenance = workshopProvenance && record.decisionState = some .proposed)
    (.invalid "not a validated workshop proposal")
  let proposal ← lib.decode record.body
  let _ ← validateProposal lib store record.scope proposal record.timestamp
  ensure (record.dependencies = proposal.sources.map SourceVersion.id)
    (.invalid "workshop dependency mismatch")
  return (record.scope, proposal)

def ingest (lib : Library) (id : String) (s : State) :
    Except MemoryError (HandoffReceipt × State) := do
  let (_, proposal) ← proposal lib s.memory id
  ensure (s.memory.records.contains id && !hasSuccessor s.memory id)
    (.invalid "workshop proposal changed")
  validateLiveSources s.memory proposal.sources
  let handoffs := s.handoffs.insertOrIgnore id .pending
  let state ← context (.database "Query returned no rows") (handoffs.get? id)
  return (⟨id, state⟩, { s with handoffs })

/-! ### Delivery -/

/-- `SELECT record_id FROM maintenance_outbox WHERE delivered=0`. -/
def State.waiting (s : State) : List String :=
  (s.outbox.rows.filter fun row => !row.2).map Prod.fst

def deliver (lib : Library) (id : String) (s : State) : Except MemoryError State := do
  let s ← if isActive s.memory id then (ingest lib id s).map Prod.snd else .ok s
  return { s with outbox := s.outbox.modify id fun _ => true }

/-- Each row is its own transaction; the first that fails ends the loop. -/
def deliverAll (lib : Library) : List String → State → Except MemoryError Unit × State
  | [], s => (.ok (), s)
  | id :: rest, s =>
      match deliver lib id s with
      | .ok t => deliverAll lib rest t
      | .error e => (.error e, s)

def reconcileOutbox (lib : Library) (s : State) : Except MemoryError Unit × State :=
  deliverAll lib (s.waiting.take 8) s

/-! ### Commits -/

/-- What a learning candidate becomes that is no workshop proposal: its provenance is the text of a
JSON object. -/
structure OrdinaryRecord where
  input : NewRecord
  object : input.provenance.toList.head? = some '\x7b'
  fresh : input.supersedes = none

inductive Learning where
  | workshop (proposal : WorkshopProposal)
  /-- A candidate of another kind, and what its validation makes of it. -/
  | other (candidate : LearningCandidate) (record : Except MemoryError OrdinaryRecord)

structure Assignment where
  scope : Scope
  epoch : Nat
  selected : List SourceVersion
  sources : List SourceVersion

/-- The output of a job, each candidate with its new id. -/
structure Output where
  learning : List (Learning × String)
  workshop : List (WorkshopProposal × String)

/-- The output of a job for its commit. -/
structure Commit where
  assignment : Assignment
  output : Output
  now : Int
  /-- The memory as it is when the output is validated, before the transaction. -/
  seen : Store
  /-- What `validate_output` and the permission of the scope refuse. -/
  permitted : Except MemoryError Unit := .ok ()
  /-- `completed_receipt`. -/
  completed : Except MemoryError (Option (List String)) := .ok none

def Learning.proposals : Learning → List WorkshopProposal
  | .workshop proposal => [proposal]
  | .other _ _ => []

def Commit.proposals (c : Commit) : List WorkshopProposal :=
  (c.output.learning.flatMap fun item => item.1.proposals) ++ c.output.workshop.map Prod.fst

def Commit.newIds (c : Commit) : List String :=
  c.output.learning.map Prod.snd ++ c.output.workshop.map Prod.snd

/-- A candidate as its sources are validated. -/
def workshopCandidate (lib : Library) (proposal : WorkshopProposal) : LearningCandidate where
  adaptation := true
  sources := proposal.sources
  text := lib.encode proposal

def Learning.candidate (lib : Library) : Learning → LearningCandidate
  | .workshop proposal => workshopCandidate lib proposal
  | .other candidate _ => candidate

/-- `assistant_continuity::validate_candidate_sources`. -/
def validateCandidateSources (store : Store) (scope : Scope) (sources : List SourceVersion) :
    Except MemoryError Unit := do
  ensure (!sources.isEmpty && sources.length ≤ 64) (.invalid "learning needs bounded exact sources")
  forM sources fun source => do
    let row ← context (.notFound source.id) (store.records.get? source.id)
    ensure (row.revision = source.revision && row.record.scope.permits scope &&
      row.record.kind ≠ .draft) (.invalid "learning source changed, unsent or outside scope")

def validateCandidate (lib : Library) (store : Store) (scope : Scope) (now : Int)
    (candidate : Learning) : Except MemoryError NewRecord := do
  validateCandidateSources store scope (candidate.candidate lib).sources
  match candidate with
  | .workshop proposal => validateProposal lib store scope proposal now
  | .other _ record => record.map OrdinaryRecord.input

def validateAssignment (store : Store) (assignment : Assignment) : Except MemoryError Unit := do
  ensure (store.forgetEpoch = assignment.epoch) (.invalid "Maintenance memory generation changed")
  forM assignment.sources fun source =>
    ensure (sourceVersion store source.id = some source.revision &&
      (loadScope store source.id).any fun scope => scope.permits assignment.scope)
      (.invalid "Maintenance source changed or is no longer permitted")

/-- The records of an output, each with its id. -/
def promotionRecords (lib : Library) (c : Commit) :
    Except MemoryError (List (NewRecord × String)) := do
  let scope := c.assignment.scope
  let learned ← c.output.learning.mapM fun item => do
    return (← validateCandidate lib c.seen scope c.now item.1, item.2)
  let proposed ← c.output.workshop.mapM fun item => do
    return (← validateProposal lib c.seen scope item.1 c.now, item.2)
  let records := learned ++ proposed
  ensure (records.all fun record => record.1.dependencies.all fun id =>
    c.assignment.sources.any fun source => source.id = id)
    (.invalid "Learning cites evidence not in its assignment")
  return records

def validateAssignmentInTx (store : Store) (assignment : Assignment) : Except MemoryError Unit := do
  validateSourcesInTx store assignment.scope assignment.sources assignment.epoch
  forM assignment.selected fun source => do
    ensure (assignment.sources.contains source) (.invalid "Selected evidence omitted from package")
    ensure ((store.records.get? source.id).any fun row =>
      row.record.decisionState ≠ some .superseded && !hasSuccessor store source.id)
      (.invalid "Selected maintenance evidence superseded")

def validateOutputInTx (lib : Library) (store : Store) (c : Commit) : Except MemoryError Unit := do
  let validate := validateCandidateInTx store c.assignment.scope c.assignment.epoch
  forM c.output.learning fun item => validate (item.1.candidate lib)
  forM c.output.workshop fun item => validate (workshopCandidate lib item.1)

/-- The outbox with a row for a workshop proposal. -/
def postProposal (id : String) (input : NewRecord) (outbox : Table String Bool) :
    Except MemoryError (Table String Bool) :=
  if input.provenance = workshopProvenance then
    context (.database "UNIQUE constraint failed: maintenance_outbox.record_id")
      (outbox.insert? id false)
  else .ok outbox

def appendPromotion : List (NewRecord × String) → State → Except MemoryError (List String × State)
  | [], s => .ok ([], s)
  | (input, id) :: rest, s => do
      let (record, memory) ← appendInTx id input s.memory
      let outbox ← postProposal record.id input s.outbox
      let (ids, s) ← appendPromotion rest { s with memory, outbox }
      return (record.id :: ids, s)

def commit (lib : Library) (c : Commit) (s : State) : Except MemoryError (List String × State) := do
  c.permitted
  validateAssignment c.seen c.assignment
  let records ← promotionRecords lib c
  validateAssignmentInTx s.memory c.assignment
  validateOutputInTx lib s.memory c
  match ← c.completed with
  | some ids => return (ids, s)
  | none => appendPromotion records s

/-- The commits of the results that were received, then the delivery. -/
def recover (lib : Library) (received : List Commit) (s : State) :
    Except MemoryError Unit × State :=
  reconcileOutbox lib (loop received s fun s c => (atomically (commit lib c) s).2)

/-! ### Calls -/

inductive Call where
  | memory (call : Memory.Call)
  | commit (c : Commit)
  | reconcile
  | recover (received : List Commit)

def Call.newIds : Call → List String
  | memory call => call.newIds
  | commit c => c.newIds
  | reconcile => []
  | recover received => received.flatMap Commit.newIds

def Call.proposals : Call → List WorkshopProposal
  | memory _ => []
  | commit c => c.proposals
  | reconcile => []
  | recover received => received.flatMap Commit.proposals

/-- A turn hands over the workshop proposals that it learned. -/
def handedOver (reply : Except MemoryError Reply) (handoffs : Table String HandoffState) :
    Table String HandoffState :=
  match reply with
  | .ok (.records records) =>
      loop (records.filter fun record => record.provenance = workshopProvenance) handoffs
        fun handoffs record => handoffs.insertOrIgnore record.id .pending
  | _ => handoffs

def Call.perform (lib : Library) : Call → State → Except MemoryError Unit × State
  | memory call, s =>
      let result := call.perform lib.toLibrary s.memory
      (result.1.map fun _ => (),
        { s with memory := result.2, handoffs := handedOver result.1 s.handoffs })
  | commit c, s =>
      let result := atomically (Maintenance.commit lib c) s
      (result.1.map fun _ => (), result.2)
  | reconcile, s => reconcileOutbox lib s
  | recover received, s => Maintenance.recover lib received s

abbrev Made := Entry State Call (Except MemoryError Unit)

end Pikamux.Maintenance
