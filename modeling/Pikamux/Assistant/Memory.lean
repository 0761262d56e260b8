import Pikamux.Assistant.Scope
import Pikamux.Channel.Operation
import Pikamux.Json.Text
import Pikamux.Support.Integers
import Pikamux.Support.Like
import Pikamux.Support.Sweep

/-!
# Assistant — Memory

`assistant_memory.rs` and the commit of `assistant_continuity.rs`: records are appended with the
records they depend on and the one they supersede, and forgetting a record deletes what was derived
from it.  Every operation is one transaction.

What stands outside the repository is a `Library`: the digest of a request, the fields that SQLite
reads out of a provenance text, and the words of a presentation preference.  New identifiers are
arguments.
-/

namespace Pikamux.Memory

open Support

def maxRecordBytes : Nat := 256 * 1024

inductive MemoryError where
  | database (message : String)
  | invalid (message : String)
  | workerCannotAssumeUserAuthority
  | notFound (id : String)
  | serialization (message : String)
  deriving DecidableEq, Repr

inductive RecordKind where
  | draft
  | userInstruction
  | inferredPreference
  | proposal
  | decision
  | finding
  | briefing
  | graspInteraction
  | correction
  deriving DecidableEq, Repr, Inhabited

inductive DecisionState where
  | proposed
  | accepted
  | rejected
  | deferred
  | unresolved
  | superseded
  deriving DecidableEq, Repr, Inhabited

structure NewRecord where
  kind : RecordKind
  origin : Origin
  scope : Scope := {}
  body : String := ""
  provenance : String := ""
  timestamp : Int := 0
  supersedes : Option String := none
  dependencies : List String := []
  decisionState : Option DecisionState := none
  protectedPolicy : Bool := false
  deriving DecidableEq, Repr, Inhabited

structure Record extends NewRecord where
  id : String
  deriving DecidableEq, Repr, Inhabited

/-- A row of `memory_records`, with its number in `memory_revisions`. -/
structure Row where
  record : NewRecord
  revision : Nat
  deriving DecidableEq, Repr, Inhabited

structure Receipt where
  payloadHash : String
  recordId : String
  deriving DecidableEq, Repr, Inhabited

structure TurnReceipt where
  payloadHash : String
  recordIds : List String
  deriving DecidableEq, Repr, Inhabited

/-- The memory database of one profile. -/
structure Store where
  records : Table String Row := ∅
  /-- The last number given in `memory_revisions`. -/
  sequence : Nat := 0
  forgetEpoch : Nat := 0
  receipts : Table String Receipt := ∅
  turnReceipts : Table String TurnReceipt := ∅

/-- A record as it was read, with its revision. -/
structure SourceVersion where
  id : String
  revision : Nat
  deriving DecidableEq, Repr, Inhabited

/-- A learning candidate: whether it adapts behaviour, its sources, and the rest of its text. -/
structure LearningCandidate where
  adaptation : Bool
  sources : List SourceVersion
  text : String
  deriving DecidableEq, Repr, Inhabited

/-- The request of a turn's commit, as it is hashed. -/
structure TurnPayload where
  answer : NewRecord
  candidates : List LearningCandidate
  sources : List SourceVersion
  epoch : Nat
  deriving DecidableEq, Repr, Inhabited

structure Library where
  /-- SHA-256 of the JSON text of a new record. -/
  hash : NewRecord → String
  /-- SHA-256 of the JSON text of a turn. -/
  turnHash : TurnPayload → String
  /-- `json_extract(provenance,'$.presentation_preference.key')`, if the text is JSON. -/
  preferenceKey : String → Option String
  /-- `assistant_preferences::recognize`: the bullets of a briefing preference. -/
  recognize : String → Option Nat
  /-- The provenance of a recognized preference. -/
  preferenceProvenance : String → Nat → Except MemoryError String

/-- `assistant_preferences::KEY`. -/
def preferenceKeyName : String := "daily_brief_bullets_v1"

/-! ### Checks -/

def Scope.validate (scope : Scope) : Except MemoryError Unit :=
  ensure (scope.values.all fun value => value.all fun v => v ≠ "" && v.utf8ByteSize ≤ 512)
    (.invalid "scope values must be 1..512 bytes")

def isUuid (id : String) : Bool := (Uuid.canonical id).isSome

def validateInput (input : NewRecord) : Except MemoryError Unit := do
  input.scope.validate
  ensure (input.dependencies.length ≤ 64 && input.dependencies.all isUuid &&
    input.supersedes.all isUuid) (.invalid "bounded exact dependencies required")
  ensure (input.body.utf8ByteSize ≤ maxRecordBytes &&
    input.provenance.utf8ByteSize ≤ maxRecordBytes) (.invalid "record exceeds bounded size")
  ensure (input.origin = .human || !(input.kind = .userInstruction || input.protectedPolicy ||
    input.supersedes.isSome || input.decisionState.any (· ≠ .proposed)))
    .workerCannotAssumeUserAuthority
  ensure (input.kind ≠ .correction || !input.dependencies.isEmpty)
    (.invalid "corrections must name a dependency")

def validateRequestId (requestId : String) : Except MemoryError Unit :=
  ensure (requestId ≠ "" && requestId.utf8ByteSize ≤ 256) (.invalid "invalid request id")

def loadScope (store : Store) (id : String) : Option Scope :=
  (store.records.get? id).map fun row => row.record.scope

def validateDependency (store : Store) (scope : Scope) (dependency : String) :
    Except MemoryError Unit := do
  let existing ← context (.notFound dependency) (loadScope store dependency)
  ensure (existing.permits scope)
    (.invalid "derived records must retain every dependency scope")

def validateSuperseded (store : Store) (scope : Scope) : Option String → Except MemoryError Unit
  | none => .ok ()
  | some parent => do
      let existing ← context (.notFound parent) (loadScope store parent)
      ensure (existing = scope) (.invalid "supersession cannot broaden scope")

def validateDependencyScopes (store : Store) (input : NewRecord) : Except MemoryError Unit := do
  forM input.dependencies (validateDependency store input.scope)
  validateSuperseded store input.scope input.supersedes

/-! ### Appending -/

def insertRecord (id : String) (input : NewRecord) (store : Store) :
    Except MemoryError (Record × Store) := do
  let revision := store.sequence + 1
  let records ← context (.database "UNIQUE constraint failed: memory_records.id")
    (store.records.insert? id ⟨input, revision⟩)
  return ({ input with id }, { store with records, sequence := revision })

def appendInTx (id : String) (input : NewRecord) (store : Store) :
    Except MemoryError (Record × Store) := do
  validateInput input
  validateDependencyScopes store input
  insertRecord id input store

def append (id : String) (input : NewRecord) (store : Store) : Except MemoryError (Record × Store) :=
  appendInTx id input store

def appendAtEpoch (id : String) (input : NewRecord) (expectedEpoch : Nat) (store : Store) :
    Except MemoryError (Record × Store) := do
  ensure (store.forgetEpoch = expectedEpoch)
    (.invalid "memory changed through forgetting; worker output discarded")
  appendInTx id input store

/-- The record of an earlier request with this id. -/
def existingIdempotentRecord (store : Store) (requestId hash : String) :
    Except MemoryError (Option Record) :=
  match store.receipts.get? requestId with
  | none => .ok none
  | some receipt => do
      ensure (receipt.payloadHash = hash)
        (.invalid "request id was reused with different content")
      let row ← context (.notFound requestId) (store.records.get? receipt.recordId)
      return some { row.record with id := receipt.recordId }

/-- Append a record and note the request. -/
def appendRequested (requestId hash id : String) (input : NewRecord) (store : Store) :
    Except MemoryError (Record × Store) := do
  let (record, store) ← appendInTx id input store
  let receipts ← context (.database "UNIQUE constraint failed: memory_receipts.request_id")
    (store.receipts.insert? requestId ⟨hash, record.id⟩)
  return (record, { store with receipts })

/-- Some record supersedes this one. -/
def hasSuccessor (store : Store) (id : String) : Bool :=
  store.records.any fun _ row => row.record.supersedes = some id

/-- A retry returns what its request appended; else `fresh` appends. -/
def idempotently (requestId hash : String)
    (fresh : Store → Except MemoryError (Record × Store)) (store : Store) :
    Except MemoryError (Record × Store) := do
  match ← existingIdempotentRecord store requestId hash with
  | some record => return (record, store)
  | none => fresh store

def appendIdempotentChecked (lib : Library) (requestId id : String) (input : NewRecord)
    (requireActivePredecessor : Bool) (store : Store) : Except MemoryError (Record × Store) := do
  validateRequestId requestId
  validateInput input
  idempotently requestId (lib.hash input) (fun store => do
    ensure (!requireActivePredecessor || !input.supersedes.any (hasSuccessor store))
      (.invalid "record has a newer revision; inspect and use its current record ID")
    appendRequested requestId (lib.hash input) id input store) store

def appendIdempotent (lib : Library) (requestId id : String) (input : NewRecord) (store : Store) :
    Except MemoryError (Record × Store) :=
  appendIdempotentChecked lib requestId id input false store

def appendRevisionIdempotent (lib : Library) (requestId id : String) (input : NewRecord)
    (store : Store) : Except MemoryError (Record × Store) := do
  ensure (input.origin = .human) .workerCannotAssumeUserAuthority
  ensure (input.supersedes.any fun id => input.dependencies.contains id)
    (.invalid "revision must retain its exact predecessor as a dependency")
  appendIdempotentChecked lib requestId id input true store

def validateConversationInput (lib : Library) (input : NewRecord) (preference : Option Nat) :
    Except MemoryError Unit := do
  validateInput input
  ensure (input.origin = .human && input.kind = .finding && !input.protectedPolicy &&
    input.supersedes.isNone && input.dependencies.isEmpty && input.decisionState.isNone)
    (.invalid "expected raw human conversation input")
  ensure (preference = lib.recognize input.body)
    (.invalid "presentation preference must match exact human words")

/-- A row in force as the presentation preference of a scope. -/
def isPreference (lib : Library) (store : Store) (scope : Scope) (id : String) (row : Row) : Bool :=
  row.record.scope = scope && row.record.kind = .userInstruction && row.record.origin = .human &&
    !row.record.protectedPolicy &&
    lib.preferenceKey row.record.provenance = some preferenceKeyName && !hasSuccessor store id

/-- The first of some rows by `ORDER BY timestamp DESC,id DESC`. -/
def latest (rows : List (String × Row)) : Option String :=
  (loop rows none fun (best : Option (String × Row)) row =>
    match best with
    | none => some row
    | some b =>
        if b.2.record.timestamp < row.2.record.timestamp ||
            b.2.record.timestamp = row.2.record.timestamp && b.1 < row.1 then some row
        else some b).map Prod.fst

/-- The input as a revision of the presentation preference in force. -/
def applyPresentationRevision (lib : Library) (store : Store) (input : NewRecord) (bullets : Nat) :
    Except MemoryError NewRecord := do
  let previous := latest (store.records.rows.filter fun (id, row) =>
    isPreference lib store input.scope id row)
  let provenance ← lib.preferenceProvenance input.provenance bullets
  return { input with
    kind := .userInstruction
    provenance := provenance
    dependencies := previous.toList
    supersedes := previous }

def revisedInput (lib : Library) (store : Store) (input : NewRecord) :
    Option Nat → Except MemoryError NewRecord
  | some bullets => applyPresentationRevision lib store input bullets
  | none => .ok input

def appendConversationInput (lib : Library) (requestId id : String) (input : NewRecord)
    (preference : Option Nat) (expectedEpoch : Nat) (store : Store) :
    Except MemoryError (Record × Store) := do
  validateRequestId requestId
  validateConversationInput lib input preference
  ensure (store.forgetEpoch = expectedEpoch)
    (.invalid "memory changed through forgetting; input not saved")
  idempotently requestId (lib.hash input) (fun store => do
    let revised ← revisedInput lib store input preference
    appendRequested requestId (lib.hash input) id revised store) store

/-! ### Turns -/

def validateSource (store : Store) (scope : Scope) (source : SourceVersion) :
    Except MemoryError Unit :=
  ensure ((store.records.get? source.id).any fun row => row.record.kind ≠ .draft &&
    row.revision = source.revision && row.record.scope.permits scope)
    (.invalid "learning source version or scope changed")

def validateSourcesInTx (store : Store) (scope : Scope) (sources : List SourceVersion)
    (epoch : Nat) : Except MemoryError Unit := do
  ensure (store.forgetEpoch = epoch) (.invalid "learning invalidated by forgetting")
  forM sources (validateSource store scope)

/-- A source that was not superseded. -/
def validateActive (store : Store) (source : SourceVersion) : Except MemoryError Unit :=
  ensure ((store.records.get? source.id).any fun row =>
    row.record.decisionState ≠ some .superseded && !hasSuccessor store source.id)
    (.invalid "adaptation source was superseded before commit")

def validateCandidateInTx (store : Store) (scope : Scope) (epoch : Nat)
    (candidate : LearningCandidate) : Except MemoryError Unit := do
  validateSourcesInTx store scope candidate.sources epoch
  if candidate.adaptation then
    forM candidate.sources (validateActive store)

def existingTurn (store : Store) (requestId hash : String) : Except MemoryError Bool :=
  match store.turnReceipts.get? requestId with
  | none => .ok false
  | some receipt => do
      ensure (receipt.payloadHash = hash) (.invalid "turn learning receipt content changed")
      return true

/-- Append records one after the other. -/
def appendTurnRecords : List (NewRecord × String) → Store → Except MemoryError (List Record × Store)
  | [], store => .ok ([], store)
  | (input, id) :: rest, store => do
      let (record, store) ← appendInTx id input store
      let (records, store) ← appendTurnRecords rest store
      return (record :: records, store)

/-- Append the records of a turn and note the request. -/
def appendTurn (requestId hash : String) (inputs : List (NewRecord × String)) (store : Store) :
    Except MemoryError (List Record × Store) := do
  let (records, store) ← appendTurnRecords inputs store
  let turnReceipts ← context (.database "UNIQUE constraint failed: continuity_receipts.request_id")
    (store.turnReceipts.insert? requestId ⟨hash, records.map (·.id)⟩)
  return (records, { store with turnReceipts })

/-- `updates` is what the validation of the candidates before the transaction made of them, each
with its new id. -/
def commitTurn (lib : Library) (requestId answerId : String) (payload : TurnPayload)
    (updates : Except MemoryError (List (NewRecord × String))) (store : Store) :
    Except MemoryError (List Record × Store) := do
  let updates ← updates
  let scope := payload.answer.scope
  validateSourcesInTx store scope payload.sources payload.epoch
  forM payload.candidates (validateCandidateInTx store scope payload.epoch)
  if ← existingTurn store requestId (lib.turnHash payload) then return ([], store)
  appendTurn requestId (lib.turnHash payload) ((payload.answer, answerId) :: updates) store

/-! ### Forgetting -/

def nextForgetEpoch (store : Store) : Except MemoryError Nat :=
  context (.invalid "exhausted forget generation") (checkedSucc store.forgetEpoch)

/-- The text of the column `dependencies`. -/
def dependenciesText (dependencies : List String) : List Char :=
  '[' :: Json.commaSep (dependencies.map Json.quoted) ++ [']']

/-- `supersedes=? OR dependencies LIKE '%' || ? || '%'`. -/
def linksByText (row : Row) (target : String) : Bool :=
  row.record.supersedes = some target ||
    like ('%' :: target.toList ++ ['%']) (dependenciesText row.record.dependencies)

/-- `supersedes=? OR EXISTS(SELECT 1 FROM json_each(dependencies) WHERE value=?)`. -/
def linksByValue (row : Row) (target : String) : Bool :=
  row.record.supersedes = some target || row.record.dependencies.contains target

/-- The predecessor of a presentation preference, when it is one of the same scope. -/
def preferenceParent (lib : Library) (store : Store) (id : String) : Option String := do
  let row ← store.records.get? id
  let parentId ← row.record.supersedes
  let parent ← store.records.get? parentId
  if parent.record.scope = row.record.scope && row.record.kind = .userInstruction &&
      parent.record.kind = row.record.kind && row.record.origin = .human &&
      parent.record.origin = row.record.origin &&
      lib.preferenceKey row.record.provenance = some preferenceKeyName &&
      lib.preferenceKey parent.record.provenance = some preferenceKeyName then
    some parentId
  else none

/-- The loop of `presentation_preference_root`. -/
def preferenceRootFrom (lib : Library) (store : Store) :
    Nat → List String → String → Except MemoryError String
  | 0, _, _ => .error (.invalid "cyclic preference lineage")
  | fuel + 1, visited, current =>
      if visited.contains current then .error (.invalid "cyclic preference lineage")
      else match preferenceParent lib store current with
        | none => .ok current
        | some parent => preferenceRootFrom lib store fuel (current :: visited) parent

/-- The visited set never holds more than all records, so the loop turns at most once more. -/
def presentationPreferenceRoot (lib : Library) (store : Store) (id : String) :
    Except MemoryError String :=
  preferenceRootFrom lib store (store.records.rows.length + 1) [] id

/-- Delete what is reached from `roots` by the rows that link to it. -/
def sweepRecords (links : Row → String → Bool) (roots : List String) (epoch : Nat) (store : Store) :
    Except MemoryError (Nat × Store) := do
  let (removed, records) ← context (.database "unfinished")
    (store.records.sweep links (store.records.sweepFuel roots) roots 0)
  return (removed, { store with records, forgetEpoch := epoch })

def forget (lib : Library) (id : String) (store : Store) : Except MemoryError (Nat × Store) := do
  let epoch ← nextForgetEpoch store
  ensure (store.records.contains id) (.notFound id)
  let root ← presentationPreferenceRoot lib store id
  sweepRecords linksByText [root] epoch store

def forgetWorkerScope (scope : Scope) (store : Store) : Except MemoryError (Nat × Store) := do
  ensure (scope.project.any fun name => !name.toList.all Channel.isWhitespace)
    (.invalid "exact project scope is required for derived-memory revocation")
  let epoch ← nextForgetEpoch store
  let roots := (store.records.rows.filter fun (_, row) =>
    row.record.origin = .worker && row.record.scope = scope).map Prod.fst
  sweepRecords linksByValue roots.reverse epoch store

end Pikamux.Memory
