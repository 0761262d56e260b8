import Mathlib.Algebra.BigOperators.Group.Finset.Basic
import Mathlib.Data.List.Sort
import Pikamux.Assistant.Lifecycle
import Pikamux.Support.Program

/-!
# Assistant — Evolution

`assistant_evolution.rs`: the registry of self-made tools.  A tool is registered under the digest of
its definition, tested on protected suites, approved by a grant and then activated.  Every SQL
statement and every transaction is one step; other connections may act in between, and a process may
end after any of them.

What `serde_json` prints, SHA-256 and the interpreter of tools are a `Tooling`.
-/

namespace Pikamux.Evolution

open Support Support.Program Json

/-! ### Definitions of tools -/

inductive EvolutionError where
  | invalidDefinition (reason : String)
  | limit (reason : String)
  | notFound (what : String)
  | notEligible (reason : String)
  | approvalMismatch
  | database (reason : String)
  | serialization (reason : String)
  deriving DecidableEq, Repr

/-- `Display`. -/
def EvolutionError.text : EvolutionError → String
  | invalidDefinition reason => "invalid tool definition: " ++ reason
  | limit reason => "tool resource limit exceeded: " ++ reason
  | notFound what => "tool was not found: " ++ what
  | notEligible reason => "tool is not eligible for activation: " ++ reason
  | approvalMismatch => "activation approval does not match the exact tool or scope"
  | database reason => "database error: " ++ reason
  | serialization reason => "serialization error: " ++ reason

@[ext] structure Scope where
  values : Finset String := ∅

instance : DecidableEq Scope := fun a b =>
  decidable_of_iff (a.values = b.values) Scope.ext_iff.symm

def Scope.contains (scope other : Scope) : Bool := other.values ⊆ scope.values

inductive CompareOp where
  | eq
  | ne
  | lt
  | lte
  | gt
  | gte

inductive Expr where
  | input
  | current
  | field (path : String)
  | currentField (path : String)
  | literal (value : Value)
  | map (input expr : Expr)
  | filter (input predicate : Expr)
  | compare (comparison : CompareOp) (left right : Expr)
  | and (items : List Expr)
  | or (items : List Expr)
  | not (input : Expr)

structure ToolDefinition where
  name : String
  version : Nat
  inputScope : Scope
  expression : Expr

structure ScopedInput where
  value : Value
  scope : Scope

structure CandidateManifest where
  definition : ToolDefinition
  authoringEvidence : String

structure EvaluationCase where
  inputs : List ScopedInput
  expected : Value

structure EvaluationReport where
  toolHash : String
  passed : Bool
  cases : Nat
  failures : List String
  deriving DecidableEq, Repr

/-- A grant as its holder has it. -/
structure ApprovalGrant where
  grantId : String
  toolHash : String
  scope : Scope
  deriving DecidableEq

structure CandidateRecord where
  hash : String
  definition : ToolDefinition
  authoringEvidence : String

structure Tooling where
  printDefinition : ToolDefinition → String
  printCases : List EvaluationCase → String
  /-- SHA-256 of the bytes, in hexadecimal. -/
  digest : String → String
  /-- `execute`, as far as its value; it may be interrupted by its deadline or its `cancel`. -/
  execute : ToolDefinition → List ScopedInput → Bool → Except EvolutionError Value

def maxDefinitionBytes : Nat := 256 * 1024
def maxAstDepth : Nat := 32
def maxInputRecords : Nat := 10000
def maxOutputBytes : Nat := 1024 * 1024
def maxValueDepth : Nat := 64

/-- `bounded_json` of a value that prints as `text`. -/
def boundedJson (text : String) (limit : Nat) : Except EvolutionError String := do
  ensure (text.utf8ByteSize ≤ limit) (.limit "serialized JSON exceeds byte limit")
  return text

/-- What `measure_value` checks before and after it has measured the parts of a value. -/
def measured (parts : Except EvolutionError Nat) (depth limit : Nat) :
    Except EvolutionError Nat := do
  ensure (depth ≤ maxValueDepth) (.limit "JSON value depth exceeded")
  let size ← parts
  ensure (size ≤ limit) (.limit "JSON value exceeds bounded memory")
  return size

mutual

def measureValue (value : Value) (depth limit : Nat) : Except EvolutionError Nat :=
  match value with
  | .null => measured (.ok 4) depth limit
  | .bool _ => measured (.ok 5) depth limit
  | .number _ => measured (.ok 32) depth limit
  | .string string => measured (.ok (string.utf8ByteSize + 2)) depth limit
  | .array values => measured (measureItems values 2 depth limit) depth limit
  | .object fields => measured (measureFields fields 2 depth limit) depth limit

/-- The loop stops once the limit is passed. -/
def measureItems (values : List Value) (total depth limit : Nat) : Except EvolutionError Nat :=
  match values with
  | [] => .ok total
  | item :: values => do
      let size ← measureValue item (depth + 1) limit
      if total + size > limit then return total + size
      measureItems values (total + size) depth limit

def measureFields (fields : List (String × Value)) (total depth limit : Nat) :
    Except EvolutionError Nat :=
  match fields with
  | [] => .ok total
  | (key, item) :: fields => do
      let size ← measureValue item (depth + 1) limit
      if total + key.utf8ByteSize + size > limit then return total + key.utf8ByteSize + size
      measureFields fields (total + key.utf8ByteSize + size) depth limit

end

mutual

def astDepth : Expr → Nat
  | .input | .current | .field _ | .currentField _ | .literal _ => 1
  | .map input expr => max (astDepth input) (astDepth expr) + 1
  | .filter input predicate => max (astDepth input) (astDepth predicate) + 1
  | .compare _ left right => max (astDepth left) (astDepth right) + 1
  | .and items | .or items => maxDepth items + 1
  | .not input => astDepth input + 1

def maxDepth : List Expr → Nat
  | [] => 0
  | item :: items => max (astDepth item) (maxDepth items)

end

mutual

def validateExpr (expr : Expr) (depth : Nat) : Except EvolutionError Unit := do
  ensure (depth < maxAstDepth) (.limit "AST depth exceeds 32")
  match expr with
  | .input | .current => return
  | .field path | .currentField path =>
      ensure (path.utf8ByteSize ≤ maxDefinitionBytes) (.limit "field path is too large")
  | .literal value => do
      let _ ← measureValue value depth maxDefinitionBytes
  | .map input expr => do
      validateExpr input (depth + 1)
      validateExpr expr (depth + 1)
  | .filter input predicate => do
      validateExpr input (depth + 1)
      validateExpr predicate (depth + 1)
  | .compare _ left right => do
      validateExpr left (depth + 1)
      validateExpr right (depth + 1)
  | .and items | .or items => validateItems items depth
  | .not input => validateExpr input (depth + 1)

def validateItems (items : List Expr) (depth : Nat) : Except EvolutionError Unit :=
  match items with
  | [] => .ok ()
  | item :: items => do
      validateExpr item (depth + 1)
      validateItems items depth

end

/-- The digest that a valid definition is registered under. -/
def validateDefinition (tools : Tooling) (definition : ToolDefinition) :
    Except EvolutionError String := do
  let name := definition.name
  ensure (!name.toList.all Channel.isWhitespace && name.utf8ByteSize ≤ 256 &&
      !name.toList.any fun c => Channel.isWhitespace c || Lifecycle.isControl c)
    (.invalidDefinition "invalid name")
  validateExpr definition.expression 0
  let encoded ← boundedJson (tools.printDefinition definition) maxDefinitionBytes
  ensure (encoded.utf8ByteSize ≤ maxDefinitionBytes) (.limit "definition exceeds 256 KiB")
  ensure (astDepth definition.expression ≤ maxAstDepth) (.limit "AST depth exceeds 32")
  return tools.digest encoded

/-! ### The registry -/

/-- A row of `tool_candidates`. -/
structure Candidate where
  definition : ToolDefinition
  authoringEvidence : String

/-- A row of `protected_suites`. -/
structure Suite where
  cases : List EvaluationCase
  suiteHash : String

/-- A row of `tool_evaluations`. -/
structure Evaluation where
  hash : String
  suiteId : String
  report : EvaluationReport
  passed : Bool
  deriving DecidableEq, Repr

/-- A row of `tool_grants`.  Times are only compared. -/
structure Grant where
  hash : String
  scope : Scope
  expiresAt : Option Int
  revoked : Bool := false
  deriving DecidableEq

/-- A row of `tool_activations`. -/
structure Activation where
  hash : String
  grantId : String
  active : Bool
  deriving DecidableEq, Repr

/-- A row of `tool_assessments`. -/
structure Assessment where
  hash : String
  outcome : String
  evidence : String
  deriving DecidableEq, Repr

structure Tables where
  candidates : Table String Candidate := ∅
  suites : Table String Suite := ∅
  /-- `candidate_required_suites`, by `hash` and `suite_id`. -/
  required : Table (String × String) Unit := ∅
  evaluations : List Evaluation := []
  grants : Table String Grant := ∅
  activations : Table String Activation := ∅
  assessments : List Assessment := []
  retirements : Table String Unit := ∅
  contractFailures : Table String Unit := ∅

/-- An activation that was written, with the tables as `ensure_candidate_eligible` had read them. -/
structure Activated where
  name : String
  hash : String
  grantId : String
  time : Int
  checked : Tables

/-- The tables, and what was done to them. -/
structure Registry where
  tables : Tables := {}
  /-- The lists that `designate_required` has begun to write, one for each row it wrote. -/
  designated : List (String × List String) := []
  activated : List Activated := []

/-- What a step is given from outside. -/
structure Chance where
  now : Int := 0
  uuid : String := ""
  /-- The statement fails. -/
  fault : Option EvolutionError := none
  /-- The deadline of a suite has passed before this case, or it was cancelled. -/
  stopped : Nat → Bool := fun _ => false
  /-- The same while this case is run. -/
  interrupted : Nat → Bool := fun _ => false

abbrev Action (α : Type) := Fallible Chance Registry EvolutionError α

def Chance.works (chance : Chance) : Except EvolutionError Unit :=
  match chance.fault with
  | none => .ok ()
  | some e => .error e

/-- One statement, or one transaction. -/
def statement {α : Type} (f : Chance → Tables → Except EvolutionError (α × Tables)) : Action α :=
  transaction fun chance registry => do
    chance.works
    let (result, tables) ← f chance registry.tables
    return (result, { registry with tables })

/-- One statement that only reads. -/
def select {α : Type} (f : Tables → α) : Action α := query fun registry => .ok (f registry.tables)

def clock : Action Int := transaction fun chance registry => .ok (chance.now, registry)

def candidate (hash : String) : Action (Option CandidateRecord) :=
  select fun db => (db.candidates.get? hash).map fun row =>
    { hash, definition := row.definition, authoringEvidence := row.authoringEvidence }

def register (tools : Tooling) (manifest : CandidateManifest) : Action String := do
  require (manifest.authoringEvidence.utf8ByteSize ≤ maxDefinitionBytes)
    (.limit "authoring evidence exceeds 256 KiB")
  let hash ← check (validateDefinition tools manifest.definition)
  statement fun _ db => .ok ((), { db with
    candidates := db.candidates.insertOrIgnore hash
      ⟨manifest.definition, manifest.authoringEvidence⟩ })
  return hash

/-! ### Suites -/

def checkInput (expected : Value) (input : ScopedInput) : Except EvolutionError Unit := do
  let _ ← measureValue input.value 0 maxDefinitionBytes
  let scopeBytes := input.scope.values.sum String.utf8ByteSize
  ensure (scopeBytes ≤ maxDefinitionBytes) (.limit "protected scope is too large")
  let _ ← measureValue expected 0 maxOutputBytes

def checkCase (case : EvaluationCase) : Except EvolutionError Unit := do
  ensure (case.inputs.length ≤ maxInputRecords) (.limit "protected case has too many records")
  case.inputs.forM (checkInput case.expected)

/-- `INSERT OR IGNORE` of a suite; another suite with these cases is a conflict too. -/
def Tables.protect (db : Tables) (suiteId : String) (suite : Suite) : Tables :=
  if db.suites.any fun _ other => other.suiteHash = suite.suiteHash then db
  else { db with suites := db.suites.insertOrIgnore suiteId suite }

def protectSuite (tools : Tooling) (suiteId : String) (cases : List EvaluationCase) :
    Action Unit := do
  require (suiteId ≠ "" && !cases.isEmpty)
    (.invalidDefinition "protected suite must be named and non-empty")
  require (cases.length ≤ maxInputRecords) (.limit "protected suite has too many cases")
  check (cases.forM checkCase)
  let encoded ← check (boundedJson (tools.printCases cases) maxDefinitionBytes)
  require (encoded.utf8ByteSize ≤ maxDefinitionBytes) (.limit "protected suite exceeds 256 KiB")
  let suiteHash := tools.digest encoded
  let existing ← select fun db => (db.suites.get? suiteId).map Suite.suiteHash
  require (existing.all (· = suiteHash)) .approvalMismatch
  statement fun _ db => .ok ((), db.protect suiteId ⟨cases, suiteHash⟩)

/-- `SELECT suite_id … WHERE hash=? ORDER BY suite_id`. -/
def Tables.requiredSuites (db : Tables) (hash : String) : List String :=
  ((db.required.rows.filter fun row => row.1.1 = hash).map fun row => row.1.2).insertionSort (· ≤ ·)

/-- One row of the list `wanted`. -/
def insertRequired (hash : String) (wanted : List String) (suite : String) : Action Unit :=
  transaction fun chance registry => do
    chance.works
    let required ← context (.database "UNIQUE constraint failed")
      (registry.tables.required.insert? (hash, suite) ())
    return ((), { registry with
      tables := { registry.tables with required }
      designated := registry.designated ++ [(hash, wanted)] })

def requireProtected (suite : String) : Action Unit := do
  let found ← select fun db => db.suites.contains suite
  require found (.notFound suite)

def designateRequired (hash : String) (suites : List String) : Action Unit := do
  require (!suites.isEmpty) (.notEligible "candidate has no protected evaluator suites")
  let candidateExists ← select fun db => db.candidates.contains hash
  require candidateExists (.notFound hash)
  let existing ← select fun db => db.requiredSuites hash
  let wanted := (suites.insertionSort (· ≤ ·)).dedup
  if existing.isEmpty then do
    wanted.forM requireProtected
    wanted.forM (insertRequired hash wanted)
  else require (existing = wanted) .approvalMismatch

/-- What is wrong with the case at this index. -/
def evaluateCase (tools : Tooling) (definition : ToolDefinition) (interrupted : Bool)
    (index : Nat) (case : EvaluationCase) : List String :=
  match tools.execute definition case.inputs interrupted with
  | .ok value =>
      if value.eq case.expected then [] else [s!"case {index}: output mismatch"]
  | .error error => [s!"case {index}: {error.text}"]

def evaluateCases (tools : Tooling) (definition : ToolDefinition) (chance : Chance)
    (index : Nat) : List EvaluationCase → List String
  | [] => []
  | case :: cases =>
      if chance.stopped index then
        ["suite cancelled or deadline exceeded; remaining cases were not passed"]
      else
        evaluateCase tools definition (chance.interrupted index) index case ++
          evaluateCases tools definition chance (index + 1) cases

def persistEvaluation (hash suiteId : String) (report : EvaluationReport) : Action Unit :=
  statement fun _ db => .ok ((), { db with
    evaluations := db.evaluations ++ [⟨hash, suiteId, report, report.passed⟩] })

def evaluateSuite (tools : Tooling) (hash suiteId : String) : Action EvaluationReport := do
  let found ← candidate hash
  let record ← expect (.notFound hash) found
  let found ← select fun db => db.suites.get? suiteId
  let suite ← expect (.notFound suiteId) found
  let failures ← transaction fun chance registry =>
    .ok (evaluateCases tools record.definition chance 0 suite.cases, registry)
  let report : EvaluationReport := {
    toolHash := hash
    passed := failures.isEmpty && !suite.cases.isEmpty
    cases := suite.cases.length
    failures }
  persistEvaluation hash suiteId report
  return report

/-! ### Grants -/

/-- An `f64` that is asked for as an expiry. -/
inductive Expiry where
  | finite (time : Int)
  | notFinite
  deriving DecidableEq, Repr

/-- The time of an expiry that is finite and later than `now`. -/
def Expiry.after (now : Int) : Expiry → Option Int
  | finite time => if time ≤ now then none else some time
  | notFinite => none

/-- `expires_at`, unless it is refused. -/
def checkExpiry (now : Int) : Option Expiry → Except EvolutionError (Option Int)
  | none => .ok none
  | some expiry => do
      let time ← context .approvalMismatch (expiry.after now)
      return some time

/-- The retirement predicate and the insertion are one statement. -/
def insertGrant (hash : String) (scope : Scope) (expiresAt : Option Int) : Action String :=
  statement fun chance db => do
    ensure (!db.retirements.contains hash)
      (.notEligible "retired candidate cannot receive a new approval grant")
    let grantId := "grant-" ++ chance.uuid
    let grants ← context (.database "UNIQUE constraint failed")
      (db.grants.insert? grantId { hash, scope, expiresAt })
    return (grantId, { db with grants })

def issueGrant (hash : String) (scope : Scope) (expiry : Option Expiry) : Action ApprovalGrant := do
  let now ← clock
  let expiresAt ← check (checkExpiry now expiry)
  let found ← candidate hash
  let record ← expect (.notFound hash) found
  require (scope.contains record.definition.inputScope) .approvalMismatch
  let grantId ← insertGrant hash scope expiresAt
  return { grantId, toolHash := hash, scope }

def revoke (grantId : String) : Action Unit :=
  statement fun _ db => do
    ensure (db.grants.contains grantId) (.notFound grantId)
    return ((), { db with
      grants := db.grants.modify grantId fun grant => { grant with revoked := true } })

/-! ### Activation -/

def Grant.unexpired (grant : Grant) (now : Int) : Bool := grant.expiresAt.all (now < ·)

def validateGrantActivation (now : Int) (grant : ApprovalGrant) (record : CandidateRecord)
    (row : Grant) : Except EvolutionError Unit :=
  let exactGrant := row.hash = grant.toolHash && row.scope = grant.scope
  let validState := !row.revoked && row.unexpired now
  let scopeIsSufficient := row.scope.contains record.definition.inputScope
  ensure (exactGrant && validState && scopeIsSufficient) .approvalMismatch

def Tables.passed (db : Tables) (hash suiteId : String) : Bool :=
  db.evaluations.any fun e => e.hash = hash && e.suiteId = suiteId && e.passed

def Tables.failed (db : Tables) (hash suiteId : String) : Bool :=
  db.evaluations.any fun e => e.hash = hash && e.suiteId = suiteId && !e.passed

/-- How many suites are required, and how many of them are passed with no failure. -/
def Tables.eligibility (db : Tables) (hash : String) : Nat × Nat :=
  let rows := db.required.rows.filter fun row => row.1.1 = hash
  (rows.length, rows.countP fun row => db.passed hash row.1.2 && !db.failed hash row.1.2)

/-- The tables that it has read. -/
def ensureCandidateEligible (hash : String) : Action Tables := do
  let retired ← select fun db => db.retirements.contains hash
  require (!retired)
    (.notEligible "human-reported regression or retirement; create and evaluate a new version")
  let checked ← select fun db => db
  let eligibility := checked.eligibility hash
  require (eligibility.1 ≠ 0 && eligibility.1 = eligibility.2)
    (.notEligible "all mandatory protected evaluator suites must pass with no failure history")
  return checked

/-- The grant is there for the tool, neither revoked nor expired, and the tool is not retired. -/
def Tables.validGrant (db : Tables) (now : Int) (hash grantId : String) : Bool :=
  (db.grants.get? grantId).any fun grant =>
    grant.hash = hash && !grant.revoked && grant.unexpired now && !db.retirements.contains hash

/-- The tool that has the name already, active or not. -/
def Tables.named (db : Tables) (name : String) : Option Candidate := do
  let activation ← db.activations.get? name
  db.candidates.get? activation.hash

def storeActivation (record : CandidateRecord) (hash : String) (grant : ApprovalGrant)
    (checked : Tables) : Action Unit :=
  transaction fun chance registry => do
    chance.works
    let db := registry.tables
    let name := record.definition.name
    ensure (db.validGrant chance.now hash grant.grantId) .approvalMismatch
    ensure ((db.named name).all fun previous =>
        previous.definition.inputScope = record.definition.inputScope)
      (.notEligible "tool name belongs to a different scope; author a distinct name")
    return ((), { registry with
      tables := { db with
        activations := db.activations.upsert name ⟨hash, grant.grantId, true⟩ }
      activated := registry.activated ++ [⟨name, hash, grant.grantId, chance.now, checked⟩] })

def activateGrant (grant : ApprovalGrant) : Action Unit := do
  let found ← candidate grant.toolHash
  let record ← expect (.notFound grant.toolHash) found
  let found ← select fun db => db.grants.get? grant.grantId
  let row ← expect .approvalMismatch found
  let now ← clock
  check (validateGrantActivation now grant record row)
  let checked ← ensureCandidateEligible row.hash
  storeActivation record row.hash grant checked

def rollbackGrant (name : String) (approval : ApprovalGrant) : Action Unit := do
  let found ← candidate approval.toolHash
  let record ← expect (.notFound approval.toolHash) found
  require (record.definition.name = name) .approvalMismatch
  activateGrant approval

/-! ### Retirement -/

/-- Retire a tool, revoke its grants and make it inactive. -/
def Tables.retire (db : Tables) (hash : String) : Tables :=
  { db with
    retirements := db.retirements.insertOrIgnore hash ()
    grants := db.grants.update fun _ grant =>
      if grant.hash = hash then { grant with revoked := true } else grant
    activations := db.activations.update fun _ activation =>
      if activation.hash = hash then { activation with active := false } else activation }

def assess (hash : String) (scope : Scope) (outcome evidence : String) : Action Unit := do
  require (outcome ∈ ["helped", "neutral", "regression", "retire"] &&
      !evidence.toList.all Channel.isWhitespace && evidence.utf8ByteSize ≤ 4096)
    (.invalidDefinition ("assessment needs helped/neutral/regression/retire and " ++
      "1–4096 bytes of human evidence"))
  let found ← candidate hash
  let record ← expect (.notFound hash) found
  require (record.definition.inputScope = scope) .approvalMismatch
  statement fun _ db =>
    let db := { db with assessments := db.assessments ++ [⟨hash, outcome, evidence⟩] }
    .ok ((), if outcome ∈ ["regression", "retire"] then db.retire hash else db)

def rejectMethodOutput (hash : String) : Action Unit :=
  statement fun _ db =>
    let db := { db with contractFailures := db.contractFailures.insertOrIgnore hash () }
    .ok ((), db.retire hash)

end Pikamux.Evolution
