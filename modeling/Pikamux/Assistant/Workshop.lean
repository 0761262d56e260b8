import Pikamux.Assistant.Eligibility
import Pikamux.Support.Sequential

/-!
# Assistant — Workshop

`assistant_workshop.rs`: what a user does with self-made tools.  A candidate is submitted with an
experiment and inherits the suites of the version in force; a version is approved or rolled back to
by its hash.  Each method is a program of statements on the registry, the comparisons and the
memory store; the memory belongs to others, so each statement is given the memory as it finds it.
-/

namespace Pikamux.Workshop

open Support Support.Program Evolution

/-! ### State -/

/-- What `compare_candidate` needs besides: `run_comparison_cases` yields the passed cases, the
fuel and the operations, unless it is stopped. -/
structure Tools extends Tooling where
  runComparisonCases :
    ToolDefinition → List EvaluationCase → Chance → Except EvolutionError (Nat × Nat × Nat)

/-- `memory.sqlite`, as far as it is read here. -/
structure Memory where
  /-- The rows of `workshop_handoffs` with their candidates, when there is the table. -/
  handoffs : Option (List (String × Option String)) := none
  /-- `proposal`, as far as it fails. -/
  proposal : String → Except String Unit := fun _ => .ok ()

/-- What a step is given from outside. -/
structure Given where
  chance : Chance := {}
  /-- The memory that the step finds, when its file exists. -/
  memory : Option Memory := none

/-- A row of `tool_comparisons`. -/
structure ComparisonReceipt where
  candidateHash : String
  baselineHash : Option String
  suiteId : String
  candidatePassed : Nat
  baselinePassed : Option Nat
  candidateFuel : Nat
  baselineFuel : Option Nat
  candidateOperations : Nat
  baselineOperations : Option Nat
  verdict : String
  deriving DecidableEq, Repr

structure Bench where
  registry : Registry := {}
  comparisons : List ComparisonReceipt := []
  /-- The grants that a failed revocation has left in force. -/
  unrevoked : List String := []

abbrev Bench.tables (bench : Bench) : Tables := bench.registry.tables

abbrev Deed (α : Type) := Fallible Given Bench EvolutionError α

/-- What is done to the registry alone. -/
def registry {α : Type} (p : Action α) : Deed α :=
  ExceptT.mk (p.run.zoom Given.chance Bench.registry fun registry bench => { bench with registry })

/-- What is read of the registry at a time. -/
def observe {α : Type} (f : Int → Tables → α) : Action α :=
  transaction fun chance registry => .ok (f chance.now registry.tables, registry)

/-! ### Sources -/

/-- One statement on the memory store. -/
def consult {α : Type} (f : Memory → Except String α) : Deed α :=
  transaction fun given bench =>
    match given.chance.fault with
    | some error => .error (.notEligible error.text)
    | none =>
        match f (given.memory.getD {}) with
        | .ok a => .ok (a, bench)
        | .error reason => .error (.notEligible reason)

def memoryExists : Deed Bool := transaction fun given bench => .ok (given.memory.isSome, bench)

/-- `SELECT record_id … WHERE candidate_hash=? ORDER BY record_id LIMIT 65`. -/
def Memory.bound (memory : Memory) (hash : String) : List String :=
  (((memory.handoffs.getD []).filter fun row => row.2 = some hash).map Prod.fst
    |>.insertionSort (· ≤ ·)).take 65

def validateCandidateSources (hash : String) : Deed Unit := do
  let found ← memoryExists
  if found then do
    -- `Store::open`
    consult fun _ => .ok ()
    let table ← consult fun memory => .ok memory.handoffs.isSome
    if table then do
      let ids ← consult fun memory => .ok (memory.bound hash)
      require (ids.length ≤ 64)
        (.notEligible "invalid memory record: too many candidate dependencies")
      ids.forM fun id => consult fun memory => memory.proposal id

/-! ### Comparisons -/

/-- The version of the name that is active with a grant for exactly this scope. -/
def activeBaselineHash (name : String) (scope : Scope) (now : Int) (db : Tables) :
    Option String := do
  let activation ← db.activations.get? name
  let grant ← db.grants.get? activation.grantId
  if activation.active && grant.scope = scope && !grant.revoked && grant.unexpired now then
    some activation.hash
  else none

/-- There is one row of a name at most. -/
def comparisonBaselineHash (record : CandidateRecord) (now : Int) (db : Tables) : Option String :=
  (activeBaselineHash record.definition.name record.definition.inputScope now db).filter
    (· ≠ record.hash)

def runComparisonCases (tools : Tools) (definition : ToolDefinition) (cases : List EvaluationCase) :
    Deed (Nat × Nat × Nat) :=
  transaction fun given bench => do
    let metrics ← tools.runComparisonCases definition cases given.chance
    return (metrics, bench)

def compareBaseline (tools : Tools) (baseline : Option CandidateRecord)
    (candidate : CandidateRecord) (cases : List EvaluationCase) : Deed (Option (Nat × Nat × Nat)) :=
  match baseline.filter fun record =>
      record.definition.inputScope = candidate.definition.inputScope with
  | none => return none
  | some record => do
      let metrics ← runComparisonCases tools record.definition cases
      return some metrics

def comparisonVerdict (baselinePassed : Option Nat) (candidatePassed : Nat) : String :=
  match baselinePassed with
  | none => "first_candidate"
  | some previous =>
      if candidatePassed > previous then "improvement"
      else if candidatePassed < previous then "regression"
      else "equivalent"

def persistComparison (receipt : ComparisonReceipt) : Deed Unit :=
  transaction fun given bench => do
    given.chance.works
    return ((), { bench with comparisons := bench.comparisons ++ [receipt] })

/-- The candidate with this hash, if there is to be one. -/
def candidateOf : Option String → Deed (Option CandidateRecord)
  | none => return none
  | some hash => registry (candidate hash)

def compareCandidate (tools : Tools) (suiteId candidateHash : String) : Deed ComparisonReceipt := do
  let found ← registry (candidate candidateHash)
  let candidate ← expect (.notFound candidateHash) found
  let found ← registry (select fun db => (db.suites.get? suiteId).map Suite.cases)
  let cases ← expect (.notFound suiteId) found
  let metrics ← runComparisonCases tools candidate.definition cases
  let baselineHash ← registry (observe (comparisonBaselineHash candidate))
  let baseline ← candidateOf baselineHash
  let before ← compareBaseline tools baseline candidate cases
  let receipt : ComparisonReceipt := {
    candidateHash
    baselineHash
    suiteId
    candidatePassed := metrics.1
    baselinePassed := before.map fun metrics => metrics.1
    candidateFuel := metrics.2.1
    baselineFuel := before.map fun metrics => metrics.2.1
    candidateOperations := metrics.2.2
    baselineOperations := before.map fun metrics => metrics.2.2
    verdict := comparisonVerdict (before.map fun metrics => metrics.1) metrics.1 }
  persistComparison receipt
  return receipt

def Bench.latestComparison (bench : Bench) (suiteId candidateHash : String) :
    Option ComparisonReceipt :=
  (bench.comparisons.filter fun receipt =>
    receipt.suiteId = suiteId && receipt.candidateHash = candidateHash).getLast?

def requireComparisons (hash : String) : Deed Unit := do
  let suites ← registry (select fun db => db.requiredSuites hash)
  require (!suites.isEmpty) .approvalMismatch
  suites.forM fun suite => do
    let latest ← query fun bench => .ok (bench.latestComparison suite hash)
    require latest.isSome .approvalMismatch

/-! ### Methods -/

def protectCases (tools : Tools) (experiment : String) (cases : List EvaluationCase) : Deed Unit :=
  registry (protectSuite tools.toTooling experiment cases)

def maxInheritedSuites : Nat := 16

/-- The suites of the baseline. -/
def inheritedSuites : Option String → Deed (List String)
  | none => return []
  | some hash => registry (select fun db => db.requiredSuites hash)

/-- The suites of a candidate, sorted and once each. -/
def wantedSuites (experiment : String) (inherited : List String) : List String :=
  ((experiment :: inherited).insertionSort (· ≤ ·)).dedup

/-- The loop over the suites, with its cases and failures so far. -/
def evaluateRequired (tools : Tools) (hash : String) :
    List String → Nat → List String → Deed (Nat × List String)
  | [], cases, failures => return (cases, failures)
  | suite :: suites, cases, failures => do
      let evaluated ← registry (evaluateSuite tools.toTooling hash suite)
      let _ ← compareCandidate tools suite hash
      evaluateRequired tools hash suites (cases + evaluated.cases)
        (failures ++ evaluated.failures.map fun failure => s!"{suite}: {failure}")

def submitCandidate (tools : Tools) (experiment : String) (manifest : CandidateManifest) :
    Deed EvaluationReport := do
  let definition := manifest.definition
  let baselineHash ← registry (observe (activeBaselineHash definition.name definition.inputScope))
  let hash ← registry (register tools.toTooling manifest)
  let inherited ← inheritedSuites baselineHash
  let required := wantedSuites experiment inherited
  require (required.length ≤ maxInheritedSuites)
    (.limit "candidate inherits too many protected comparison suites")
  registry (designateRequired hash required)
  let results ← evaluateRequired tools hash required 0 []
  return {
    toolHash := hash
    passed := results.1 ≠ 0 && results.2.isEmpty
    cases := results.1
    failures := results.2 }

/-- The revocation has failed: note the grant if it is in force still. -/
def noteUnrevoked (grantId : String) : Deed Unit :=
  transaction fun _ bench =>
    .ok ((), if (bench.tables.grants.get? grantId).any fun grant => !grant.revoked then
      { bench with unrevoked := bench.unrevoked ++ [grantId] }
    else bench)

def revokeIssued (grantId : String) : Deed Unit :=
  rescue (registry (Evolution.revoke grantId)) fun error => do
    noteUnrevoked grantId
    throw error

/-- What `approve_exact` and `rollback_exact` have in common. -/
def grantExact (activate : ApprovalGrant → Action Unit) (displayedHash : String) (scope : Scope) :
    Deed String := do
  validateCandidateSources displayedHash
  requireComparisons displayedHash
  let grant ← registry (issueGrant displayedHash scope none)
  rescue
    (do
      registry (activate grant)
      validateCandidateSources displayedHash)
    fun error => do
      revokeIssued grant.grantId
      throw error
  return grant.grantId

def approveExact (displayedHash : String) (approvedScope : Scope) : Deed String :=
  grantExact activateGrant displayedHash approvedScope

def rollbackExact (name displayedHash : String) (scope : Scope) : Deed String :=
  grantExact (rollbackGrant name) displayedHash scope

def revoke (grantId : String) : Deed Unit := registry (Evolution.revoke grantId)

structure AssessmentReceipt where
  hash : String
  outcome : String
  retired : Bool
  /-- The grant of the version that was rolled back to, or the text of the error. -/
  rollback : Option (Except String String) := none

/-- `regression` and `retire` take a version out of service. -/
def retires (outcome : String) : Bool := outcome ∈ ["regression", "retire"]

def validateAssessmentRollback (name : String) (scope : Scope) (assessedHash : String) :
    Option String → Deed Unit
  | none => return
  | some target => do
      let found ← registry (candidate target)
      let previous ← expect (.notFound target) found
      require (target ≠ assessedHash && previous.definition.name = name &&
        previous.definition.inputScope = scope) .approvalMismatch

/-- A rollback that fails is part of the receipt. -/
def rollbackAssessed (name : String) (scope : Scope) : Option String →
    Deed (Option (Except String String))
  | none => return none
  | some target =>
      rescue
        (do
          let grantId ← rollbackExact name target scope
          return some (.ok grantId))
        fun error => return some (.error error.text)

def assess (scope : Scope) (hash outcome evidence : String) (rollback : Option String) :
    Deed AssessmentReceipt := do
  require (rollback.isNone || retires outcome) .approvalMismatch
  let found ← registry (candidate hash)
  let candidate ← expect (.notFound hash) found
  validateAssessmentRollback candidate.definition.name scope hash rollback
  registry (Evolution.assess hash scope outcome evidence)
  let rollback ← rollbackAssessed candidate.definition.name scope rollback
  return { hash, outcome, retired := retires outcome, rollback }

/-- What is known of a part of the registry's work. -/
theorem sat_registry {α : Type} {rely guar : Registry → Registry → Prop}
    {post : Except EvolutionError α → Registry → Prop} {rely' guar' : Bench → Bench → Prop}
    (hrely : ∀ s t, rely' s t → rely s.registry t.registry)
    (hguar : ∀ s a, guar s.registry a → guar' s { s with registry := a })
    {p : Action α} {s : Bench} (h : Sat rely guar post p.run s.registry) :
    Sat rely' guar' (fun r t => post r t.registry) (registry p).run s := by
  have hget : ∀ (a : Registry) (t : Bench), Bench.registry { t with registry := a } = a :=
    fun _ _ => rfl
  exact Sat.zoom hget hrely hguar h

/-! ### What only reads -/

section Reads

variable {α : Type} {hash : String}

/-- No statement changes anything. -/
abbrev Reads (p : Deed α) : Prop := Within (fun s t => t = s) p.run

theorem reads_transaction {f : Given → Bench → Except EvolutionError (α × Bench)}
    (h : ∀ i s a t, f i s = .ok (a, t) → t = s) : Reads (transaction f) :=
  within_transaction (fun _ => rfl) h

theorem reads_consult {f : Memory → Except String α} : Reads (consult f) := by
  refine reads_transaction fun given bench a t h => ?_
  split at h
  case h_1 => cases h
  case h_2 =>
    split at h <;> cases h
    rfl

theorem reads_validateCandidateSources : Reads (validateCandidateSources hash) := by
  refine within_bind (reads_transaction fun given bench a t h => ?_) fun found => ?_
  · cases h
    rfl
  cases found with
  | false => exact within_pure
  | true =>
      refine within_bind reads_consult fun _ => within_bind reads_consult fun table => ?_
      cases table with
      | false => exact within_pure
      | true =>
          exact within_bind reads_consult fun ids => within_check fun _ =>
            within_forM fun _ _ => reads_consult

theorem reads_registry_select {f : Tables → α} : Reads (registry (select f)) :=
  fun _ _ _ _ => ⟨rfl, trivial⟩

theorem reads_requireComparisons : Reads (requireComparisons hash) := by
  refine within_bind reads_registry_select fun suites => within_check fun _ =>
    within_forM fun suite _ => within_bind (within_query fun _ => rfl) fun latest => ?_
  exact fun _ => trivial

end Reads

end Pikamux.Workshop
