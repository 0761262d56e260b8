import Pikamux.Assistant.Workshop

/-!
# Assistant — Inheritance

Which protected suites a version keeps of the one that it replaces.

* `Lists` — the rows of required suites that come with a call.
* `Swaps` — what an approval does to the versions in force.
* `Designates` — the submission that has written the suites of a candidate.
* `suites_accumulate` — a version keeps the suites of the one that it replaces exactly if that
  submission had named them.
-/

namespace Pikamux.Workshop

open Support Support.Program Evolution

/-! ### Calls -/

inductive Order where
  | protectCases (experiment : String) (cases : List EvaluationCase)
  | submitCandidate (experiment : String) (manifest : CandidateManifest)
  | approveExact (displayedHash : String) (approvedScope : Scope)
  | rollbackExact (name displayedHash : String) (scope : Scope)
  | revoke (grantId : String)
  | assess (scope : Scope) (hash outcome evidence : String) (rollback : Option String)

inductive Outcome where
  | done
  | evaluated (report : EvaluationReport)
  | granted (grantId : String)
  | assessed (receipt : AssessmentReceipt)

def Order.deed (tools : Tools) : Order → Deed Outcome
  | protectCases experiment cases => do
      Workshop.protectCases tools experiment cases
      return .done
  | submitCandidate experiment manifest => do
      let report ← Workshop.submitCandidate tools experiment manifest
      return .evaluated report
  | approveExact displayedHash approvedScope => do
      let grantId ← Workshop.approveExact displayedHash approvedScope
      return .granted grantId
  | rollbackExact name displayedHash scope => do
      let grantId ← Workshop.rollbackExact name displayedHash scope
      return .granted grantId
  | revoke grantId => do
      Workshop.revoke grantId
      return .done
  | assess scope hash outcome evidence rollback => do
      let receipt ← Workshop.assess scope hash outcome evidence rollback
      return .assessed receipt

/-- A call, with what its statements are given from outside. -/
structure Job where
  order : Order
  inputs : List Given

/-- A call that ends within its inputs has a result; otherwise its process has ended. -/
def perform (tools : Tools) (job : Job) (bench : Bench) :
    Option (Except EvolutionError Outcome) × Bench :=
  (job.order.deed tools).run.play job.inputs bench

/-! ### Rows -/

/-- The rows of required suites stay, and there are no new ones but `new`. -/
structure Lists (new : String → String → Prop) (s t : Tables) : Prop where
  kept : ∀ key, s.required.contains key = true → t.required.contains key = true
  listed : ∀ hash suite, t.required.contains (hash, suite) = true →
    s.required.contains (hash, suite) = true ∨ new hash suite

/-- No suite is required of the candidate. -/
def NoRows (hash : String) (db : Tables) : Prop :=
  ∀ suite, db.required.contains (hash, suite) = false

section Rows

variable {new : String → String → Prop} {s t u : Tables} {hash : String}

theorem Lists.of_eq (h : t.required = s.required) : Lists new s t :=
  ⟨fun _ hkey => h ▸ hkey, fun _ _ hrow => .inl (h ▸ hrow)⟩

theorem Lists.refl (s : Tables) : Lists new s s := .of_eq rfl

theorem Lists.trans (h : Lists new s t) (h' : Lists new t u) : Lists new s u where
  kept key hkey := h'.kept key (h.kept key hkey)
  listed hash suite hrow := (h'.listed hash suite hrow).elim (h.listed hash suite) .inr

/-- The first row of a candidate is a new one. -/
theorem Lists.first (h : Lists new s t) (hs : NoRows hash s) {suite : String}
    (hrow : t.required.contains (hash, suite) = true) : new hash suite := by
  refine (h.listed hash suite hrow).resolve_left fun hold => ?_
  rw [hs suite] at hold
  cases hold

theorem not_noRows : ¬ NoRows hash s ↔ ∃ suite, s.required.contains (hash, suite) = true := by
  simp [NoRows]

theorem isEmpty_requiredSuites : (s.requiredSuites hash).isEmpty = true ↔ NoRows hash s := by
  rw [List.isEmpty_iff, List.eq_nil_iff_forall_not_mem, NoRows]
  simp only [mem_requiredSuites, Bool.not_eq_true]

end Rows

/-! ### Statements that leave the rows -/

section Steady

variable {α : Type} {tools : Tooling}

/-- No statement touches the rows of required suites. -/
abbrev Steady (p : Action α) : Prop :=
  Within (fun s t => t.tables.required = s.tables.required) p.run

theorem steady_select (f : Tables → α) : Steady (select f) := within_query fun _ => rfl

theorem steady_observe (f : Int → Tables → α) : Steady (observe f) := by
  refine within_transaction (fun _ => rfl) fun i s a t h => ?_
  cases h
  rfl

theorem steady_require {c : Bool} {e : EvolutionError} : Steady (require c e : Action Unit) :=
  fun _ => trivial

theorem steady_statement {f : Chance → Tables → Except EvolutionError (α × Tables)}
    (h : ∀ i db r db', f i db = .ok (r, db') → db'.required = db.required) :
    Steady (statement f) := by
  refine within_transaction (fun _ => rfl) fun i s r t hrun => ?_
  obtain ⟨-, -, hrun⟩ := bind_eq_ok.mp hrun
  obtain ⟨⟨r', db⟩, hf, hrun⟩ := bind_eq_ok.mp hrun
  cases hrun
  exact h i s.tables r db hf

theorem steady_protectSuite (suiteId : String) (cases : List EvaluationCase) :
    Steady (protectSuite tools suiteId cases) := by
  refine within_check fun _ => within_check fun _ => within_check fun _ => within_check fun _ =>
    within_check fun _ => within_bind (steady_select _) fun _ => within_check fun _ => ?_
  refine steady_statement fun i db r db' hf => ?_
  cases hf
  rw [Tables.protect]
  split <;> rfl

theorem steady_evaluateSuite (hash suiteId : String) :
    Steady (evaluateSuite tools hash suiteId) := by
  refine within_bind (steady_select _) fun _ => within_check fun _ =>
    within_bind (steady_select _) fun _ => within_check fun _ => within_bind ?_ fun _ =>
    within_bind ?_ fun _ => within_pure
  · refine within_transaction (fun _ => rfl) fun i s r t hrun => ?_
    cases hrun
    rfl
  · refine steady_statement fun i db r db' hf => ?_
    cases hf
    rfl

theorem steady_revoke (grantId : String) : Steady (Evolution.revoke grantId) := by
  refine steady_statement fun i db r db' hf => ?_
  obtain ⟨-, -, hf⟩ := bind_eq_ok.mp hf
  cases hf
  rfl

theorem steady_assess (hash : String) (scope : Scope) (outcome evidence : String) :
    Steady (Evolution.assess hash scope outcome evidence) := by
  refine within_check fun _ => within_bind (steady_select _) fun _ =>
    within_check fun _ => within_check fun _ => steady_statement fun i db r db' hf => ?_
  dsimp only at hf
  split at hf <;>
  · cases hf
    rfl

end Steady

/-! ### Versions in force -/

/-- Only this tool is made active, when every suite that is required of it is passed and never
failed. -/
structure Swaps (hash : String) (s t : Tables) : Prop where
  required : t.required = s.required
  evaluations : t.evaluations = s.evaluations
  activations : ∀ name row, t.activations.get? name = some row →
    s.activations.get? name = some row ∨ row.hash = hash ∧ Eligible hash s

section Swapping

variable {hash : String} {s t u : Tables} {α : Type}

theorem eligible_of_eq (h : Eligible hash t) (hrequired : t.required = s.required)
    (hevaluations : t.evaluations = s.evaluations) : Eligible hash s := by
  obtain ⟨hpassed, hunfailed, hsome⟩ := h
  simp only [Tables.passed, Tables.failed, hrequired, hevaluations] at hpassed hunfailed hsome
  exact ⟨hpassed, hunfailed, hsome⟩

theorem Swaps.of_eq (hrequired : t.required = s.required)
    (hevaluations : t.evaluations = s.evaluations)
    (hactivations : t.activations = s.activations) : Swaps hash s t :=
  ⟨hrequired, hevaluations, fun _ _ hrow => .inl (hactivations ▸ hrow)⟩

theorem Swaps.refl (s : Tables) : Swaps hash s s := .of_eq rfl rfl rfl

theorem Swaps.trans (h : Swaps hash s t) (h' : Swaps hash t u) : Swaps hash s u where
  required := h'.required.trans h.required
  evaluations := h'.evaluations.trans h.evaluations
  activations name row hrow := by
    rcases h'.activations name row hrow with hold | ⟨hhash, heligible⟩
    · exact h.activations name row hold
    · exact .inr ⟨hhash, eligible_of_eq heligible h.required h.evaluations⟩

/-- A program that is run alone takes such steps. -/
abbrev Alone (guar : Tables → Tables → Prop) (p : Action α) : Prop :=
  ∀ s, Yields Eq (fun a b => guar a.tables b.tables) (fun _ _ => True) p s

theorem alone_select (f : Tables → α) : Alone (Swaps hash) (select f) :=
  fun _ => yields_query (fun s => .refl s.tables) fun _ _ _ _ => trivial

theorem alone_statement {f : Chance → Tables → Except EvolutionError (α × Tables)}
    (h : ∀ i db r db', f i db = .ok (r, db') → Swaps hash db db') :
    Alone (Swaps hash) (statement f) := by
  refine fun _ => yields_transaction (fun s => .refl s.tables) fun i s r t _ hrun => ?_
  obtain ⟨-, -, hrun⟩ := bind_eq_ok.mp hrun
  obtain ⟨⟨r', db⟩, hf, hrun⟩ := bind_eq_ok.mp hrun
  cases hrun
  exact ⟨h i s.tables r db hf, trivial⟩

theorem alone_clock : Alone (Swaps hash) clock := by
  refine fun _ => yields_transaction (fun s => .refl s.tables) fun i s r t _ hrun => ?_
  cases hrun
  exact ⟨.refl s.tables, trivial⟩

/-- The grant is for the tool. -/
theorem alone_issueGrant (scope : Scope) (expiry : Option Expiry) (s : Registry) :
    Yields Eq (fun a b => Swaps hash a.tables b.tables) (fun grant _ => grant.toolHash = hash)
      (issueGrant hash scope expiry) s := by
  refine (alone_clock s).bind fun _ t _ => ?_
  refine yields_bind (fun _ _ => True) (yields_check fun _ _ => trivial) fun expiresAt t _ => ?_
  refine (alone_select _ t).bind fun _ t _ => ?_
  refine yields_bind (fun _ _ => True) (yields_check fun _ _ => trivial) fun _ t _ => ?_
  refine yields_bind (fun _ _ => True) (yields_check fun _ _ => trivial) fun _ t _ => ?_
  refine (alone_statement (fun i db r db' hf => ?_) t).bind fun _ t _ => yields_pure rfl
  obtain ⟨-, -, hf⟩ := bind_eq_ok.mp hf
  obtain ⟨grants, -, hf⟩ := bind_eq_ok.mp hf
  cases hf
  exact .of_eq rfl rfl rfl

theorem alone_revoke (grantId : String) : Alone (Swaps hash) (Evolution.revoke grantId) := by
  refine alone_statement fun i db r db' hf => ?_
  obtain ⟨-, -, hf⟩ := bind_eq_ok.mp hf
  cases hf
  exact .of_eq rfl rfl rfl

theorem alone_ensureCandidateEligible (s : Registry) :
    Yields Eq (fun a b => Swaps hash a.tables b.tables) (fun _ t => Eligible hash t.tables)
      (ensureCandidateEligible hash) s := by
  refine (alone_select _ s).bind fun _ t _ => ?_
  refine yields_bind (fun _ _ => True) (yields_check fun _ _ => trivial) fun _ t _ => ?_
  refine yields_bind (fun checked t => checked = t.tables)
    (yields_query (fun s => .refl s.tables) fun t a _ ha => ?_) fun checked t ht => ?_
  · cases ha
    rfl
  refine yields_bind (fun _ t => Eligible hash t.tables) (yields_check fun _ hc => ?_)
    fun _ t ht => yields_pure ht
  subst ht
  rw [ensure_eq_ok, Bool.and_eq_true, decide_eq_true_eq, decide_eq_true_eq] at hc
  exact eligible_of_eligibility hc.1 hc.2

theorem alone_storeActivation {s : Registry} {record : CandidateRecord} {grant : ApprovalGrant}
    {checked : Tables} (h : Eligible hash s.tables) :
    Yields Eq (fun a b => Swaps hash a.tables b.tables) (fun _ _ => True)
      (storeActivation record hash grant checked) s := by
  refine yields_transaction (fun s => .refl s.tables) fun i t a u ht hrun => ⟨?_, trivial⟩
  obtain ⟨-, -, hrun⟩ := bind_eq_ok.mp hrun
  obtain ⟨-, -, hrun⟩ := bind_eq_ok.mp hrun
  obtain ⟨-, -, hrun⟩ := bind_eq_ok.mp hrun
  cases hrun
  subst ht
  refine ⟨rfl, rfl, fun name row hrow => ?_⟩
  dsimp only at hrow
  rw [Table.get?_upsert] at hrow
  split at hrow
  case isTrue =>
    cases hrow
    exact .inr ⟨rfl, h⟩
  case isFalse => exact .inl hrow

theorem alone_activateGrant {grant : ApprovalGrant} (h : grant.toolHash = hash) :
    Alone (Swaps hash) (activateGrant grant) := by
  intro s
  refine (alone_select _ s).bind fun _ t _ => ?_
  refine yields_bind (fun _ _ => True) (yields_check fun _ _ => trivial) fun record t _ => ?_
  refine (alone_select _ t).bind fun _ t _ => ?_
  refine yields_bind (fun _ _ => True) (yields_check fun _ _ => trivial) fun row t _ => ?_
  refine (alone_clock t).bind fun now t _ => ?_
  refine yields_bind (fun _ _ => row.hash = hash) (yields_check fun _ hvalid => ?_)
    fun _ t hrow => ?_
  · simp only [validateGrantActivation, ensure_eq_ok, Bool.and_eq_true, decide_eq_true_eq] at hvalid
    exact hvalid.1.1.1.trans h
  subst hrow
  exact (alone_ensureCandidateEligible t).bind fun checked t ht => alone_storeActivation ht

theorem alone_rollbackGrant {grant : ApprovalGrant} (name : String) (h : grant.toolHash = hash) :
    Alone (Swaps hash) (rollbackGrant name grant) := by
  intro s
  refine (alone_select _ s).bind fun _ t _ => ?_
  refine yields_bind (fun _ _ => True) (yields_check fun _ _ => trivial) fun record t _ => ?_
  refine yields_bind (fun _ _ => True) (yields_check fun _ _ => trivial) fun _ t _ => ?_
  exact alone_activateGrant h t

end Swapping

/-! ### Methods run alone -/

section Methods

variable {R : Tables → Tables → Prop} {α β : Type}

/-- A method that is run alone takes such steps. -/
abbrev Performs (R : Tables → Tables → Prop) (p : Deed α) : Prop :=
  ∀ s, Yields Eq (fun a b => R a.tables b.tables) (fun _ _ => True) p s

theorem performs_pure {a : α} : Performs R (pure a : Deed α) := fun _ => yields_pure trivial

theorem performs_check {x : Except EvolutionError α} : Performs R (check x : Deed α) :=
  fun _ => yields_check fun _ _ => trivial

theorem performs_bind {p : Deed α} {k : α → Deed β} (hp : Performs R p)
    (hk : ∀ a, Performs R (k a)) : Performs R (p >>= k) :=
  fun s => (hp s).bind fun a t _ => hk a t

theorem performs_rescue {p : Deed α} {handler : EvolutionError → Deed α} (hp : Performs R p)
    (hhandler : ∀ e, Performs R (handler e)) : Performs R (rescue p handler) :=
  fun s => sat_rescue ((hp s).mono fun _ t _ => ⟨fun _ _ _ _ => trivial, fun e _ => hhandler e t⟩)

theorem performs_of_reads (hrefl : ∀ db, R db db) {p : Deed α} (h : Reads p) : Performs R p :=
  fun _ => h.yields fun a b hab => by
    subst hab
    exact hrefl b.tables

/-- What is done to the registry alone. -/
theorem yields_registry {post : α → Registry → Prop} {p : Action α} {s : Bench}
    (h : Yields Eq (fun a b => R a.tables b.tables) post p s.registry) :
    Yields Eq (fun a b => R a.tables b.tables) (fun a t => post a t.registry) (registry p) s := by
  refine sat_registry (fun t t' ht => ?_) (fun _ _ hstep => hstep) h
  rw [ht]

theorem performs_registry {p : Action α} (h : ∀ s, Yields Eq (fun a b => R a.tables b.tables)
    (fun _ _ => True) p s) : Performs R (registry p) :=
  fun s => yields_registry (h s.registry)

end Methods

/-! ### Methods that leave the rows -/

section Quiet

variable {α : Type} {tools : Tools} {hash : String}

/-- Run alone, a method leaves the rows of required suites. -/
abbrev Quiet (p : Deed α) : Prop := Performs (fun a b => b.required = a.required) p

theorem quiet_registry {p : Action α} (h : Steady p) : Quiet (registry p) :=
  performs_registry fun _ => h.yields fun _ _ => id

theorem quiet_runComparisonCases {definition : ToolDefinition} {cases : List EvaluationCase} :
    Quiet (runComparisonCases tools definition cases) := by
  refine fun _ => yields_transaction (fun _ => rfl) fun given bench a t _ h => ?_
  obtain ⟨metrics, -, h⟩ := bind_eq_ok.mp h
  cases h
  exact ⟨rfl, trivial⟩

theorem quiet_persistComparison {receipt : ComparisonReceipt} :
    Quiet (persistComparison receipt) := by
  refine fun _ => yields_transaction (fun _ => rfl) fun given bench a t _ h => ?_
  obtain ⟨-, -, h⟩ := bind_eq_ok.mp h
  cases h
  exact ⟨rfl, trivial⟩

theorem quiet_compareBaseline {baseline : Option CandidateRecord} {candidate : CandidateRecord}
    {cases : List EvaluationCase} : Quiet (compareBaseline tools baseline candidate cases) := by
  rw [compareBaseline]
  split
  case h_1 => exact performs_pure
  case h_2 => exact performs_bind quiet_runComparisonCases fun _ => performs_pure

theorem quiet_candidateOf (hash : Option String) : Quiet (candidateOf hash) := by
  cases hash with
  | none => exact performs_pure
  | some hash => exact quiet_registry (steady_select _)

theorem quiet_compareCandidate {suiteId : String} :
    Quiet (compareCandidate tools suiteId hash) :=
  performs_bind (quiet_registry (steady_select _)) fun _ => performs_bind performs_check fun _ =>
    performs_bind (quiet_registry (steady_select _)) fun _ => performs_bind performs_check fun _ =>
    performs_bind quiet_runComparisonCases fun _ =>
    performs_bind (quiet_registry (steady_observe _)) fun _ =>
    performs_bind (quiet_candidateOf _) fun _ => performs_bind quiet_compareBaseline fun _ =>
    performs_bind quiet_persistComparison fun _ => performs_pure

theorem quiet_evaluateRequired {suites failures : List String} {cases : Nat} :
    Quiet (evaluateRequired tools hash suites cases failures) := by
  induction suites generalizing cases failures with
  | nil => exact performs_pure
  | cons suite suites ih =>
      exact performs_bind (quiet_registry (steady_evaluateSuite hash suite)) fun _ =>
        performs_bind quiet_compareCandidate fun _ => ih

end Quiet

/-! ### Approvals -/

section Approvals

variable {hash : String} {activate : ApprovalGrant → Action Unit}

theorem swaps_revokeIssued (grantId : String) : Performs (Swaps hash) (revokeIssued grantId) := by
  refine performs_rescue (performs_registry (alone_revoke grantId)) fun _ => ?_
  refine performs_bind (fun _ => yields_transaction (fun s => .refl s.tables) fun i s a t _ h => ?_)
    fun _ => performs_check
  cases h
  refine ⟨?_, trivial⟩
  split <;> exact .refl s.tables

theorem swaps_grantExact (hactivate : ∀ grant : ApprovalGrant, grant.toolHash = hash →
      Alone (Swaps hash) (activate grant)) (scope : Scope) :
    Performs (Swaps hash) (grantExact activate hash scope) := by
  have hsources : Performs (Swaps hash) (validateCandidateSources hash) :=
    performs_of_reads .refl reads_validateCandidateSources
  refine performs_bind hsources fun _ =>
    performs_bind (performs_of_reads .refl reads_requireComparisons) fun _ s => ?_
  refine (yields_registry (alone_issueGrant scope none s.registry)).bind fun grant t hgrant => ?_
  refine (performs_bind (performs_rescue ?_ fun e => ?_) fun _ => performs_pure) t
  · exact performs_bind (performs_registry (hactivate grant hgrant)) fun _ => hsources
  · exact performs_bind (swaps_revokeIssued _) fun _ => performs_check

theorem swaps_approveExact (scope : Scope) : Performs (Swaps hash) (approveExact hash scope) :=
  swaps_grantExact (fun _ => alone_activateGrant) scope

theorem swaps_rollbackExact (name : String) (scope : Scope) :
    Performs (Swaps hash) (rollbackExact name hash scope) :=
  swaps_grantExact (fun _ => alone_rollbackGrant name) scope

theorem Performs.quiet {α : Type} {p : Deed α} (h : Performs (Swaps hash) p) : Quiet p :=
  fun s => (h s).weaken (fun _ _ => id) fun _ _ hstep => hstep.required

theorem quiet_assess {scope : Scope} {outcome evidence : String} {rollback : Option String} :
    Quiet (assess scope hash outcome evidence rollback) := by
  refine performs_bind performs_check fun _ => performs_bind (quiet_registry (steady_select _))
    fun _ => performs_bind performs_check fun candidate => performs_bind ?_ fun _ =>
    performs_bind (quiet_registry (steady_assess hash scope outcome evidence)) fun _ =>
    performs_bind ?_ fun _ => performs_pure
  · cases rollback with
    | none => exact performs_pure
    | some target =>
        exact performs_bind (quiet_registry (steady_select _)) fun _ =>
          performs_bind performs_check fun _ => performs_check
  · cases rollback with
    | none => exact performs_pure
    | some target =>
        refine performs_rescue (performs_bind ?_ fun _ => performs_pure) fun _ => performs_pure
        exact (swaps_rollbackExact candidate.definition.name scope).quiet

end Approvals

/-! ### Submissions -/

/-- The time at which a call begins. -/
def Job.began (job : Job) : Int :=
  match job.inputs with
  | [] => 0
  | given :: _ => given.chance.now

/-- The call submits this candidate, and this suite is the experiment or required of the version
that is in force when the call begins. -/
def Names (tools : Tools) (hash suite : String) (job : Job) (db : Tables) : Prop :=
  ∃ experiment manifest, job.order = .submitCandidate experiment manifest ∧
    validateDefinition tools.toTooling manifest.definition = .ok hash ∧
    (suite = experiment ∨ ∃ baseline,
      activeBaselineHash manifest.definition.name manifest.definition.inputScope job.began db =
        some baseline ∧
      db.required.contains (baseline, suite) = true)

section Submissions

variable {tools : Tools} {hash : String} {new : String → String → Prop}

/-- What `designate_required` adds, run alone. -/
theorem lists_designateRequired {suites : List String} {s : Registry}
    (hnew : NoRows hash s.tables → ∀ suite ∈ suites, new hash suite) :
    Yields Eq (fun a b => Lists new a.tables b.tables) (fun _ _ => True)
      (designateRequired hash suites) s := by
  have hselect {α : Type} (f : Tables → α) (t : Registry) :
      Yields Eq (fun a b => Lists new a.tables b.tables) (fun a u => a = f t.tables ∧ u = t)
        (select f) t := by
    refine yields_query (fun u => .refl u.tables) fun u a hu ha => ?_
    cases ha
    exact ⟨congrArg (fun r => f r.tables) hu.symm, hu.symm⟩
  refine yields_bind (fun _ t => t = s) (yields_check fun _ _ => rfl) fun _ t ht => ?_
  subst ht
  refine (hselect _ _).bind fun found u hu => ?_
  obtain ⟨-, rfl⟩ := hu
  refine yields_bind (fun _ t => t = u) (yields_check fun _ _ => rfl) fun _ t ht => ?_
  subst ht
  refine (hselect _ _).bind fun existing u hu => ?_
  obtain ⟨rfl, rfl⟩ := hu
  dsimp only
  split
  case isTrue hempty =>
    have hrows := isEmpty_requiredSuites.mp hempty
    have hprotected : Steady ((suites.insertionSort (· ≤ ·)).dedup.forM requireProtected) :=
      within_forM fun suite _ => within_bind (steady_select _) fun _ => steady_require
    refine yields_bind (fun _ _ => True) (hprotected.yields fun _ _ => .of_eq) fun _ t _ => ?_
    have hinsert : Within (fun a b => Lists new a.tables b.tables)
        ((suites.insertionSort (· ≤ ·)).dedup.forM
          (insertRequired hash (suites.insertionSort (· ≤ ·)).dedup)).run := by
      refine within_forM fun suite hsuite => ?_
      refine within_transaction (fun a => .refl a.tables) fun i a r b hrun => ?_
      obtain ⟨-, -, hrun⟩ := bind_eq_ok.mp hrun
      obtain ⟨required, hinsert, hrun⟩ := bind_eq_ok.mp hrun
      cases hrun
      have hget := Table.get?_insert? (context_eq_ok.mp hinsert)
      refine ⟨fun key hkey => ?_, fun hash' suite' hrow => ?_⟩
      · rw [Table.contains, hget]
        split
        case isTrue => rfl
        case isFalse => exact hkey
      · rw [Table.contains, hget] at hrow
        split at hrow
        case isTrue hkey =>
          cases hkey
          exact .inr (hnew hrows suite (mem_wanted.mp hsuite))
        case isFalse => exact .inl hrow
    exact hinsert.yields fun _ _ => id
  case isFalse => exact yields_check fun _ _ => trivial

/-- What is left of a submission once the version in force is known. -/
def submitFrom (tools : Tools) (experiment : String) (manifest : CandidateManifest)
    (baselineHash : Option String) : Deed EvaluationReport := do
  let hash ← registry (register tools.toTooling manifest)
  let inherited ← inheritedSuites baselineHash
  let required := wantedSuites experiment inherited
  require (required.length ≤ maxInheritedSuites)
    (.limit "candidate inherits too many protected comparison suites")
  registry (designateRequired hash required)
  let results ← evaluateRequired tools hash required 0 []
  return {
    toolHash := hash
    passed := results.1 ≠ 0 && results.2.isEmpty
    cases := results.1
    failures := results.2 }

/-- The suites that a baseline has to give. -/
def inheritedFrom (baselineHash : Option String) (db : Tables) : List String :=
  baselineHash.elim [] db.requiredSuites

theorem yields_register {definition : CandidateManifest} {s : Registry} :
    Yields Eq (fun a b => b.tables.required = a.tables.required)
      (fun hash t => t.tables.required = s.tables.required ∧
        validateDefinition tools.toTooling definition.definition = .ok hash)
      (register tools.toTooling definition) s := by
  have hvalid : Yields Eq (fun a b => b.tables.required = a.tables.required)
      (fun hash _ => validateDefinition tools.toTooling definition.definition = .ok hash)
      (register tools.toTooling definition) s := by
    refine yields_bind (fun _ _ => True) (yields_check fun _ _ => trivial) fun _ t _ => ?_
    refine yields_bind (fun hash _ => validateDefinition tools.toTooling definition.definition =
      .ok hash) (yields_check fun _ h => h) fun hash t hhash => ?_
    refine yields_bind (fun _ _ => True) ?_ fun _ t _ => yields_pure hhash
    refine Within.yields (steady_statement fun i db r db' hf => ?_) fun _ _ => id
    cases hf
    rfl
  have hreach := hvalid.reach (R := fun a b : Registry => b.tables.required = a.tables.required)
    (fun _ => rfl) (fun _ _ _ h h' => h'.trans h) (fun a b (h : a = b) => h ▸ rfl) fun _ _ => id
  exact hreach.mono fun r t hr hash h => ⟨hr.1, hr.2 hash h⟩

theorem yields_inheritedSuites {baselineHash : Option String} {s : Bench} :
    Yields Eq (fun a b => b.tables.required = a.tables.required)
      (fun inherited t => inherited = inheritedFrom baselineHash s.tables ∧
        t.tables.required = s.tables.required) (inheritedSuites baselineHash) s := by
  cases baselineHash with
  | none => exact yields_pure ⟨rfl, rfl⟩
  | some baseline =>
      rintro _ _ rfl
      refine ⟨rfl, ?_⟩
      rintro _ ⟨⟩
      exact ⟨rfl, rfl⟩

/-- A submission adds suites of its candidate only, when there are none. -/
theorem lists_submitFrom {experiment : String} {manifest : CandidateManifest}
    {baselineHash : Option String} {s : Bench}
    (hnew : ∀ hash, validateDefinition tools.toTooling manifest.definition = .ok hash →
      NoRows hash s.tables → ∀ suite ∈ experiment :: inheritedFrom baselineHash s.tables,
        new hash suite) :
    Yields Eq (fun a b => Lists new a.tables b.tables) (fun _ _ => True)
      (submitFrom tools experiment manifest baselineHash) s := by
  have hlists : ∀ a b : Tables, b.required = a.required → Lists new a b := fun _ _ => .of_eq
  refine yields_bind (fun hash t => t.tables.required = s.tables.required ∧
    validateDefinition tools.toTooling manifest.definition = .ok hash) ?_ fun hash t h => ?_
  · exact yields_registry (yields_register.weaken (fun _ _ => id) fun _ _ => hlists _ _)
  obtain ⟨hrequired, hvalid⟩ := h
  refine yields_bind _ (yields_inheritedSuites.weaken (fun _ _ => id) fun _ _ => hlists _ _)
    fun inherited u h => ?_
  obtain ⟨rfl, hkept⟩ := h
  refine yields_bind (fun _ t => t = u) (yields_check fun _ _ => rfl) fun _ v hv => ?_
  subst hv
  have hsame : v.tables.required = s.tables.required := hkept.trans hrequired
  refine yields_bind (fun _ _ => True) (yields_registry (lists_designateRequired ?_))
    fun _ v _ => ?_
  · intro hrows suite hsuite
    refine hnew hash hvalid (fun suite => ?_) suite ?_
    · rw [← hsame]
      exact hrows suite
    · simp only [wantedSuites, mem_wanted] at hsuite
      cases baselineHash with
      | none => exact hsuite
      | some baseline =>
          simp only [inheritedFrom, Option.elim_some, Tables.requiredSuites, hrequired] at hsuite ⊢
          exact hsuite
  · refine yields_bind (fun _ _ => True) ?_ fun _ _ _ => yields_pure trivial
    exact (quiet_evaluateRequired v).weaken (fun _ _ => id) fun _ _ => hlists _ _

/-- The first statement reads the version in force. -/
theorem play_submitCandidate {experiment : String} {manifest : CandidateManifest} {given : Given}
    {inputs : List Given} {s : Bench} :
    (Order.deed tools (.submitCandidate experiment manifest)).run.play (given :: inputs) s =
      (do
        let report ← submitFrom tools experiment manifest (activeBaselineHash
          manifest.definition.name manifest.definition.inputScope given.chance.now s.tables)
        return Outcome.evaluated report : Deed Outcome).run.play inputs s :=
  rfl

theorem mem_inherited {experiment suite : String} {baselineHash : Option String} {db : Tables} :
    suite ∈ experiment :: inheritedFrom baselineHash db ↔ suite = experiment ∨
      ∃ baseline, baselineHash = some baseline ∧
        db.required.contains (baseline, suite) = true := by
  cases baselineHash with
  | none => simp [inheritedFrom]
  | some baseline => simp [inheritedFrom, mem_requiredSuites]

/-- What is returned of a report changes nothing. -/
theorem performs_report {p : Deed EvaluationReport} {s : Bench}
    (h : Yields Eq (fun a b => Lists new a.tables b.tables) (fun _ _ => True) p s) :
    Yields Eq (fun a b => Lists new a.tables b.tables) (fun _ _ => True)
      (p >>= fun report => pure (Outcome.evaluated report)) s :=
  h.bind fun _ _ _ => yields_pure trivial

/-- **What a call adds to the required suites.** -/
theorem perform_lists (tools : Tools) (job : Job) (s : Bench) :
    Lists (fun hash suite => NoRows hash s.tables ∧ Names tools hash suite job s.tables) s.tables
      (perform tools job s).2.tables := by
  have hquiet {p : Deed Outcome} (h : Quiet p) (inputs : List Given) :
      (p.run.play inputs s).2.tables.required = s.tables.required :=
    (Sat.play (R := fun a b : Bench => b.tables.required = a.tables.required) (fun _ => rfl)
      (fun _ _ _ h h' => h'.trans h) (h s) inputs).1
  obtain ⟨order, inputs⟩ := job
  cases order with
  | submitCandidate experiment manifest =>
      cases inputs with
      | nil => exact .refl _
      | cons given inputs =>
          rw [perform, play_submitCandidate]
          have hadds : Yields Eq (fun a b : Bench => Lists (fun hash suite => NoRows hash s.tables ∧
              Names tools hash suite ⟨.submitCandidate experiment manifest, given :: inputs⟩
                s.tables) a.tables b.tables) (fun _ _ => True) _ s :=
            lists_submitFrom fun hash hvalid hrows suite hsuite =>
              ⟨hrows, experiment, manifest, rfl, hvalid, mem_inherited.mp hsuite⟩
          have hreported := performs_report hadds
          exact (hreported.play (fun a => .refl a.tables) (fun _ _ _ => .trans) inputs).1
  | protectCases experiment cases =>
      exact .of_eq (hquiet (performs_bind (quiet_registry (steady_protectSuite _ _))
        fun _ => performs_pure) inputs)
  | approveExact hash scope =>
      exact .of_eq (hquiet (performs_bind (swaps_approveExact scope).quiet
        fun _ => performs_pure) inputs)
  | rollbackExact name hash scope =>
      exact .of_eq (hquiet (performs_bind (swaps_rollbackExact name scope).quiet
        fun _ => performs_pure) inputs)
  | revoke grantId =>
      exact .of_eq (hquiet (performs_bind (quiet_registry (steady_revoke grantId))
        fun _ => performs_pure) inputs)
  | assess scope hash outcome evidence rollback =>
      exact .of_eq (hquiet (performs_bind quiet_assess fun _ => performs_pure) inputs)

end Submissions

/-! ### Runs -/

abbrev Done := Entry Bench Job (Option (Except EvolutionError Outcome))

/-- The tables that a call has left. -/
def after (tools : Tools) (e : Done) : Tables := (perform tools e.call e.before).2.tables

/-- The call has written the first suites of the candidate. -/
structure Designates (tools : Tools) (hash : String) (e : Done) : Prop where
  none : NoRows hash e.before.tables
  some : ¬ NoRows hash (after tools e)

/-- It has written all suites that it named. -/
def Whole (tools : Tools) (hash : String) (e : Done) : Prop :=
  ∀ suite, Names tools hash suite e.call e.before.tables →
    (after tools e).required.contains (hash, suite) = true

section Runs

variable {tools : Tools} {hash : String} {bench : Bench} {entries : List Done}

/-- The suites of a candidate are those of one submission. -/
structure Settled (tools : Tools) (entries : List Done) (db : Tables) : Prop where
  some : ∀ hash, ¬ NoRows hash db → ∃ e ∈ entries, Designates tools hash e
  same : ∀ hash, ∀ e ∈ entries, Designates tools hash e → ∀ suite,
    db.required.contains (hash, suite) = (after tools e).required.contains (hash, suite)

/-- **The suites of a candidate are written once.** -/
theorem settled (h : History (perform tools) NoDrift {} entries bench) :
    Settled tools entries bench.tables := by
  refine h.invariant_entries (fun entries bench => Settled tools entries bench.tables) ?_ ?_ ?_
  · refine ⟨fun hash hrows => absurd (fun _ => rfl) hrows, fun hash e he => ?_⟩
    cases he
  · intro es u job _ hsettled
    have hlists := perform_lists tools job u
    refine ⟨fun hash hrows => ?_, fun hash e he hdesignates suite => ?_⟩
    · by_cases hnone : NoRows hash u.tables
      · exact ⟨_, List.mem_append_right _ (List.mem_singleton_self _), hnone, hrows⟩
      · obtain ⟨e, he, hdesignates⟩ := hsettled.some hash hnone
        exact ⟨e, List.mem_append_left _ he, hdesignates⟩
    · rcases List.mem_append.mp he with he | he
      · have hsame := hsettled.same hash e he hdesignates
        rw [← hsame suite, Bool.eq_iff_iff]
        refine ⟨fun hrow => ?_, hlists.kept _⟩
        -- the submission has left rows, so none are added
        refine (hlists.listed hash suite hrow).resolve_right fun hnew => ?_
        refine hdesignates.some fun suite => ?_
        rw [← hsame suite]
        exact hnew.1 suite
      · rw [List.mem_singleton.mp he]
        rfl
  · intro es u u' _ hdrift
    exact hdrift.elim

/-- What a submission that has written all of its suites requires. -/
theorem Designates.rows {e : Done} (h : Designates tools hash e) (hwhole : Whole tools hash e)
    (suite : String) : (after tools e).required.contains (hash, suite) = true ↔
      Names tools hash suite e.call e.before.tables := by
  refine ⟨fun hrow => ?_, hwhole suite⟩
  exact ((perform_lists tools e.call e.before).first h.none hrow).2

theorem approve_swaps (tools : Tools) (hash : String) (scope : Scope) (inputs : List Given)
    (bench : Bench) : Swaps hash bench.tables
      (perform tools ⟨.approveExact hash scope, inputs⟩ bench).2.tables := by
  have hgranted : Performs (Swaps hash) (Order.deed tools (.approveExact hash scope)) :=
    performs_bind (swaps_approveExact scope) fun _ => performs_pure
  exact ((hgranted bench).play (R := fun a b : Bench => Swaps hash a.tables b.tables)
    (fun a => .refl a.tables) (fun _ _ _ => .trans) inputs).1

/-- **What a version keeps of the one that it replaces.**  In every run of calls on one workshop
whose statements may fail and whose processes may end, when an approval puts another version in
the place of one that has the name: it is the approved one; a submission has written the suites of
the approved one; and if that submission has written all that it named, then every suite that is
required of the old version is required of the new one, which has passed it, exactly if each of them
was the experiment of that submission or required of the version that was in force when it began. -/
theorem suites_accumulate (tools : Tools)
    (h : History (perform tools) NoDrift {} entries bench) {scope : Scope} {inputs : List Given}
    {name : String} {old new : Activation} (hold : bench.tables.activations.get? name = some old)
    (hnew : (perform tools ⟨.approveExact hash scope, inputs⟩ bench).2.tables.activations.get?
      name = some new) (hne : new.hash ≠ old.hash) :
    new.hash = hash ∧ (∃ e ∈ entries, Designates tools hash e) ∧
      ∀ e ∈ entries, Designates tools hash e → Whole tools hash e →
        ((∀ suite, bench.tables.required.contains (old.hash, suite) = true →
            bench.tables.required.contains (hash, suite) = true ∧
              bench.tables.passed hash suite = true) ↔
          ∀ suite, bench.tables.required.contains (old.hash, suite) = true →
            Names tools hash suite e.call e.before.tables) := by
  have hswaps := approve_swaps tools hash scope inputs bench
  have hsettled := settled h
  rcases hswaps.activations name new hnew with hsame | ⟨hhash, heligible⟩
  · rw [hold] at hsame
    cases hsame
    exact absurd rfl hne
  · refine ⟨hhash, hsettled.some hash (not_noRows.mpr heligible.some), ?_⟩
    intro e he hdesignates hwhole
    have hrows (suite : String) : bench.tables.required.contains (hash, suite) = true ↔
        Names tools hash suite e.call e.before.tables := by
      rw [hsettled.same hash e he hdesignates suite]
      exact hdesignates.rows hwhole suite
    constructor
    · intro hkept suite hsuite
      exact (hrows suite).mp (hkept suite hsuite).1
    · intro hnamed suite hsuite
      have hrow := (hrows suite).mpr (hnamed suite hsuite)
      exact ⟨hrow, heligible.passed suite hrow⟩

end Runs

/-! ### Two versions -/

/-- What `serde_json` prints and SHA-256 yields for the versions below; a version returns its
inputs. -/
def exampleTools : Tools where
  printDefinition definition :=
    if definition.version = 1 then exampleTooling.printDefinition definition
    else
      "\x7b\"name\":\"changed\",\"version\":2,\"input_scope\":\x7b\"values\":[\"project:" ++
        "a\"]\x7d,\"expression\":\x7b\"op\":\"input\"\x7d\x7d"
  printCases := exampleTooling.printCases
  digest text :=
    if text.utf8ByteSize = 97 && text.toList.any (· = '2') then
      "ed52732956d53502ee2083d46b632bdf804f9ff9e23136799d160a3cdbf96013"
    else exampleTooling.digest text
  execute := exampleTooling.execute
  runComparisonCases _ cases _ := .ok (cases.length, 4 * cases.length, 4 * cases.length)

def secondHash : String := "ed52732956d53502ee2083d46b632bdf804f9ff9e23136799d160a3cdbf96013"

def version (n : Nat) : CandidateManifest := ⟨⟨"changed", n, exampleScope, .input⟩, ""⟩

/-- A call with more inputs than it needs. -/
def call (order : Order) (uuid : String) : Job :=
  ⟨order, List.replicate 40 { chance := { now := 5, uuid } }⟩

def begin : List Job :=
  [call (.protectCases "basic" [exampleCase 1]) "",
    call (.protectCases "contrast" [exampleCase 2]) "",
    call (.submitCandidate "basic" (version 1)) ""]

def approveFirst : Job :=
  call (.approveExact exampleHash exampleScope) "00000000-0000-4000-8000-000000000001"

def approveSecond : Job :=
  call (.approveExact secondHash exampleScope) "00000000-0000-4000-8000-000000000002"

def submitSecond : Job := call (.submitCandidate "contrast" (version 2)) ""

/-- The first version is in force. -/
def begun : List Done × Bench := replay (perform exampleTools) {} (begin ++ [approveFirst])

/-- Both versions are submitted before the first is approved. -/
def together : List Done × Bench :=
  replay (perform exampleTools) {} (begin ++ [submitSecond, approveFirst])

/-- The second version is submitted when the first is in force, and is about to be approved. -/
theorem suites_accumulate_second : ∃ (entries : List Done) (bench : Bench),
    History (perform exampleTools) NoDrift {} entries bench ∧
      bench.tables.required.contains (secondHash, "basic") = true ∧
      bench.tables.passed secondHash "basic" = true := by
  obtain ⟨entries, s, hrun, hold, hnew, hnone, hafter, hbaseline, hfirst, hrows⟩ :
      ∃ (entries : List Done) (s : Bench), History (perform exampleTools) NoDrift {} entries s ∧
        ((perform exampleTools submitSecond s).2.tables.activations.get? "changed").map
          Activation.hash = some exampleHash ∧
        ((perform exampleTools ⟨.approveExact secondHash exampleScope, approveSecond.inputs⟩
            (perform exampleTools submitSecond s).2).2.tables.activations.get? "changed").map
          Activation.hash = some secondHash ∧
        (s.tables.requiredSuites secondHash).isEmpty = true ∧
        (perform exampleTools submitSecond s).2.tables.requiredSuites secondHash =
          ["basic", "contrast"] ∧
        activeBaselineHash "changed" exampleScope 5 s.tables = some exampleHash ∧
        s.tables.requiredSuites exampleHash = ["basic"] ∧
        (perform exampleTools submitSecond s).2.tables.requiredSuites exampleHash = ["basic"] :=
    ⟨_, begun.2, History.replay _ _, by decide +kernel⟩
  obtain ⟨old, hold, hhash⟩ := Option.map_eq_some_iff.mp hold
  obtain ⟨new, hnew, hhash'⟩ := Option.map_eq_some_iff.mp hnew
  have hne : new.hash ≠ old.hash := by
    rw [hhash, hhash']
    decide
  obtain ⟨-, -, hiff⟩ := suites_accumulate exampleTools (hrun.call submitSecond) hold hnew hne
  have hwritten (suite : String) (h : suite = "basic" ∨ suite = "contrast") :
      (perform exampleTools submitSecond s).2.tables.required.contains (secondHash, suite) =
        true := by
    refine mem_requiredSuites.mp ?_
    rw [hafter]
    simpa using h
  have hbasic {db : Tables} {suite : String} (h : db.requiredSuites exampleHash = ["basic"])
      (hrow : db.required.contains (exampleHash, suite) = true) : suite = "basic" := by
    have hmem := mem_requiredSuites.mpr hrow
    rw [h] at hmem
    exact List.mem_singleton.mp hmem
  have hdesignates : Designates exampleTools secondHash
      ⟨s, submitSecond, (perform exampleTools submitSecond s).1⟩ :=
    ⟨isEmpty_requiredSuites.mp hnone, not_noRows.mpr ⟨"basic", hwritten _ (.inl rfl)⟩⟩
  have hwhole : Whole exampleTools secondHash
      ⟨s, submitSecond, (perform exampleTools submitSecond s).1⟩ := by
    rintro suite ⟨experiment, manifest, ⟨⟩, -, rfl | ⟨baseline, hactive, hrow⟩⟩
    · exact hwritten _ (.inr rfl)
    · cases hactive.symm.trans hbaseline
      exact hwritten _ (.inl (hbasic hfirst hrow))
  have hkept := (hiff _ (List.mem_append_right _ (List.mem_singleton_self _)) hdesignates
    hwhole).mpr
  rw [hhash] at hkept
  refine ⟨_, _, hrun.call submitSecond, hkept (fun suite hrow => ?_) "basic" ?_⟩
  · refine ⟨"contrast", version 2, rfl, by decide +kernel, .inr ⟨exampleHash, hbaseline, ?_⟩⟩
    rw [hbasic hrows hrow]
    refine mem_requiredSuites.mp ?_
    rw [hfirst]
    exact List.mem_singleton_self _
  · refine mem_requiredSuites.mp ?_
    rw [hrows]
    exact List.mem_singleton_self _

/-- The second version was submitted before the first was in force, and takes its place without
its experiment. -/
theorem suites_lost : ∃ (entries : List Done) (bench : Bench) (job : Job) (old new : Activation)
    (suite : String), History (perform exampleTools) NoDrift {} entries bench ∧
      job.order = .approveExact secondHash exampleScope ∧
      bench.tables.activations.get? "changed" = some old ∧ old.active = true ∧
      (perform exampleTools job bench).2.tables.activations.get? "changed" = some new ∧
      new.hash ≠ old.hash ∧ bench.tables.required.contains (old.hash, suite) = true ∧
      bench.tables.required.contains (new.hash, suite) = false := by
  have hfacts : (together.2.tables.activations.get? "changed").map
        (fun row => (row.hash, row.active)) = some (exampleHash, true) ∧
      ((perform exampleTools approveSecond together.2).2.tables.activations.get? "changed").map
        Activation.hash = some secondHash ∧
      together.2.tables.required.contains (exampleHash, "basic") = true ∧
      together.2.tables.required.contains (secondHash, "basic") = false := by
    decide +kernel
  obtain ⟨hold, hnew, hrequired, hlost⟩ := hfacts
  obtain ⟨old, hold, hactive⟩ := Option.map_eq_some_iff.mp hold
  obtain ⟨new, hnew, hhash'⟩ := Option.map_eq_some_iff.mp hnew
  obtain ⟨hhash, hactive⟩ := Prod.mk.inj hactive
  refine ⟨_, together.2, approveSecond, old, new, "basic", History.replay _ _, rfl, hold, hactive,
    hnew, ?_, ?_, ?_⟩
  · rw [hhash, hhash']
    decide
  · rw [hhash]
    exact hrequired
  · rw [hhash']
    exact hlost

end Pikamux.Workshop
