import Pikamux.Assistant.Evolution

/-!
# Assistant — Eligibility

A self-made tool becomes active only after every required test, whatever the connections to one
registry do at the same time and wherever they stop.

* `Evolves` — what one statement does to the registry.
* `Later`, `Coherent` — what every call may rely on, and what is true of every registry.
* `Entitled`, `Tested` — what has to be so when a tool is made active.
* `Complete`, `Unfailed` — nothing came between the reading of the tests and the activation.
* `tools_tested` — the law of every run.
-/

namespace Pikamux.Evolution

open Support Support.Program

inductive Call where
  | register (manifest : CandidateManifest)
  | protectSuite (suiteId : String) (cases : List EvaluationCase)
  | designateRequired (hash : String) (suites : List String)
  | evaluateSuite (hash suiteId : String)
  | issueGrant (hash : String) (scope : Scope) (expiry : Option Expiry)
  | revoke (grantId : String)
  | activate (grant : ApprovalGrant)
  | rollback (name : String) (approval : ApprovalGrant)
  | assess (hash : String) (scope : Scope) (outcome evidence : String)
  | rejectMethodOutput (hash : String)

inductive Reply where
  | registered (hash : String)
  | evaluated (report : EvaluationReport)
  | granted (grant : ApprovalGrant)
  | done
  deriving DecidableEq

abbrev Replies := Except EvolutionError Reply

def Call.action (tools : Tooling) : Call → Action Reply
  | register manifest => do
      let hash ← Evolution.register tools manifest
      return .registered hash
  | protectSuite suiteId cases => do
      Evolution.protectSuite tools suiteId cases
      return .done
  | designateRequired hash suites => do
      Evolution.designateRequired hash suites
      return .done
  | evaluateSuite hash suiteId => do
      let report ← Evolution.evaluateSuite tools hash suiteId
      return .evaluated report
  | issueGrant hash scope expiry => do
      let grant ← Evolution.issueGrant hash scope expiry
      return .granted grant
  | revoke grantId => do
      Evolution.revoke grantId
      return .done
  | activate grant => do
      activateGrant grant
      return .done
  | rollback name approval => do
      rollbackGrant name approval
      return .done
  | assess hash scope outcome evidence => do
      Evolution.assess hash scope outcome evidence
      return .done
  | rejectMethodOutput hash => do
      Evolution.rejectMethodOutput hash
      return .done

def Call.code (tools : Tooling) (call : Call) : Program Chance Registry Replies :=
  (call.action tools).run

abbrev Connections := Pool Chance Registry Replies Call

abbrev Step := Move Chance Call

abbrev Returned := Answer Replies Call

/-- Any number of connections: a call begins, takes its next step, or its process ends. -/
def connections (tools : Tooling) (m : Step) (pool : Connections) :
    Option Returned × Connections :=
  pool.move (Call.code tools) m

/-! ### Registries -/

/-- A call of `designate_required` that has begun to write its list named this suite. -/
def Named (hash suite : String) (s : Registry) : Prop :=
  ∃ suites, (hash, suites) ∈ s.designated ∧ suite ∈ suites

/-- Neither a grant nor an activation of the tool can be used. -/
structure Withdrawn (hash : String) (db : Tables) : Prop where
  grants : ∀ id grant, db.grants.get? id = some grant → grant.hash = hash → grant.revoked = true
  activations : ∀ name row, db.activations.get? name = some row → row.hash = hash →
    row.active = false

/-- What is true of every registry. -/
structure Coherent (s : Registry) : Prop where
  named : ∀ hash suite, s.tables.required.contains (hash, suite) = true → Named hash suite s
  withdrawn : ∀ hash, s.tables.retirements.contains hash = true → Withdrawn hash s.tables

/-- What is kept of the tables. -/
structure Tables.Later (s t : Tables) : Prop where
  candidates : ∀ hash row, s.candidates.get? hash = some row → t.candidates.get? hash = some row
  suites : ∀ id suite, s.suites.get? id = some suite → t.suites.get? id = some suite
  required : ∀ key, s.required.contains key = true → t.required.contains key = true
  evaluations : s.evaluations <+: t.evaluations
  grants : ∀ id grant, s.grants.get? id = some grant → ∃ grant', t.grants.get? id = some grant' ∧
    grant'.hash = grant.hash ∧ grant'.scope = grant.scope
  retirements : ∀ hash, s.retirements.contains hash = true → t.retirements.contains hash = true

/-- What every call may rely on. -/
structure Later (s t : Registry) : Prop where
  tables : s.tables.Later t.tables
  designated : s.designated <+: t.designated
  coherent : Coherent s → Coherent t

/-- The scope of the grant covers what the tool reads. -/
def Covers (hash grantId : String) (db : Tables) : Prop :=
  ∃ grant row, db.grants.get? grantId = some grant ∧ db.candidates.get? hash = some row ∧
    grant.hash = hash ∧ grant.scope.contains row.definition.inputScope = true

/-- Every suite with a row is passed and never failed, and there is one. -/
structure Eligible (hash : String) (db : Tables) : Prop where
  passed : ∀ suite, db.required.contains (hash, suite) = true → db.passed hash suite = true
  unfailed : ∀ suite, db.required.contains (hash, suite) = true → db.failed hash suite = false
  some : ∃ suite, db.required.contains (hash, suite) = true

/-- What one statement does. -/
inductive Evolves (s t : Registry) : Prop where
  | same (h : t = s)
  | registered (hash : String) (row : Candidate)
      (h : t = { s with tables := { s.tables with
        candidates := s.tables.candidates.insertOrIgnore hash row } })
  | enrolled (suiteId : String) (suite : Suite)
      (h : t = { s with tables := s.tables.protect suiteId suite })
  | designated (hash : String) (wanted : List String) (suite : String)
      (required : Table (String × String) Unit) (hmem : suite ∈ wanted)
      (hinsert : s.tables.required.insert? (hash, suite) () = some required)
      (h : t = { s with
        tables := { s.tables with required }
        designated := s.designated ++ [(hash, wanted)] })
  | evaluated (e : Evaluation)
      (h : t = { s with tables := { s.tables with evaluations := s.tables.evaluations ++ [e] } })
  | granted (id : String) (grant : Grant) (grants : Table String Grant)
      (hactive : s.tables.retirements.contains grant.hash = false)
      (hinsert : s.tables.grants.insert? id grant = some grants)
      (h : t = { s with tables := { s.tables with grants } })
  | revoked (id : String)
      (h : t = { s with tables := { s.tables with
        grants := s.tables.grants.modify id fun grant => { grant with revoked := true } } })
  | activated (a : Activated) (hvalid : s.tables.validGrant a.time a.hash a.grantId = true)
      (hcovers : Covers a.hash a.grantId s.tables) (hlater : a.checked.Later s.tables)
      (heligible : Eligible a.hash a.checked)
      (h : t = { s with
        tables := { s.tables with
          activations := s.tables.activations.upsert a.name ⟨a.hash, a.grantId, true⟩ }
        activated := s.activated ++ [a] })
  | assessed (assessments : List Assessment)
      (h : t = { s with tables := { s.tables with assessments } })
  | retired (hash : String) (assessments : List Assessment)
      (contractFailures : Table String Unit)
      (h : t = { s with
        tables := { s.tables with assessments, contractFailures }.retire hash })

section Registries

variable {hash suite : String} {s t u : Registry} {db db' db'' : Tables} {a : Activated}

theorem Tables.Later.refl (db : Tables) : db.Later db :=
  ⟨fun _ _ h => h, fun _ _ h => h, fun _ h => h, List.prefix_rfl,
    fun _ grant h => ⟨grant, h, rfl, rfl⟩, fun _ h => h⟩

theorem Tables.Later.trans (h : db.Later db') (h' : db'.Later db'') : db.Later db'' where
  candidates hash row hrow := h'.candidates hash row (h.candidates hash row hrow)
  suites id suite hsuite := h'.suites id suite (h.suites id suite hsuite)
  required key hkey := h'.required key (h.required key hkey)
  evaluations := h.evaluations.trans h'.evaluations
  grants id grant hgrant := by
    obtain ⟨grant', hgrant', hhash, hscope⟩ := h.grants id grant hgrant
    obtain ⟨grant'', hgrant'', hhash', hscope'⟩ := h'.grants id grant' hgrant'
    exact ⟨grant'', hgrant'', hhash'.trans hhash, hscope'.trans hscope⟩
  retirements hash hretired := h'.retirements hash (h.retirements hash hretired)

theorem Later.refl (s : Registry) : Later s s := ⟨.refl s.tables, List.prefix_rfl, id⟩

theorem Later.trans (h : Later s t) (h' : Later t u) : Later s u :=
  ⟨h.tables.trans h'.tables, h.designated.trans h'.designated, h'.coherent ∘ h.coherent⟩

theorem Named.later (h : Named hash suite s) (hst : s.designated <+: t.designated) :
    Named hash suite t := by
  obtain ⟨suites, hmem, hsuite⟩ := h
  exact ⟨suites, hst.subset hmem, hsuite⟩

theorem Covers.later {grantId : String} (h : Covers hash grantId db) (hlater : db.Later db') :
    Covers hash grantId db' := by
  obtain ⟨grant, row, hgrant, hrow, hhash, hscope⟩ := h
  obtain ⟨grant', hgrant', hhash', hscope'⟩ := hlater.grants grantId grant hgrant
  exact ⟨grant', row, hgrant', hlater.candidates hash row hrow, hhash'.trans hhash,
    hscope' ▸ hscope⟩

theorem Tables.passed_of_later (h : db.passed hash suite = true) (hlater : db.Later db') :
    db'.passed hash suite = true := by
  rw [Tables.passed, List.any_eq_true] at h ⊢
  obtain ⟨e, he, hpassed⟩ := h
  exact ⟨e, hlater.evaluations.subset he, hpassed⟩

/-- What a statement keeps of the tables. -/
theorem Evolves.tables (h : Evolves s t) : s.tables.Later t.tables := by
  have hself := Tables.Later.refl s.tables
  cases h with
  | same h => exact h ▸ hself
  | registered hash row h =>
      subst h
      refine { hself with candidates := fun other old hold => ?_ }
      dsimp only
      rw [Table.get?_insertOrIgnore]
      split
      case isTrue e =>
        subst e
        rw [hold, Option.getD_some]
      case isFalse => exact hold
  | enrolled suiteId suite h =>
      subst h
      rw [Tables.protect]
      split
      case isTrue => exact hself
      case isFalse =>
        refine { hself with suites := fun other old hold => ?_ }
        dsimp only
        rw [Table.get?_insertOrIgnore]
        split
        case isTrue e =>
          subst e
          rw [hold, Option.getD_some]
        case isFalse => exact hold
  | designated hash wanted suite required hmem hinsert h =>
      subst h
      refine { hself with required := fun key hkey => ?_ }
      rw [Table.contains, Table.get?_insert? hinsert]
      split
      case isTrue => rfl
      case isFalse => exact hkey
  | evaluated e h =>
      subst h
      exact { hself with evaluations := List.prefix_append .. }
  | granted id grant grants hactive hinsert h =>
      subst h
      refine { hself with grants := fun other old hold => ⟨old, ?_, rfl, rfl⟩ }
      rw [Table.get?_insert? hinsert, if_neg, hold]
      rintro rfl
      rw [(Table.insert?_eq_some.mp hinsert).1] at hold
      cases hold
  | revoked id h =>
      subst h
      refine { hself with grants := fun other old hold => ?_ }
      dsimp only
      rw [Table.get?_modify]
      split
      case isTrue => exact ⟨{ old with revoked := true }, by rw [hold, Option.map_some], rfl, rfl⟩
      case isFalse => exact ⟨old, hold, rfl, rfl⟩
  | activated a hvalid hcovers hlater heligible h =>
      subst h
      exact { hself with }
  | assessed assessments h =>
      subst h
      exact { hself with }
  | retired hash assessments failures h =>
      subst h
      refine { hself with grants := fun id old hold => ?_, retirements := fun other hold => ?_ }
      · refine ⟨_, by rw [Tables.retire, Table.get?_update, hold, Option.map_some], ?_, ?_⟩
        · split <;> rfl
        · split <;> rfl
      · rw [Tables.retire, Table.contains, Table.get?_insertOrIgnore]
        split
        case isTrue => rfl
        case isFalse => exact hold

theorem Evolves.lists (h : Evolves s t) : s.designated <+: t.designated := by
  cases h with
  | same h => exact h ▸ List.prefix_rfl
  | designated hash wanted suite required hmem hinsert h =>
      subst h
      exact List.prefix_append ..
  | _ =>
      subst t
      exact List.prefix_rfl

/-- A row that was not there before belongs to a list that is being written. -/
theorem Evolves.required (h : Evolves s t)
    (hnew : t.tables.required.contains (hash, suite) = true) :
    s.tables.required.contains (hash, suite) = true ∨ Named hash suite t := by
  cases h with
  | same h => exact .inl (h ▸ hnew)
  | designated hash' wanted suite' required hmem hinsert h =>
      subst h
      rw [Table.contains, Table.get?_insert? hinsert] at hnew
      split at hnew
      case isTrue e =>
        cases e
        exact .inr ⟨wanted, List.mem_append_right _ (List.mem_singleton_self _), hmem⟩
      case isFalse => exact .inl hnew
  | enrolled suiteId suite' h =>
      subst h
      refine .inl ?_
      simp only [Tables.protect] at hnew
      split at hnew <;> exact hnew
  | _ =>
      subst t
      exact .inl hnew

/-- A tool whose grants and activations are withdrawn has no others unless it is granted or
activated. -/
theorem Withdrawn.insert {id : String} {grant : Grant} {grants : Table String Grant}
    (h : Withdrawn hash db) (hne : grant.hash ≠ hash)
    (hinsert : db.grants.insert? id grant = some grants) : Withdrawn hash { db with grants } where
  grants other old hold hhash := by
    rw [Table.get?_insert? hinsert] at hold
    split at hold
    case isTrue =>
      cases hold
      exact absurd hhash hne
    case isFalse => exact h.grants other old hold hhash
  activations := h.activations

theorem Withdrawn.revoke (h : Withdrawn hash db) (id : String) : Withdrawn hash { db with
    grants := db.grants.modify id fun grant => { grant with revoked := true } } where
  grants other old hold hhash := by
    dsimp only at hold
    rw [Table.get?_modify] at hold
    split at hold
    case isTrue =>
      obtain ⟨grant, -, rfl⟩ := Option.map_eq_some_iff.mp hold
      rfl
    case isFalse => exact h.grants other old hold hhash
  activations := h.activations

theorem Withdrawn.activate {name : String} {row : Activation} (h : Withdrawn hash db)
    (hne : row.hash ≠ hash) :
    Withdrawn hash { db with activations := db.activations.upsert name row } where
  grants := h.grants
  activations other old hold hhash := by
    dsimp only at hold
    rw [Table.get?_upsert] at hold
    split at hold
    case isTrue =>
      cases hold
      exact absurd hhash hne
    case isFalse => exact h.activations other old hold hhash

/-- Retirement of one tool withdraws it, and leaves what is withdrawn of the others. -/
theorem Withdrawn.retire {other : String} (h : other = hash ∨ Withdrawn hash db) :
    Withdrawn hash (db.retire other) where
  grants id grant hgrant hhash := by
    rw [Tables.retire, Table.get?_update] at hgrant
    obtain ⟨old, hold, rfl⟩ := Option.map_eq_some_iff.mp hgrant
    split
    case isTrue => rfl
    case isFalse hne =>
      rw [if_neg hne] at hhash
      exact (h.resolve_left fun e => hne (hhash.trans e.symm)).grants id old hold hhash
  activations name row hrow hhash := by
    rw [Tables.retire, Table.get?_update] at hrow
    obtain ⟨old, hold, rfl⟩ := Option.map_eq_some_iff.mp hrow
    split
    case isTrue => rfl
    case isFalse hne =>
      rw [if_neg hne] at hhash
      exact (h.resolve_left fun e => hne (hhash.trans e.symm)).activations name old hold hhash

/-- What `store_activation` finds in its transaction. -/
theorem Tables.validGrant_iff {now : Int} {grantId : String} :
    db.validGrant now hash grantId = true ↔ ∃ grant, db.grants.get? grantId = some grant ∧
      grant.hash = hash ∧ grant.revoked = false ∧ grant.unexpired now = true ∧
      db.retirements.contains hash = false := by
  simp [Tables.validGrant, Option.any_eq_true, and_assoc]

theorem Evolves.withdrawn (h : Evolves s t)
    (hs : ∀ hash, s.tables.retirements.contains hash = true → Withdrawn hash s.tables)
    (hretired : t.tables.retirements.contains hash = true) : Withdrawn hash t.tables := by
  cases h with
  | same h => exact h ▸ hs hash (h ▸ hretired)
  | enrolled suiteId suite' h =>
      subst h
      simp only [Tables.protect] at hretired ⊢
      split at hretired
      case isTrue he =>
        rw [if_pos he]
        exact hs hash hretired
      case isFalse he =>
        rw [if_neg he]
        exact ⟨(hs hash hretired).grants, (hs hash hretired).activations⟩
  | granted id grant grants hactive hinsert h =>
      subst h
      refine (hs hash hretired).insert ?_ hinsert
      rintro rfl
      cases hactive.symm.trans hretired
  | revoked id h =>
      subst h
      exact (hs hash hretired).revoke id
  | activated a hvalid hcovers hlater heligible h =>
      subst h
      obtain ⟨grant, -, -, -, -, hactive⟩ := Tables.validGrant_iff.mp hvalid
      refine (hs hash hretired).activate ?_
      rintro rfl
      cases hactive.symm.trans hretired
  | retired other assessments failures h =>
      subst h
      refine .retire ?_
      rw [Tables.retire, Table.contains, Table.get?_insertOrIgnore] at hretired
      split at hretired
      case isTrue e => exact .inl e.symm
      case isFalse =>
        exact .inr ⟨(hs hash hretired).grants, (hs hash hretired).activations⟩
  | _ =>
      subst t
      exact ⟨(hs hash hretired).grants, (hs hash hretired).activations⟩

/-- **One statement.** -/
theorem Evolves.later (h : Evolves s t) : Later s t where
  tables := h.tables
  designated := h.lists
  coherent hs := {
    named := fun _ _ hrow =>
      (h.required hrow).elim (fun hold => (hs.named _ _ hold).later h.lists) id
    withdrawn := fun _ hretired => h.withdrawn hs.withdrawn hretired }

end Registries

/-! ### Calls -/

section Calls

variable {tools : Tooling} {α : Type} {s : Registry}

/-- A call whose steps are within `Evolves`, whatever the others do. -/
abbrev Stepwise (p : Action α) : Prop := Within Evolves p.run

theorem stepwise_select (f : Tables → α) : Stepwise (select f) := within_query fun _ => .same rfl

theorem stepwise_statement {f : Chance → Tables → Except EvolutionError (α × Tables)}
    (h : ∀ i s r db, f i s.tables = .ok (r, db) → Evolves s { s with tables := db }) :
    Stepwise (statement f) := by
  refine within_transaction (fun _ => .same rfl) fun i s r t hrun => ?_
  obtain ⟨-, -, hrun⟩ := bind_eq_ok.mp hrun
  obtain ⟨⟨r', db⟩, hf, hrun⟩ := bind_eq_ok.mp hrun
  cases hrun
  exact h i s r db hf

theorem stepwise_clock : Stepwise clock := by
  refine within_transaction (fun _ => .same rfl) fun i s r t hrun => ?_
  cases hrun
  exact .same rfl

theorem stepwise_require {c : Bool} {e : EvolutionError} : Stepwise (require c e : Action Unit) :=
  fun _ => trivial

theorem stepwise_register (manifest : CandidateManifest) :
    Stepwise (register tools manifest) := by
  refine within_check fun _ => within_check fun hash => ?_
  refine within_bind (stepwise_statement fun i s r db hf => ?_) fun _ => within_pure
  cases hf
  exact .registered hash _ rfl

theorem stepwise_protectSuite (suiteId : String) (cases : List EvaluationCase) :
    Stepwise (protectSuite tools suiteId cases) := by
  refine within_check fun _ => within_check fun _ => within_check fun _ => within_check fun _ =>
    within_check fun _ => within_bind (stepwise_select _) fun _ => within_check fun _ => ?_
  refine stepwise_statement fun i s r db hf => ?_
  cases hf
  exact .enrolled suiteId _ rfl

theorem stepwise_candidate (hash : String) : Stepwise (candidate hash) := stepwise_select _

theorem stepwise_evaluateSuite (hash suiteId : String) :
    Stepwise (evaluateSuite tools hash suiteId) := by
  refine within_bind (stepwise_candidate hash) fun _ => within_check fun _ =>
    within_bind (stepwise_select _) fun _ => within_check fun _ => within_bind ?_ fun _ =>
    within_bind ?_ fun _ => within_pure
  · refine within_transaction (fun _ => .same rfl) fun i s r t hrun => ?_
    cases hrun
    exact .same rfl
  · refine stepwise_statement fun i s r db hf => ?_
    cases hf
    exact .evaluated _ rfl

theorem stepwise_issueGrant (hash : String) (scope : Scope) (expiry : Option Expiry) :
    Stepwise (issueGrant hash scope expiry) := by
  refine within_bind stepwise_clock fun _ => within_check fun expiresAt =>
    within_bind (stepwise_candidate hash) fun _ => within_check fun _ => within_check fun _ =>
    within_bind (stepwise_statement fun i s r db hf => ?_) fun _ => within_pure
  obtain ⟨_, hactive, hf⟩ := bind_eq_ok.mp hf
  obtain ⟨grants, hinsert, hf⟩ := bind_eq_ok.mp hf
  cases hf
  refine .granted _ { hash, scope, expiresAt } grants ?_ (context_eq_ok.mp hinsert) rfl
  simpa using hactive

theorem stepwise_revoke (grantId : String) : Stepwise (revoke grantId) := by
  refine stepwise_statement fun i s r db hf => ?_
  obtain ⟨-, -, hf⟩ := bind_eq_ok.mp hf
  cases hf
  exact .revoked grantId rfl

theorem stepwise_assess (hash : String) (scope : Scope) (outcome evidence : String) :
    Stepwise (assess hash scope outcome evidence) := by
  refine within_check fun _ => within_bind (stepwise_candidate hash) fun _ =>
    within_check fun _ => within_check fun _ => stepwise_statement fun i s r db hf => ?_
  dsimp only at hf
  split at hf
  case isTrue =>
    cases hf
    exact .retired hash _ _ rfl
  case isFalse =>
    cases hf
    exact .assessed _ rfl

theorem stepwise_rejectMethodOutput (hash : String) : Stepwise (rejectMethodOutput hash) := by
  refine stepwise_statement fun i s r db hf => ?_
  cases hf
  exact .retired hash _ _ rfl

/-! ### Activation -/

/-- The record of a candidate that was found. -/
def Found (hash : String) (record : CandidateRecord) (db : Tables) : Prop :=
  ∃ row, db.candidates.get? hash = some row ∧ record.definition = row.definition

theorem Found.later {hash : String} {record : CandidateRecord} {db db' : Tables}
    (h : Found hash record db) (hlater : db.Later db') : Found hash record db' := by
  obtain ⟨row, hrow, heq⟩ := h
  exact ⟨row, hlater.candidates hash row hrow, heq⟩

abbrev Gives (post : α → Registry → Prop) (p : Action α) (s : Registry) : Prop :=
  Yields Later Evolves post p s

theorem gives_select {post : α → Registry → Prop} {f : Tables → α}
    (h : ∀ t, Later s t → post (f t.tables) t) : Gives post (select f) s := by
  refine yields_query (fun _ => .same rfl) fun t a ht ha => ?_
  cases ha
  exact h t ht

/-- What is known when the grant was read: it still is for the same tool, with the same scope. -/
def Held (grant : ApprovalGrant) (record : CandidateRecord) (row : Grant) (db : Tables) : Prop :=
  Found grant.toolHash record db ∧ ∃ row', db.grants.get? grant.grantId = some row' ∧
    row'.hash = row.hash ∧ row'.scope = row.scope

theorem Held.later {grant : ApprovalGrant} {record : CandidateRecord} {row : Grant}
    {db db' : Tables} (h : Held grant record row db) (hlater : db.Later db') :
    Held grant record row db' := by
  obtain ⟨hfound, row', hrow', hhash, hscope⟩ := h
  obtain ⟨row'', hrow'', hhash', hscope'⟩ := hlater.grants _ row' hrow'
  exact ⟨hfound.later hlater, row'', hrow'', hhash'.trans hhash, hscope'.trans hscope⟩

theorem Held.covers {grant : ApprovalGrant} {record : CandidateRecord} {row : Grant} {db : Tables}
    {now : Int} (h : Held grant record row db)
    (hvalid : validateGrantActivation now grant record row = .ok ()) :
    Covers row.hash grant.grantId db := by
  obtain ⟨⟨candidate, hcandidate, hdefinition⟩, row', hrow', hhash, hscope⟩ := h
  simp only [validateGrantActivation, ensure_eq_ok, Bool.and_eq_true, decide_eq_true_eq] at hvalid
  obtain ⟨⟨⟨htool, -⟩, -⟩, hcontains⟩ := hvalid
  refine ⟨row', candidate, hrow', htool ▸ hcandidate, hhash, ?_⟩
  rw [hscope, ← hdefinition]
  exact hcontains

theorem gives_candidate (hash : String) :
    Gives (fun found t => ∀ record, found = some record → Found hash record t.tables)
      (candidate hash) s := by
  refine gives_select fun t _ record hrecord => ?_
  obtain ⟨row, hrow, rfl⟩ := Option.map_eq_some_iff.mp hrecord
  exact ⟨row, hrow, rfl⟩

theorem mem_requiredRows {hash suite : String} {db : Tables} :
    db.required.contains (hash, suite) = true ↔
      ((hash, suite), ()) ∈ db.required.rows.filter fun row => row.1.1 = hash := by
  rw [List.mem_filter, Table.mem_rows_iff, Table.contains, Option.isSome_iff_exists,
    decide_eq_true rfl, and_iff_left rfl]
  exact ⟨fun ⟨_, h⟩ => h, fun h => ⟨_, h⟩⟩

/-- What `ensure_candidate_eligible` counts. -/
theorem eligible_of_eligibility {hash : String} {db : Tables} (hsome : (db.eligibility hash).1 ≠ 0)
    (hall : (db.eligibility hash).1 = (db.eligibility hash).2) : Eligible hash db := by
  have hcount := List.countP_eq_length.mp hall.symm
  have hrow (suite : String) (h : db.required.contains (hash, suite) = true) :
      db.passed hash suite = true ∧ db.failed hash suite = false := by
    simpa using hcount _ (mem_requiredRows.mp h)
  refine ⟨fun suite h => (hrow suite h).1, fun suite h => (hrow suite h).2, ?_⟩
  obtain ⟨⟨⟨hash', suite⟩, ⟨⟩⟩, hmem⟩ := List.exists_mem_of_length_pos (Nat.pos_of_ne_zero hsome)
  have heq : hash' = hash := by simpa using (List.mem_filter.mp hmem).2
  subst heq
  exact ⟨suite, mem_requiredRows.mpr hmem⟩

theorem gives_ensureCandidateEligible {hash grantId : String} (h : Covers hash grantId s.tables) :
    Gives (fun checked t => checked.Later t.tables ∧ Eligible hash checked ∧
      Covers hash grantId t.tables) (ensureCandidateEligible hash) s := by
  refine yields_bind (fun _ t => Covers hash grantId t.tables)
    (gives_select fun t ht => h.later ht.tables) fun _ t ht => ?_
  refine yields_bind (fun _ t => Covers hash grantId t.tables) (yields_check fun _ _ => ht)
    fun _ t ht => ?_
  refine yields_bind (fun checked t => checked = t.tables ∧ Covers hash grantId t.tables)
    (gives_select fun u hu => ⟨rfl, ht.later hu.tables⟩) fun checked t ht => ?_
  obtain ⟨rfl, ht⟩ := ht
  refine yields_bind (fun _ u => t.tables.Later u.tables ∧ Eligible hash t.tables ∧
    Covers hash grantId u.tables) (yields_check fun _ hc => ⟨.refl _, ?_, ht⟩)
    fun _ u hu => yields_pure hu
  rw [ensure_eq_ok, Bool.and_eq_true, decide_eq_true_eq, decide_eq_true_eq] at hc
  exact eligible_of_eligibility hc.1 hc.2

theorem gives_storeActivation {record : CandidateRecord} {hash : String} {grant : ApprovalGrant}
    {checked : Tables} (hlater : checked.Later s.tables) (heligible : Eligible hash checked)
    (hcovers : Covers hash grant.grantId s.tables) :
    Gives (fun _ _ => True) (storeActivation record hash grant checked) s := by
  refine yields_transaction (fun _ => .same rfl) fun i t a u ht hrun => ⟨?_, trivial⟩
  obtain ⟨-, -, hrun⟩ := bind_eq_ok.mp hrun
  obtain ⟨_, hvalid, hrun⟩ := bind_eq_ok.mp hrun
  obtain ⟨-, -, hrun⟩ := bind_eq_ok.mp hrun
  cases hrun
  exact .activated ⟨record.definition.name, hash, grant.grantId, i.now, checked⟩
    (ensure_eq_ok.mp hvalid) (hcovers.later ht.tables) (hlater.trans ht.tables) heligible rfl

theorem gives_activateGrant (grant : ApprovalGrant) :
    Gives (fun _ _ => True) (activateGrant grant) s := by
  refine yields_bind (fun found t => ∀ record, found = some record →
    Found grant.toolHash record t.tables) (gives_candidate _) fun found t hfound => ?_
  refine yields_bind (fun record t => Found grant.toolHash record t.tables)
    (yields_check fun record h => hfound record (context_eq_ok.mp h)) fun record t hfound => ?_
  refine yields_bind (fun found t => ∀ row, found = some row → Held grant record row t.tables)
    (gives_select fun u hu row hrow => ⟨hfound.later hu.tables, row, hrow, rfl, rfl⟩)
    fun found t hheld => ?_
  refine yields_bind (fun row t => Held grant record row t.tables)
    (yields_check fun row h => hheld row (context_eq_ok.mp h)) fun row t hheld => ?_
  refine yields_bind (fun _ t => Held grant record row t.tables)
    (yields_transaction (fun _ => .same rfl) fun i u now v hu hrun => ?_) fun now t hheld => ?_
  · cases hrun
    exact ⟨.same rfl, hheld.later hu.tables⟩
  refine yields_bind (fun _ t => Covers row.hash grant.grantId t.tables)
    (yields_check fun _ h => hheld.covers h) fun _ t hcovers => ?_
  refine yields_bind _ (gives_ensureCandidateEligible hcovers) fun checked t h => ?_
  exact gives_storeActivation h.1 h.2.1 h.2.2

theorem gives_rollbackGrant (name : String) (approval : ApprovalGrant) :
    Gives (fun _ _ => True) (rollbackGrant name approval) s := by
  refine yields_bind (fun _ _ => True) ((stepwise_candidate _).yields fun _ _ => id)
    fun _ t _ => ?_
  refine yields_bind (fun _ _ => True) (yields_check fun _ _ => trivial) fun _ t _ => ?_
  refine yields_bind (fun _ _ => True) (yields_check fun _ _ => trivial) fun _ t _ => ?_
  exact gives_activateGrant approval

/-! ### Lists -/

theorem mem_requiredSuites {hash suite : String} {db : Tables} :
    suite ∈ db.requiredSuites hash ↔ db.required.contains (hash, suite) = true := by
  rw [mem_requiredRows, Tables.requiredSuites, List.mem_insertionSort, List.mem_map]
  constructor
  · rintro ⟨⟨⟨hash', suite⟩, ⟨⟩⟩, hmem, rfl⟩
    have heq : hash' = hash := by simpa using (List.mem_filter.mp hmem).2
    exact heq ▸ hmem
  · exact fun h => ⟨_, h, rfl⟩

theorem mem_wanted {suite : String} {suites : List String} :
    suite ∈ (suites.insertionSort (· ≤ ·)).dedup ↔ suite ∈ suites := by
  rw [List.mem_dedup, List.mem_insertionSort]

theorem gives_insertRequired {hash suite : String} {wanted : List String} (hmem : suite ∈ wanted) :
    Gives (fun _ t => (hash, wanted) ∈ t.designated) (insertRequired hash wanted suite) s := by
  refine yields_transaction (fun _ => .same rfl) fun i t a u _ hrun => ?_
  obtain ⟨-, -, hrun⟩ := bind_eq_ok.mp hrun
  obtain ⟨required, hinsert, hrun⟩ := bind_eq_ok.mp hrun
  cases hrun
  exact ⟨.designated hash wanted suite required hmem (context_eq_ok.mp hinsert) rfl,
    List.mem_append_right _ (List.mem_singleton_self _)⟩

/-- A list that was accepted is known. -/
theorem gives_designateRequired (hash : String) (suites : List String) (hs : Coherent s) :
    Gives (fun _ t => ∀ suite ∈ suites, Named hash suite t) (designateRequired hash suites) s := by
  refine yields_bind (fun _ t => suites ≠ [] ∧ Coherent t)
    (yields_check fun _ h => ⟨?_, hs⟩) fun _ t ht => ?_
  · rintro rfl
    cases ensure_eq_ok.mp h
  obtain ⟨hne, ht⟩ := ht
  refine yields_bind (fun _ => Coherent) (gives_select fun u hu => hu.coherent ht) fun _ t ht => ?_
  refine yields_bind (fun _ => Coherent) (yields_check fun _ _ => ht) fun _ t ht => ?_
  refine yields_bind (fun existing u => ∀ suite ∈ existing, Named hash suite u)
    (gives_select fun u hu suite hsuite =>
      (hu.coherent ht).named hash suite (mem_requiredSuites.mp hsuite)) fun existing t hnamed => ?_
  dsimp only
  split
  case isTrue =>
    have hwanted : (suites.insertionSort (· ≤ ·)).dedup ≠ [] := by
      obtain ⟨suite, hsuite⟩ := List.exists_mem_of_ne_nil suites hne
      exact List.ne_nil_of_mem (mem_wanted.mpr hsuite)
    have hprotected : Stepwise ((suites.insertionSort (· ≤ ·)).dedup.forM requireProtected) :=
      within_forM fun suite _ => within_bind (stepwise_select _) fun _ => stepwise_require
    refine yields_bind (fun _ _ => True) (hprotected.yields fun _ _ => id) fun _ t _ => ?_
    refine (yields_forM hwanted (fun suite hsuite t => gives_insertRequired hsuite) t).imp
      fun _ u hu suite hsuite => ⟨_, hu, mem_wanted.mpr hsuite⟩
  case isFalse =>
    refine yields_check fun _ h suite hsuite => hnamed suite ?_
    rw [ensure_eq_ok, decide_eq_true_eq] at h
    rw [h]
    exact mem_wanted.mpr hsuite

/-- What is known when a call has returned. -/
def Kept (call : Call) (r : Replies) (s : Registry) : Prop :=
  ∀ hash suites reply, call = .designateRequired hash suites → r = .ok reply →
    ∀ suite ∈ suites, Named hash suite s

theorem gives_call (call : Call) (hs : Coherent s) :
    Sat Later Evolves (Kept call) (call.code tools) s := by
  have hother {p : Action Reply} (h : Gives (fun _ _ => True) p s)
      (hne : ∀ hash suites, call ≠ .designateRequired hash suites) :
      Sat Later Evolves (Kept call) p.run s :=
    h.mono fun _ _ _ hash suites _ hcall => absurd hcall (hne hash suites)
  have hstepwise {α : Type} {p : Action α} {reply : α → Reply} (h : Stepwise p) :
      Gives (fun _ _ => True) (do
        let a ← p
        return reply a) s :=
    (within_bind h fun _ => within_pure).yields fun _ _ => id
  cases call with
  | register manifest =>
      exact hother (hstepwise (stepwise_register manifest)) (by simp)
  | protectSuite suiteId cases =>
      exact hother (hstepwise (stepwise_protectSuite suiteId cases)) (by simp)
  | designateRequired hash suites =>
      have hnamed : Gives (fun _ t => ∀ suite ∈ suites, Named hash suite t)
          ((Call.designateRequired hash suites).action tools) s :=
        yields_bind _ (gives_designateRequired hash suites hs) fun _ _ ht => yields_pure ht
      refine hnamed.mono ?_
      rintro r t hr hash' suites' reply ⟨⟩ hreply
      exact hr reply hreply
  | evaluateSuite hash suiteId =>
      exact hother (hstepwise (stepwise_evaluateSuite hash suiteId)) (by simp)
  | issueGrant hash scope expiry =>
      exact hother (hstepwise (stepwise_issueGrant hash scope expiry)) (by simp)
  | revoke grantId => exact hother (hstepwise (stepwise_revoke grantId)) (by simp)
  | activate grant =>
      exact hother (yields_bind _ (gives_activateGrant grant) fun _ _ _ => yields_pure trivial)
        (by simp)
  | rollback name approval =>
      exact hother (yields_bind _ (gives_rollbackGrant name approval)
        fun _ _ _ => yields_pure trivial) (by simp)
  | assess hash scope outcome evidence =>
      exact hother (hstepwise (stepwise_assess hash scope outcome evidence)) (by simp)
  | rejectMethodOutput hash =>
      exact hother (hstepwise (stepwise_rejectMethodOutput hash)) (by simp)

theorem calls_specified (tools : Tooling) : Pool.Specified (Call.code tools) Later
    (fun _ => Evolves) (fun call _ => Kept call) fun _ => Coherent where
  refl := Later.refl
  trans _ _ _ := Later.trans
  relied _ _ _ := Evolves.later
  stable _ _ _ _ _ h hlater hash suites reply hcall hreply suite hsuite :=
    (h hash suites reply hcall hreply suite hsuite).later hlater.designated
  known _ _ _ hs hlater := hlater.coherent hs
  learned _ _ _ _ _ hs _ := hs
  started call _ _ hs := gives_call call hs

end Calls

/-! ### Runs -/

/-- The tool may be made active: it is not retired, and the grant is there for it, not revoked, not
expired and wide enough. -/
structure Entitled (a : Activated) (db : Tables) : Prop where
  active : db.retirements.contains a.hash = false
  granted : ∃ grant row, db.grants.get? a.grantId = some grant ∧
    db.candidates.get? a.hash = some row ∧ grant.hash = a.hash ∧ grant.revoked = false ∧
    grant.unexpired a.time = true ∧ grant.scope.contains row.definition.inputScope = true

/-- Every suite that was named for the tool is passed and never failed. -/
def Tested (hash : String) (s : Registry) : Prop :=
  ∀ suite, Named hash suite s →
    s.tables.passed hash suite = true ∧ s.tables.failed hash suite = false

/-- When the rows of the tool were read, every list that had begun to be written was complete. -/
def Complete (a : Activated) (s : Registry) : Prop :=
  ∀ suite, Named a.hash suite s → a.checked.required.contains (a.hash, suite) = true

/-- No required suite was failed since the evaluations of the tool were read. -/
def Unfailed (a : Activated) (s : Registry) : Prop :=
  ∀ e ∈ s.tables.evaluations.drop a.checked.evaluations.length, e.hash = a.hash →
    a.checked.required.contains (a.hash, e.suiteId) = true → e.passed = true

section Runs

variable {hash suite : String} {s t : Registry} {a : Activated}

theorem Tables.failed_eq_false {db : Tables} : db.failed hash suite = false ↔
    ∀ e ∈ db.evaluations, e.hash = hash → e.suiteId = suite → e.passed = true := by
  simp [Tables.failed, List.any_eq_false]

/-- **The tests at an activation.** -/
theorem tested_iff (hlater : a.checked.Later s.tables) (heligible : Eligible a.hash a.checked)
    (hs : Coherent s) (hcomplete : Complete a s) : Tested a.hash s ↔ Unfailed a s := by
  obtain ⟨since, hsince⟩ := hlater.evaluations
  have hdrop : s.tables.evaluations.drop a.checked.evaluations.length = since := by
    rw [← hsince, List.drop_left]
  rw [Unfailed, hdrop]
  constructor
  · intro htested e he hhash hrow
    have hnamed := hs.named _ _ (hlater.required _ hrow)
    refine Tables.failed_eq_false.mp (htested e.suiteId hnamed).2 e ?_ hhash rfl
    rw [← hsince]
    exact List.mem_append_right _ he
  · intro hunfailed suite hnamed
    have hrow := hcomplete suite hnamed
    refine ⟨Tables.passed_of_later (heligible.passed suite hrow) hlater,
      Tables.failed_eq_false.mpr fun e he hhash hsuite => ?_⟩
    rw [← hsince] at he
    rcases List.mem_append.mp he with he | he
    · exact Tables.failed_eq_false.mp (heligible.unfailed suite hrow) e he hhash hsuite
    · exact hunfailed e he hhash (hsuite ▸ hrow)

/-- What is written when something is made active. -/
theorem Evolves.writes (h : Evolves s t) (hs : Coherent s) (hlogged : t.activated = s.activated ++ [a]) :
    t.tables.activations.get? a.name = some ⟨a.hash, a.grantId, true⟩ ∧ Entitled a s.tables ∧
      (Complete a s → (Tested a.hash s ↔ Unfailed a s)) := by
  cases h with
  | same h =>
      subst h
      simp at hlogged
  | activated a' hvalid hcovers hlater heligible h =>
      subst h
      obtain rfl : a' = a := by simpa using hlogged
      obtain ⟨grant, hgrant, hhash, hrevoked, hunexpired, hactive⟩ := Tables.validGrant_iff.mp hvalid
      obtain ⟨grant', row, hgrant', hrow, -, hscope⟩ := hcovers
      rw [hgrant] at hgrant'
      cases hgrant'
      refine ⟨?_, ⟨hactive, grant, row, hgrant, hrow, hhash, hrevoked, hunexpired, hscope⟩,
        tested_iff hlater heligible hs⟩
      dsimp only
      rw [Table.get?_upsert, if_pos rfl]
  | _ =>
      subst t
      simp at hlogged

/-- Only `store_activation` makes something active. -/
theorem Evolves.active (h : Evolves s t) {name : String} {row : Activation}
    (hrow : t.tables.activations.get? name = some row) (hactive : row.active = true)
    (hnew : s.tables.activations.get? name ≠ some row) :
    ∃ a, t.activated = s.activated ++ [a] ∧ a.name = name ∧ row = ⟨a.hash, a.grantId, true⟩ := by
  cases h with
  | same h =>
      subst h
      exact absurd hrow hnew
  | enrolled suiteId suite h =>
      subst h
      rw [Tables.protect] at hrow
      split at hrow <;> exact absurd hrow hnew
  | activated a hvalid hcovers hlater heligible h =>
      subst h
      dsimp only at hrow
      rw [Table.get?_upsert] at hrow
      split at hrow
      case isTrue e =>
        cases hrow
        exact ⟨a, rfl, e.symm, rfl⟩
      case isFalse => exact absurd hrow hnew
  | retired hash assessments failures h =>
      subst h
      rw [Tables.retire, Table.get?_update] at hrow
      obtain ⟨old, hold, rfl⟩ := Option.map_eq_some_iff.mp hrow
      split at hactive
      case isTrue => cases hactive
      case isFalse hne =>
        rw [if_neg hne] at hnew
        exact absurd hold hnew
  | _ =>
      subst t
      exact absurd hrow hnew

variable {tools : Tooling} {pool later : Connections}
  {entries entries' : List (Entry Connections Step (Option Returned))}

abbrev Sound (pool : Connections) : Prop :=
  Pool.Satisfied Later (fun _ => Evolves) (fun call _ => Kept call) (fun _ => Coherent) pool

/-- What a move does. -/
theorem Sound.step (h : Sound pool) (tools : Tooling) (m : Step) :
    Evolves pool.shared (connections tools m pool).2.shared := by
  rcases (h.move (calls_specified tools) m).2.1 with hsame | ⟨-, -, -, -, -, hguar⟩
  · exact .same hsame
  · exact hguar

/-- What a run does. -/
theorem Sound.run (h : Sound pool) (hrun : History (connections tools) NoDrift pool entries later) :
    Sound later ∧ Later pool.shared later.shared :=
  hrun.invariant (fun u => Sound u ∧ Later pool.shared u.shared) ⟨h, .refl _⟩
    (fun m _ hu => ⟨(hu.1.move (calls_specified tools) m).1, hu.2.trans (hu.1.step tools m).later⟩)
    (NoDrift.keeps _)

theorem sound_empty : Sound ({ shared := {} } : Connections) where
  known := {
    named := fun _ _ h => by cases h
    withdrawn := fun _ h => by cases h }
  tasks := by simp

/-- **Activation only after every required test.**  In every run of any number of connections that
may stop anywhere, at any two moments and for any next step:

* what is retired stays retired, and none of its grants or activations can be used;
* the cases of a suite stay, and every evaluation stays;
* a list that `designate_required` has accepted is known;
* a tool becomes active only when an activation is written;
* when one is written the tool is not retired and the grant is there for it, not revoked, not
  expired and wide enough; and if the lists of the tool were complete when they were read, then
  every suite that was named for it is passed and never failed exactly when none of those read was
  failed in the meantime. -/
theorem tools_tested (tools : Tooling)
    (h : History (connections tools) NoDrift { shared := {} } entries pool)
    (h' : History (connections tools) NoDrift pool entries' later) (m : Step) :
    (∀ hash, pool.shared.tables.retirements.contains hash = true →
      later.shared.tables.retirements.contains hash = true ∧
        Withdrawn hash later.shared.tables) ∧
      (∀ id suite, pool.shared.tables.suites.get? id = some suite →
        later.shared.tables.suites.get? id = some suite) ∧
      pool.shared.tables.evaluations <+: later.shared.tables.evaluations ∧
      (∀ answer hash suites reply, (connections tools m later).1 = some answer →
        answer.call = .designateRequired hash suites → answer.result = .ok reply →
        ∀ suite ∈ suites, Named hash suite later.shared) ∧
      (∀ name row,
        (connections tools m later).2.shared.tables.activations.get? name = some row →
        row.active = true → later.shared.tables.activations.get? name ≠ some row →
        ∃ a, (connections tools m later).2.shared.activated = later.shared.activated ++ [a] ∧
          a.name = name ∧ row = ⟨a.hash, a.grantId, true⟩) ∧
      ∀ a, (connections tools m later).2.shared.activated = later.shared.activated ++ [a] →
        (connections tools m later).2.shared.tables.activations.get? a.name =
            some ⟨a.hash, a.grantId, true⟩ ∧
          Entitled a later.shared.tables ∧
          (Complete a later.shared → (Tested a.hash later.shared ↔ Unfailed a later.shared)) := by
  obtain ⟨hpool, -⟩ := sound_empty.run h
  obtain ⟨hlater, hkept⟩ := hpool.run h'
  have hstep := hlater.step tools m
  refine ⟨fun hash hretired => ?_, hkept.tables.suites, hkept.tables.evaluations, ?_,
    fun name row => hstep.active, fun a => hstep.writes hlater.known⟩
  · have hretired := hkept.tables.retirements hash hretired
    exact ⟨hretired, hlater.known.withdrawn hash hretired⟩
  · intro answer hash suites reply hanswer
    exact (hlater.move (calls_specified tools) m).2.2 answer hanswer hash suites reply

end Runs

/-! ### Two runs -/

/-- What `serde_json` prints and SHA-256 yields for the texts below; the tool returns its inputs. -/
def exampleTooling : Tooling where
  printDefinition _ :=
    "\x7b\"name\":\"changed\",\"version\":1,\"input_scope\":\x7b\"values\":[\"project:" ++
      "a\"]\x7d,\"expression\":\x7b\"op\":\"input\"\x7d\x7d"
  printCases cases :=
    if cases.all fun case => case.inputs.all fun input => input.value.eq (.number (.posInt 1)) then
      "[\x7b\"inputs\":[\x7b\"value\":1,\"scope\":\x7b\"values\":[\"project:a\"]\x7d\x7d]," ++
        "\"expected\":[1]\x7d]"
    else
      "[\x7b\"inputs\":[\x7b\"value\":2,\"scope\":\x7b\"values\":[\"project:a\"]\x7d\x7d]," ++
        "\"expected\":[2]\x7d]"
  digest text :=
    if text.utf8ByteSize = 97 then
      "049a8ff0e63f91cba8812250326db381ea2c0d6e488f4d38648aa1eaecb22d34"
    else if text.toList.any (· = '2') then
      "6b0ee8cca3657b3ec26e349007c0223fb13509afbd904566df1845d3097563cf"
    else "fe28b39339cdbb51be8dea2273a4d61889508d19e28ed7e391ef34304355dff8"
  execute _ inputs _ := .ok (.array (inputs.map ScopedInput.value))

def exampleScope : Scope := ⟨{"project:a"}⟩

def exampleHash : String := "049a8ff0e63f91cba8812250326db381ea2c0d6e488f4d38648aa1eaecb22d34"

def exampleCase (n : Nat) : EvaluationCase where
  inputs := [⟨.number (.posInt n), exampleScope⟩]
  expected := .array [.number (.posInt n)]

def exampleGrant : ApprovalGrant :=
  ⟨"grant-00000000-0000-4000-8000-000000000001", exampleHash, exampleScope⟩

/-- A call that takes this many steps and then returns. -/
def whole (call : Call) (steps : Nat) : List Step :=
  .start call :: List.replicate (steps + 1)
    (.advance 0 { now := 5, uuid := "00000000-0000-4000-8000-000000000001" })

/-- The tool, two suites, and `designate_required` up to its first row. -/
def prepared : List Step :=
  whole (.register ⟨⟨"changed", 1, exampleScope, .input⟩, ""⟩) 1 ++
    whole (.protectSuite "basic" [exampleCase 1]) 2 ++
    whole (.protectSuite "contrast" [exampleCase 2]) 2 ++
    .start (.designateRequired exampleHash ["basic", "contrast"]) ::
    List.replicate 5 (.advance 0 {})

/-- The grant, and `activate` up to its last statement. -/
def granted : List Step :=
  whole (.issueGrant exampleHash exampleScope none) 3 ++
    .start (.activate exampleGrant) :: List.replicate 5 (.advance 0 { now := 5 })

def testedRun : List (Entry Connections Step (Option Returned)) × Connections :=
  replay (connections exampleTooling) { shared := {} }
    (prepared ++ [.advance 0 {}, .advance 0 {}] ++ whole (.evaluateSuite exampleHash "basic") 4 ++
      whole (.evaluateSuite exampleHash "contrast") 4 ++ granted)

def interruptedRun : List (Entry Connections Step (Option Returned)) × Connections :=
  replay (connections exampleTooling) { shared := {} }
    (prepared ++ [.crash 0] ++ whole (.evaluateSuite exampleHash "basic") 4 ++ granted)

def activation : Step := .advance 0 { now := 5 }

/-- The activation that is the first of a run. -/
theorem exists_first {s t : Registry} {α : Type} {f : Activated → α} {x : α}
    (hs : s.activated.length = 0) (ht : t.activated.map f = [x]) :
    ∃ a, t.activated = s.activated ++ [a] ∧ f a = x := by
  obtain ⟨a, ha, hx⟩ := List.map_eq_singleton_iff.mp ht
  exact ⟨a, by rw [List.length_eq_zero_iff.mp hs, ha, List.nil_append], hx⟩

theorem tools_tested_activated : ∃ a,
    (connections exampleTooling activation testedRun.2).2.shared.activated =
      testedRun.2.shared.activated ++ [a] ∧ Tested exampleHash testedRun.2.shared := by
  have hfacts : testedRun.2.shared.activated.length = 0 ∧
      (connections exampleTooling activation testedRun.2).2.shared.activated.map (fun a => (a.hash,
        a.checked.required.contains (exampleHash, "basic"),
        a.checked.required.contains (exampleHash, "contrast"),
        a.checked.evaluations.length)) = [(exampleHash, true, true, 2)] ∧
      testedRun.2.shared.tables.evaluations.length = 2 ∧
      ∀ row ∈ testedRun.2.shared.designated, row = (exampleHash, ["basic", "contrast"]) := by
    decide +kernel
  obtain ⟨hnone, hfirst, hevaluations, hdesignated⟩ := hfacts
  obtain ⟨a, hlogged, ha⟩ := exists_first hnone hfirst
  simp only [Prod.mk.injEq] at ha
  obtain ⟨hhash, hbasic, hcontrast, hlength⟩ := ha
  have hrun : History (connections exampleTooling) NoDrift { shared := {} } testedRun.1
      testedRun.2 := History.replay _ _
  obtain ⟨-, -, -, -, -, hwrites⟩ := tools_tested exampleTooling hrun .nil activation
  obtain ⟨-, -, htested⟩ := hwrites a hlogged
  rw [hhash] at htested
  refine ⟨a, hlogged, (htested ?_).mpr ?_⟩
  · rintro suite ⟨suites, hmem, hsuite⟩
    rw [hhash] at hmem ⊢
    obtain ⟨-, rfl⟩ := Prod.mk.injEq .. ▸ hdesignated _ hmem
    rcases List.mem_cons.mp hsuite with rfl | hsuite
    · exact hbasic
    · cases List.mem_singleton.mp hsuite
      exact hcontrast
  · intro e he
    rw [hlength, List.drop_of_length_le hevaluations.le] at he
    cases he

/-- `designate_required` stops after the first of two rows: the tool becomes active although the
other suite was never passed. -/
theorem tools_untested : ∃ (entries : List (Entry Connections Step (Option Returned)))
    (pool : Connections) (m : Step) (a : Activated),
    History (connections exampleTooling) NoDrift { shared := {} } entries pool ∧
      (connections exampleTooling m pool).2.shared.activated = pool.shared.activated ++ [a] ∧
      ¬ Tested a.hash pool.shared := by
  have hfacts : interruptedRun.2.shared.activated.length = 0 ∧
      (connections exampleTooling activation interruptedRun.2).2.shared.activated.map
        Activated.hash = [exampleHash] ∧
      (exampleHash, ["basic", "contrast"]) ∈ interruptedRun.2.shared.designated ∧
      interruptedRun.2.shared.tables.passed exampleHash "contrast" = false := by
    decide +kernel
  obtain ⟨hnone, hfirst, hnamed, hpassed⟩ := hfacts
  obtain ⟨a, hlogged, hhash⟩ := exists_first hnone hfirst
  refine ⟨_, interruptedRun.2, activation, a, History.replay _ _, hlogged, fun htested => ?_⟩
  rw [hhash] at htested
  have h := (htested "contrast" ⟨_, hnamed, by simp⟩).1
  rw [hpassed] at h
  cases h

end Pikamux.Evolution
