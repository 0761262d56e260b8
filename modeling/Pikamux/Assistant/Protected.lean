import Pikamux.Assistant.Eligibility

/-!
# Assistant — Protected

What a protected suite holds.  The lookup of `protect_suite` and its insertion are two statements,
and the insertion ignores a row that has the identifier or the digest of another.

* `Stored` — the cases are stored under the identifier.
* `Free` — nothing is in the way of a row.
* `suites_protected` — when a call that succeeds has stored its cases, and that one that fails
  stores nothing.
-/

namespace Pikamux.Evolution

open Support Support.Program

/-- Under this identifier `designate_required` finds a suite, and `evaluate_suite` runs these
cases: the text that is stored is theirs. -/
def Stored (tools : Tooling) (suiteId : String) (cases : List EvaluationCase) (db : Tables) :
    Prop :=
  ∃ suite, db.suites.get? suiteId = some suite ∧
    tools.printCases suite.cases = tools.printCases cases

/-- Neither the identifier nor the digest of the cases is in use. -/
def Free (tools : Tooling) (suiteId : String) (cases : List EvaluationCase) (db : Tables) : Prop :=
  db.suites.get? suiteId = none ∧ ∀ other suite, db.suites.get? other = some suite →
    suite.suiteHash ≠ tools.digest (tools.printCases cases)

section Insertion

variable {tools : Tooling} {suiteId : String} {cases : List EvaluationCase} {db db' : Tables}

theorem Stored.later (h : Stored tools suiteId cases db) (hlater : db.Later db') :
    Stored tools suiteId cases db' := by
  obtain ⟨suite, hsuite, hcases⟩ := h
  exact ⟨suite, hlater.suites suiteId suite hsuite, hcases⟩

/-- The row that `protect_suite` inserts. -/
def Tooling.suite (tools : Tooling) (cases : List EvaluationCase) : Suite :=
  ⟨cases, tools.digest (tools.printCases cases)⟩

/-- A digest that is in use. -/
theorem any_suiteHash {hash : String} :
    db.suites.any (fun _ other => other.suiteHash = hash) = true ↔
      ∃ other suite, db.suites.get? other = some suite ∧ suite.suiteHash = hash := by
  simp [Table.any_iff]

/-- **The insertion.** -/
theorem stored_protect : Stored tools suiteId cases (db.protect suiteId (tools.suite cases)) ↔
    Stored tools suiteId cases db ∨ Free tools suiteId cases db := by
  rw [Tables.protect]
  by_cases htaken : db.suites.any fun _ other => other.suiteHash = (tools.suite cases).suiteHash
  · rw [if_pos htaken]
    obtain ⟨other, suite, hsuite, hhash⟩ := any_suiteHash.mp htaken
    refine ⟨.inl, fun h => h.resolve_right fun hfree => ?_⟩
    exact hfree.2 other suite hsuite hhash
  · rw [if_neg htaken]
    have hinsert : (db.suites.insertOrIgnore suiteId (tools.suite cases)).get? suiteId =
        some ((db.suites.get? suiteId).getD (tools.suite cases)) := by
      rw [Table.get?_insertOrIgnore, if_pos rfl]
    cases hold : db.suites.get? suiteId with
    | some suite =>
        rw [hold, Option.getD_some] at hinsert
        simp only [Stored, Free, hinsert, hold]
        simp
    | none =>
        rw [hold, Option.getD_none] at hinsert
        refine ⟨fun _ => .inr ⟨hold, fun other suite hsuite hhash => htaken ?_⟩, fun _ => ?_⟩
        · exact any_suiteHash.mpr ⟨other, suite, hsuite, hhash⟩
        · exact ⟨tools.suite cases, hinsert, rfl⟩

end Insertion

/-! ### Calls -/

section Calls

variable {tools : Tooling} {suiteId : String} {cases : List EvaluationCase} {s t : Registry}

/-- What a call that succeeds does with its last statement. -/
def Enrols (tools : Tooling) (suiteId : String) (cases : List EvaluationCase) (s t : Registry) :
    Prop :=
  t = { s with tables := s.tables.protect suiteId (tools.suite cases) }

theorem ends_protectSuite : Ends (fun s t (_ : Unit) => Enrols tools suiteId cases s t)
    (protectSuite tools suiteId cases) := by
  refine .after _ fun _ => .after _ fun _ => .after _ fun _ => ends_check fun encoded hencoded => ?_
  obtain ⟨-, -, hencoded⟩ := bind_eq_ok.mp hencoded
  cases hencoded
  refine .after _ fun _ => .after _ fun _ => .after _ fun _ =>
    ends_transaction fun i s a t hrun => ?_
  obtain ⟨-, -, hrun⟩ := bind_eq_ok.mp hrun
  cases hrun
  rfl

theorem ends_protect : Ends (fun s t (_ : Reply) => Enrols tools suiteId cases s t)
    ((Call.protectSuite suiteId cases).action tools) :=
  ends_protectSuite.map fun _ _ _ h => h

theorem commits_protect : ((Call.protectSuite suiteId cases).code tools).Commits := by
  refine commits_map (fun _ => Reply.done) ?_
  exact commits_check fun _ => commits_check fun _ => commits_check fun _ => commits_check fun _ =>
    commits_check fun _ => commits_query fun _ => commits_check fun _ => commits_transaction

/-- What is left of a call that protects a suite. -/
def Protecting (tools : Tooling) (call : Call) (rest : Program Chance Registry Replies) : Prop :=
  ∀ suiteId cases, call = .protectSuite suiteId cases → rest.Commits ∧
    rest.Closing fun s t r => ∀ reply, r = .ok reply → Enrols tools suiteId cases s t

theorem protecting_code (tools : Tooling) (call : Call) :
    Protecting tools call (call.code tools) := by
  rintro suiteId cases rfl
  exact ⟨commits_protect, ends_protect.closing⟩

theorem protecting_hereditary (tools : Tooling) (call : Call) :
    Pool.Hereditary (Protecting tools call) := by
  intro effect next i s h suiteId cases hcall
  obtain ⟨hcommits, hclosing⟩ := h suiteId cases hcall
  exact ⟨(hcommits i s).2, (hclosing i s).2⟩

end Calls

/-! ### Runs -/

section Runs

variable {pool later : Connections} {entries : List (Entry Connections Step (Option Returned))}

/-- **What a protected suite holds.**  In every run of any number of connections that may stop
anywhere, and for the next step:

* when a call reaches its success, its cases are stored under its identifier in every state from
  then on exactly if its insertion found them stored there already, or found neither the identifier
  nor their digest in use;
* a step of a call changes nothing unless it is the last one of a call that succeeds. -/
theorem suites_protected (tools : Tooling)
    (h : History (connections tools) NoDrift { shared := {} } entries pool) (m : Step) :
    (∀ suiteId cases reply, (connections tools m pool).2.reached =
        pool.reached ++ [(.protectSuite suiteId cases, .ok reply)] →
      ((∀ entries' later,
          History (connections tools) NoDrift (connections tools m pool).2 entries' later →
          Stored tools suiteId cases later.shared.tables) ↔
        Stored tools suiteId cases pool.shared.tables ∨
          Free tools suiteId cases pool.shared.tables)) ∧
      ∀ place chance task suiteId cases, m = .advance place chance →
        pool.tasks[place]? = some task → task.call = .protectSuite suiteId cases →
        (connections tools m pool).2.shared = pool.shared ∨
          ∃ reply, (connections tools m pool).2.reached =
            pool.reached ++ [(.protectSuite suiteId cases, .ok reply)] := by
  have hrest : ∀ task ∈ pool.tasks, Protecting tools task.call task.rest :=
    Pool.rest (protecting_code tools) (protecting_hereditary tools) h
  obtain ⟨hsound, -⟩ := sound_empty.run h
  constructor
  · intro suiteId cases reply hreached
    have hafter := (hsound.move (calls_specified tools) m).1
    have hpending : (Call.protectSuite suiteId cases).code tools ≠ .done (.ok reply) :=
      ends_protect.pending reply
    obtain ⟨place, chance, since, effect, next, rfl, htask, hdone, hshared⟩ :=
      Pool.reached_step hpending hreached
    obtain ⟨-, hclosing⟩ := hrest _ (List.mem_of_getElem? htask) suiteId cases rfl
    have hlast := (hclosing chance pool.shared).1 _ hdone reply rfl
    rw [← hshared] at hlast
    have htables : (connections tools (.advance place chance) pool).2.shared.tables =
        pool.shared.tables.protect suiteId (tools.suite cases) :=
      congrArg Registry.tables hlast
    rw [← stored_protect, ← htables]
    constructor
    · intro hall
      exact hall [] _ .nil
    · intro hstored entries' later hlater
      obtain ⟨-, hkept⟩ := Sound.run hafter hlater
      exact hstored.later hkept.tables
  · rintro place chance ⟨call, since, rest⟩ suiteId cases rfl htask rfl
    cases rest with
    | done r =>
        left
        rw [connections, Pool.move, Pool.advance, htask]
    | step effect next =>
        obtain ⟨hcommits, -⟩ := hrest _ (List.mem_of_getElem? htask) suiteId cases rfl
        have hmove := Pool.move_step (Call.code tools) htask chance
        rw [connections, hmove]
        rcases (hcommits chance pool.shared).1 with hsame | ⟨reply, hreply⟩
        · exact .inl hsame
        · refine .inr ⟨reply, ?_⟩
          rw [hreply]
          rfl

end Runs

/-! ### Two identifiers for one list of cases -/

/-- A suite, up to the insertion. -/
def protecting (suiteId : String) : List Step :=
  [.start (.protectSuite suiteId [exampleCase 1]), .advance 0 {}]

def protectedRun : List (Entry Connections Step (Option Returned)) × Connections :=
  replay (connections exampleTooling) { shared := {} } (protecting "basic")

def repeatedRun : List (Entry Connections Step (Option Returned)) × Connections :=
  replay (connections exampleTooling) { shared := {} }
    (whole (.protectSuite "basic" [exampleCase 1]) 2 ++ protecting "contrast")

theorem suites_protected_basic : Stored exampleTooling "basic" [exampleCase 1]
    (connections exampleTooling (.advance 0 {}) protectedRun.2).2.shared.tables := by
  have hrun : History (connections exampleTooling) NoDrift { shared := {} } protectedRun.1
      protectedRun.2 := History.replay _ _
  obtain ⟨hstored, -⟩ := suites_protected exampleTooling hrun (.advance 0 {})
  refine (hstored "basic" [exampleCase 1] .done rfl).mpr (.inr ⟨rfl, ?_⟩) [] _ .nil
  intro other suite hsuite
  cases hsuite

/-- The cases of a suite under another identifier: the call succeeds and stores nothing. -/
theorem suites_unprotected : ∃ (entries : List (Entry Connections Step (Option Returned)))
    (pool : Connections) (m : Step) (reply : Reply),
    History (connections exampleTooling) NoDrift { shared := {} } entries pool ∧
      (connections exampleTooling m pool).2.reached =
        pool.reached ++ [(.protectSuite "contrast" [exampleCase 1], .ok reply)] ∧
      ¬ Stored exampleTooling "contrast" [exampleCase 1]
        (connections exampleTooling m pool).2.shared.tables := by
  refine ⟨_, repeatedRun.2, .advance 0 {}, .done, History.replay _ _, rfl, ?_⟩
  have hnone : (connections exampleTooling (.advance 0 {})
      repeatedRun.2).2.shared.tables.suites.contains "contrast" = false := by decide +kernel
  rintro ⟨suite, hsuite, -⟩
  rw [Table.contains, hsuite] at hnone
  cases hnone

end Pikamux.Evolution
