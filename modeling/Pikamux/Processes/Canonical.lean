import Mathlib.Logic.Relation
import Pikamux.Processes.Record

/-!
# Processes — Canonical

`process.rs`: the processes that carry the id of a conversation, one for each client.

A client started through a runtime is seen twice, as `node script arguments` and as its child
`program arguments`.  `canonicalIdentityPids` drops the launcher.  Each such step takes one argument
off the command line, so whatever the parent links are, a chain of launchers ends at a process that
is kept (`exists_retained`).

* `canonical_drops_launchers` — only launchers of retained processes are dropped, and something is
  retained when anything was found.
-/

namespace Pikamux.Processes

open Std Support Relation

/-! ### Launchers -/

def runtimes : List String := ["node", "nodejs", "bun"]

/-- The process runs a script in a known runtime. -/
def ProcessRecord.isRuntime (self : ProcessRecord) : Bool :=
  (self.argv.head?.bind fileName).any runtimes.contains

/-- `runtime_launcher_generation` -/
def runtimeLauncherGeneration (pid : Int) (processes : Observed) : Option ProcessGeneration := do
  let child ← processes.records[pid]?
  let parent ← processes.records[← child.parentPid]?
  if parent.isRuntime && 2 ≤ parent.argv.length && child.provider.isSome &&
      child.provider = parent.provider && parent.startTime ≤ child.startTime &&
      parent.argv.drop 2 = child.argv.drop 1 then
    some parent.generation
  else none

/-- One process starts another of the same provider and hands on its arguments, all but one. -/
structure Forwards (parent child : ProcessRecord) : Prop where
  link : child.parentPid = some parent.pid
  runtime : parent.isRuntime = true
  provider : child.provider = parent.provider ∧ child.provider.isSome = true
  earlier : parent.startTime ≤ child.startTime
  shorter : parent.argv.length = child.argv.length + 1
  arguments : parent.argv.drop 2 = child.argv.drop 1

/-- The process under one pid is the launcher of the process under another. -/
def Launches (processes : Observed) (launcher pid : Int) : Prop :=
  ∃ parent child, processes.records[launcher]? = some parent ∧
    processes.records[pid]? = some child ∧ Forwards parent child

variable {processes : Observed} {launcher pid : Int} {generation : ProcessGeneration}

theorem runtimeLauncherGeneration_spec
    (h : runtimeLauncherGeneration pid processes = some generation) :
    Launches processes generation.pid pid := by
  obtain ⟨child, hchild, h⟩ := Option.bind_eq_some_iff.mp h
  obtain ⟨above, habove, h⟩ := Option.bind_eq_some_iff.mp h
  obtain ⟨parent, hparent, h⟩ := Option.bind_eq_some_iff.mp h
  split at h
  case isFalse => cases h
  case isTrue hforwards =>
    simp only [Bool.and_eq_true, decide_eq_true_eq] at hforwards
    obtain ⟨⟨⟨⟨⟨hruntime, hlength⟩, hsome⟩, hprovider⟩, hearlier⟩, harguments⟩ := hforwards
    obtain rfl := Option.some.inj h
    obtain rfl := processes.keyed above parent hparent
    refine ⟨parent, child, hparent, hchild, habove, hruntime, ⟨hprovider, hsome⟩, hearlier, ?_,
      harguments⟩
    -- what is a provider has a first argument, so both are cut inside
    have hpos := List.length_pos_iff.mpr (ProcessRecord.argv_ne_nil hsome)
    have hlengths := congrArg List.length harguments
    rw [List.length_drop, List.length_drop] at hlengths
    omega

theorem exists_runtimeLauncherGeneration (h : Launches processes launcher pid) :
    ∃ generation, runtimeLauncherGeneration pid processes = some generation ∧
      generation.pid = launcher := by
  obtain ⟨parent, child, hparent, hchild, hforwards⟩ := h
  have hpid := processes.keyed launcher parent hparent
  refine ⟨parent.generation, ?_, hpid⟩
  have hpos := List.length_pos_iff.mpr (ProcessRecord.argv_ne_nil hforwards.provider.2)
  have hlength : 2 ≤ parent.argv.length := by
    rw [hforwards.shorter]
    omega
  simp [runtimeLauncherGeneration, hchild, hforwards.link, hpid, hparent, hforwards.runtime,
    hlength, hforwards.provider, hforwards.earlier, hforwards.arguments]
  rw [← hforwards.provider.1]
  exact Option.isSome_iff_ne_none.mp hforwards.provider.2

/-! ### Dropping the launchers -/

def launcherAliases (candidates : ExtTreeSet Int compare) (processes : Observed) :
    ExtTreeSet Int compare :=
  ExtTreeSet.ofList (candidates.toList.filterMap fun pid => do
    let parent ← runtimeLauncherGeneration pid processes
    if candidates.contains parent.pid then some parent.pid else none) compare

/-- `canonical_identity_pids` -/
def canonicalIdentityPids (candidates : ExtTreeSet Int compare) (processes : Observed) : List Int :=
  candidates.toList.filter fun pid => !(launcherAliases candidates processes).contains pid

variable {candidates : ExtTreeSet Int compare}

theorem mem_launcherAliases : launcher ∈ launcherAliases candidates processes ↔
    launcher ∈ candidates ∧ ∃ pid ∈ candidates, Launches processes launcher pid := by
  rw [launcherAliases, ExtTreeSet.mem_ofList, List.contains_iff_mem, List.mem_filterMap]
  constructor
  · rintro ⟨pid, hpid, h⟩
    obtain ⟨generation, hgeneration, h⟩ := Option.bind_eq_some_iff.mp h
    split at h
    case isFalse => cases h
    case isTrue hin =>
      obtain rfl := Option.some.inj h
      exact ⟨ExtTreeSet.contains_iff_mem.mp hin, pid, ExtTreeSet.mem_toList.mp hpid,
        runtimeLauncherGeneration_spec hgeneration⟩
  · rintro ⟨hin, pid, hpid, h⟩
    obtain ⟨generation, hgeneration, rfl⟩ := exists_runtimeLauncherGeneration h
    refine ⟨pid, ExtTreeSet.mem_toList.mpr hpid, ?_⟩
    simp [hgeneration, hin]

theorem mem_canonicalIdentityPids : pid ∈ canonicalIdentityPids candidates processes ↔
    pid ∈ candidates ∧ ¬∃ child ∈ candidates, Launches processes pid child := by
  rw [canonicalIdentityPids, List.mem_filter, ExtTreeSet.mem_toList, Bool.not_eq_true',
    Bool.eq_false_iff, Ne, ExtTreeSet.contains_iff_mem, mem_launcherAliases]
  exact and_congr_right fun hin => not_congr (and_iff_right hin)

/-- The arguments of the process under a pid. -/
def argumentCount (processes : Observed) (pid : Int) : Nat :=
  (processes.records[pid]?.map fun record => record.argv.length).getD 0

theorem Launches.argumentCount (h : Launches processes launcher pid) :
    argumentCount processes launcher = argumentCount processes pid + 1 := by
  obtain ⟨parent, child, hparent, hchild, hforwards⟩ := h
  rw [Processes.argumentCount, Processes.argumentCount, hparent, hchild]
  exact hforwards.shorter

/-- Below a launcher that is dropped there is a process that is kept. -/
theorem exists_retained (hin : pid ∈ candidates)
    (hdropped : pid ∉ canonicalIdentityPids candidates processes) :
    ∃ retained ∈ canonicalIdentityPids candidates processes,
      TransGen (Launches processes) pid retained := by
  generalize hcount : argumentCount processes pid = count
  induction count using Nat.strongRecOn generalizing pid with
  | ind count ih =>
      rw [mem_canonicalIdentityPids] at hdropped
      obtain ⟨child, hchild, hlaunches⟩ : ∃ child ∈ candidates, Launches processes pid child := by
        tauto
      by_cases hkept : child ∈ canonicalIdentityPids candidates processes
      · exact ⟨child, hkept, .single hlaunches⟩
      · have hless : argumentCount processes child < count := by
          rw [← hcount, hlaunches.argumentCount]
          exact Nat.lt_succ_self _
        obtain ⟨retained, hretained, hbelow⟩ := ih _ hless hchild hkept rfl
        exact ⟨retained, hretained, .head hlaunches hbelow⟩

theorem canonicalIdentityPids_ne_nil (h : candidates ≠ ∅) :
    canonicalIdentityPids candidates processes ≠ [] := by
  obtain ⟨pid, hin⟩ : ∃ pid, pid ∈ candidates := by
    by_contra hnone
    exact h (ExtTreeSet.ext_mem fun pid =>
      iff_of_false (fun hin => hnone ⟨pid, hin⟩) ExtTreeSet.not_mem_empty)
  by_cases hkept : pid ∈ canonicalIdentityPids candidates processes
  · exact List.ne_nil_of_mem hkept
  · obtain ⟨retained, hretained, -⟩ := exists_retained hin hkept
    exact List.ne_nil_of_mem hretained

/-- Of what carries the id of a conversation, only runtime launchers are dropped, each for a process
that it has started and that is kept. -/
theorem canonical_drops_launchers (candidates : ExtTreeSet Int compare) (processes : Observed) :
    (∀ pid ∈ canonicalIdentityPids candidates processes, pid ∈ candidates) ∧
      (∀ pid ∈ candidates, pid ∉ canonicalIdentityPids candidates processes →
        (∃ record, processes.records[pid]? = some record ∧ record.isRuntime = true) ∧
          ∃ retained ∈ canonicalIdentityPids candidates processes,
            TransGen (Launches processes) pid retained) ∧
      (candidates ≠ ∅ → canonicalIdentityPids candidates processes ≠ []) := by
  refine ⟨fun pid hpid => (mem_canonicalIdentityPids.mp hpid).1, fun pid hin hdropped => ?_,
    canonicalIdentityPids_ne_nil⟩
  obtain ⟨retained, hretained, hbelow⟩ := exists_retained hin hdropped
  obtain ⟨_, ⟨parent, child, hparent, -, hforwards⟩, -⟩ := TransGen.head'_iff.mp hbelow
  exact ⟨⟨parent, hparent, hforwards.runtime⟩, retained, hretained, hbelow⟩

/-! ### The processes of a conversation -/

/-- The options of Muse that take a value. -/
def museValueOptions : List String :=
  ["--provider", "--preset", "--model", "--reasoning-effort", "--base-url", "--image",
    "--workspace", "--agents", "--worktree-base", "--worktree-existing", "--approval-mode",
    "--permission-profile", "--approval-judge", "--sandbox-network", "--echo-delay-ms"]

/-- The options of Muse that take none. -/
def museSwitches : List String :=
  ["--parallel-tool-calls", "--no-parallel-tool-calls", "--subagent-worktree-isolation", "--yolo",
    "--trust-workspace", "--disable-approval", "--disable-sandbox", "--disable-write",
    "--disable-shell", "--enable-shell-tool"]

/-- The arguments of Muse resume the conversation, and every other one is an option that is known. -/
def museResumes (identity : String) : List String → Bool → Bool → Bool
  | [], resumed, matched => resumed && matched
  | argument :: arguments, resumed, matched =>
      if argument = "resume" && !resumed then museResumes identity arguments true matched
      else if resumed && !matched && argument = identity then
        museResumes identity arguments resumed true
      else
        let inline := splitOnce ['='] argument.toList
        let flag := inline.elim argument fun halves => String.ofList halves.1
        if museValueOptions.contains flag then
          if inline.isSome then museResumes identity arguments resumed matched
          else match arguments with
            | [] => false
            | _ :: arguments => museResumes identity arguments resumed matched
        else if museSwitches.contains flag && inline.isNone then
          museResumes identity arguments resumed matched
        -- help, pickers and what is unknown cannot prove a conversation
        else false

/-- `muse_resume_identity` -/
def museResumeIdentity (argv : List String) (identity : String) : Bool :=
  match museExecutableIndex argv with
  | none => false
  | some executable =>
      (Uuid.parse identity.toList).isSome &&
        museResumes identity (argv.drop (executable + 1)) false false

/-- The process is a client of the provider that carries the id. -/
def carries (identity : String) (provider : Provider) (record : ProcessRecord) : Bool :=
  record.provider = some provider &&
    if provider = .muse then museResumeIdentity record.argv identity
    else record.argv.contains identity

/-- `find_session_processes` -/
def findSessionProcesses (identity : String) (provider : Provider) (processes : Observed) :
    List Int :=
  canonicalIdentityPids (ExtTreeSet.ofList ((processes.values.filter
    (carries identity provider)).map ProcessRecord.pid) compare) processes

end Pikamux.Processes
