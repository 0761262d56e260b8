import Pikamux.Processes.Canonical
import Pikamux.Support.Reach

/-!
# Processes — Panes

`process.rs`: which process of a tagged pane is the client of its conversation.

The tree of a pane is walked down from its root over links to parents that may be stale or go in
circles (`mem_processTree`).  One process of the tree with proof of identity becomes the candidate;
every other process of the provider must be its launcher, a sibling that a certificate names, or a
helper below it.  The last is found by walking up, which ends at the root of the pane
(`unverifiedProvider_eq_false`).

* `exact_pane_verified` — a selection that reports no ambiguity and no missing root has accounted
  for every process of the provider in every pane.
-/

namespace Pikamux.Processes

open Std Support Relation

/-- A pane as far as the selection and the proof of identity look at it. -/
structure Pane where
  paneId : String
  panePid : Int
  pikaLaunchToken : Option String
  deriving DecidableEq, Repr

/-! ### The tree of a process -/

section Tree

def childrenOf (processes : Observed) (pid : Int) : List Int :=
  (processes.values.filter fun record => record.parentPid = some pid).map ProcessRecord.pid

/-- `process_tree` -/
def processTree (root : Int) (processes : Observed) : List Int :=
  if root ∈ processes.records then
    traverse processes.records (childrenOf processes) [root] ∅
  else []

/-- One process names the other as its parent. -/
def ChildLink (processes : Observed) (parent pid : Int) : Prop :=
  ∃ record, processes.records[pid]? = some record ∧ record.parentPid = some parent

/-- The process can be reached from the root through child links. -/
def Below (processes : Observed) (root pid : Int) : Prop :=
  root ∈ processes.records ∧ ReflTransGen (ChildLink processes) root pid

variable {processes : Observed} {root parent pid : Int}

theorem down_iff : Down processes.records (childrenOf processes) parent pid ↔
    ChildLink processes parent pid := by
  rw [Down, childrenOf, List.mem_map]
  constructor
  · rintro ⟨⟨record, hrecord, rfl⟩, -⟩
    obtain ⟨hvalue, hparent⟩ := List.mem_filter.mp hrecord
    exact ⟨record, Observed.mem_values.mp hvalue, of_decide_eq_true hparent⟩
  · rintro ⟨record, hrecord, hparent⟩
    obtain rfl := processes.keyed pid record hrecord
    exact ⟨⟨record, List.mem_filter.mpr ⟨Observed.mem_values.mpr hrecord,
      decide_eq_true hparent⟩, rfl⟩, mem_of_getElem? hrecord⟩

theorem mem_processTree : pid ∈ processTree root processes ↔ Below processes root pid := by
  have hdown : Down processes.records (childrenOf processes) = ChildLink processes := by
    ext parent pid
    exact down_iff
  by_cases hroot : root ∈ processes.records
  · rw [processTree, if_pos hroot, mem_traverse hroot, hdown, Below, and_iff_right hroot]
  · rw [processTree, if_neg hroot, Below]
    exact iff_of_false List.not_mem_nil fun h => hroot h.1

end Tree

/-! ### Helpers -/

section Helpers

/-- An argument is a UUID. -/
def namesConversation (record : ProcessRecord) : Bool :=
  record.argv.any fun argument => (Uuid.parse argument.toList).isSome

/-- `is_provider_helper` -/
def isProviderHelper (providerPid ownerPid root : Int) (processes : Observed) : Bool :=
  (runtimeLauncherGeneration ownerPid processes).any (fun launcher => launcher.pid = providerPid) ||
    processes.records[providerPid]?.any fun record =>
      !namesConversation record &&
        climbs processes.records ProcessRecord.parentPid ownerPid root providerPid ∅

/-- `unverified_provider` -/
def unverifiedProvider (pid owner root : Int) (processes : Observed) : Bool :=
  pid ≠ owner && !isProviderHelper pid owner root processes

/-- What a process next to the candidate can be. -/
inductive Accounted (processes : Observed) (advisory : Int → Int → Bool) (root owner pid : Int) :
    Prop where
  /-- The runtime that has started the candidate. -/
  | launcher (launches : Launches processes pid owner)
  /-- A sibling that a certificate names. -/
  | sibling (approved : advisory pid owner = true)
  /-- A process of no conversation of its own, whose chain of parents meets the candidate before it
  leaves the root of the pane. -/
  | helper (record : ProcessRecord) (found : processes.records[pid]? = some record)
      (anonymous : namesConversation record = false)
      (below : ReflTransGen (Up processes.records ProcessRecord.parentPid owner root) pid owner)

variable {processes : Observed} {advisory : Int → Int → Bool} {pid owner root : Int}

theorem accounted_of_helper (h : isProviderHelper pid owner root processes = true) :
    Accounted processes advisory root owner pid := by
  rcases Bool.or_eq_true_iff.mp h with h | h
  · obtain ⟨launcher, hlauncher, hpid⟩ := (Option.any_eq_true _ _).mp h
    have hlaunches := runtimeLauncherGeneration_spec hlauncher
    rw [of_decide_eq_true hpid] at hlaunches
    exact .launcher hlaunches
  · obtain ⟨record, hrecord, h⟩ := (Option.any_eq_true _ _).mp h
    rw [Bool.and_eq_true, Bool.not_eq_true'] at h
    exact .helper record hrecord h.1 (climbs_iff.mp h.2)

theorem unverifiedProvider_eq_false (h : unverifiedProvider pid owner root processes = false) :
    pid = owner ∨ Accounted processes advisory root owner pid := by
  by_cases hpid : pid = owner
  · exact .inl hpid
  · rw [unverifiedProvider, decide_eq_true hpid, Bool.true_and, Bool.not_eq_false'] at h
    exact .inr (accounted_of_helper h)

end Helpers

/-! ### The selection -/

structure IdentityPaneSelection where
  candidates : List (Pane × Int) := []
  ambiguousProvider : Bool := false
  incompleteRoot : Bool := false
  deriving DecidableEq, Repr

section Selection

variable (provider : Provider) (identityPids : ExtTreeSet Int compare) (processes : Observed)
  (provesPane : Int → Pane → Bool) (advisory : Int → Int → Bool)

/-- The processes of the provider in the tree of a pane. -/
def providerPids (pane : Pane) : List Int :=
  (processTree pane.panePid processes).filter fun pid =>
    processes.records[pid]?.bind ProcessRecord.provider = some provider

/-- The first process with the identity in the tree of a pane that is proven to be the pane's. -/
def provenPid (pane : Pane) : Option Int :=
  identityPids.toList.find? fun pid =>
    (processTree pane.panePid processes).contains pid && provesPane pid pane

def selectPane (selection : IdentityPaneSelection) (pane : Pane) : IdentityPaneSelection :=
  if pane.panePid ∉ processes.records then { selection with incompleteRoot := true }
  else
    match provenPid identityPids processes provesPane pane with
    | some owner =>
        { selection with
          candidates := selection.candidates ++ [(pane, owner)]
          ambiguousProvider := selection.ambiguousProvider ||
            (providerPids provider processes pane).any fun pid =>
              !advisory pid owner && unverifiedProvider pid owner pane.panePid processes }
    | none =>
        { selection with
          ambiguousProvider := selection.ambiguousProvider ||
            !(providerPids provider processes pane).isEmpty }

/-- `identity_pane_candidates_with_advisory` -/
def identityPaneCandidatesWithAdvisory (panes : List Pane) : IdentityPaneSelection :=
  panes.foldl (selectPane provider identityPids processes provesPane advisory) {}

/-- `identity_pane_candidates` -/
def identityPaneCandidates (panes : List Pane) : IdentityPaneSelection :=
  identityPaneCandidatesWithAdvisory provider identityPids processes provesPane
    (fun _ _ => false) panes

variable {provider identityPids processes provesPane advisory}
  {selection : IdentityPaneSelection} {pane : Pane} {panes : List Pane} {pid owner : Int}

theorem mem_providerPids : pid ∈ providerPids provider processes pane ↔
    Below processes pane.panePid pid ∧
      processes.records[pid]?.bind ProcessRecord.provider = some provider := by
  rw [providerPids, List.mem_filter, mem_processTree, decide_eq_true_iff]

theorem provenPid_spec (h : provenPid identityPids processes provesPane pane = some owner) :
    owner ∈ identityPids ∧ Below processes pane.panePid owner ∧ provesPane owner pane = true := by
  have hfound := List.find?_some h
  rw [Bool.and_eq_true, List.contains_iff_mem, mem_processTree] at hfound
  exact ⟨ExtTreeSet.mem_toList.mp (List.mem_of_find?_eq_some h), hfound⟩

/-- A pane of whose tree nothing is left open. -/
def Clear (provider : Provider) (identityPids : ExtTreeSet Int compare) (processes : Observed)
    (provesPane : Int → Pane → Bool) (advisory : Int → Int → Bool) (pane : Pane) : Prop :=
  match provenPid identityPids processes provesPane pane with
  | some owner => ∀ pid ∈ providerPids provider processes pane, advisory pid owner = true ∨
      unverifiedProvider pid owner pane.panePid processes = false
  | none => providerPids provider processes pane = []

/-- The candidate of a pane, if it has one. -/
def candidateOf (identityPids : ExtTreeSet Int compare) (processes : Observed)
    (provesPane : Int → Pane → Bool) (pane : Pane) : Option (Pane × Int) :=
  (provenPid identityPids processes provesPane pane).map fun owner => (pane, owner)

/-- One pane: nothing is reported after it only if nothing was before it and the pane is clear. -/
theorem selectPane_spec
    (hambiguous : (selectPane provider identityPids processes provesPane advisory selection
      pane).ambiguousProvider = false)
    (hroot : (selectPane provider identityPids processes provesPane advisory selection
      pane).incompleteRoot = false) :
    selection.ambiguousProvider = false ∧ selection.incompleteRoot = false ∧
      Clear provider identityPids processes provesPane advisory pane ∧
      (selectPane provider identityPids processes provesPane advisory selection pane).candidates =
        selection.candidates ++ (candidateOf identityPids processes provesPane pane).toList := by
  unfold selectPane at hambiguous hroot ⊢
  by_cases hin : pane.panePid ∉ processes.records
  · rw [if_pos hin] at hroot
    cases hroot
  · rw [if_neg hin] at hambiguous hroot ⊢
    rw [Clear, candidateOf]
    cases hproven : provenPid identityPids processes provesPane pane with
    | some owner =>
        rw [hproven] at hambiguous hroot
        obtain ⟨hbefore, hclear⟩ := Bool.or_eq_false_iff.mp hambiguous
        refine ⟨hbefore, hroot, fun pid hpid => ?_, rfl⟩
        have hpid := List.any_eq_false.mp hclear pid hpid
        rw [Bool.not_eq_true, Bool.and_eq_false_iff, Bool.not_eq_false'] at hpid
        exact hpid
    | none =>
        rw [hproven] at hambiguous hroot
        obtain ⟨hbefore, hclear⟩ := Bool.or_eq_false_iff.mp hambiguous
        rw [Bool.not_eq_false', List.isEmpty_iff] at hclear
        exact ⟨hbefore, hroot, hclear, (List.append_nil _).symm⟩

/-- All panes: each is clear, and the candidates are those of the panes. -/
theorem foldl_selectPane
    (hambiguous : (panes.foldl (selectPane provider identityPids processes provesPane advisory)
      selection).ambiguousProvider = false)
    (hroot : (panes.foldl (selectPane provider identityPids processes provesPane advisory)
      selection).incompleteRoot = false) :
    selection.ambiguousProvider = false ∧ selection.incompleteRoot = false ∧
      (∀ pane ∈ panes, Clear provider identityPids processes provesPane advisory pane) ∧
      (panes.foldl (selectPane provider identityPids processes provesPane advisory)
        selection).candidates = selection.candidates ++
          panes.filterMap (candidateOf identityPids processes provesPane) := by
  induction panes generalizing selection with
  | nil => exact ⟨hambiguous, hroot, fun _ h => absurd h List.not_mem_nil, by simp⟩
  | cons pane panes ih =>
      rw [List.foldl_cons] at hambiguous hroot ⊢
      obtain ⟨hambiguous, hroot, hpanes, hcandidates⟩ := ih hambiguous hroot
      obtain ⟨hbefore, hbefore', hpane, hcandidate⟩ := selectPane_spec hambiguous hroot
      refine ⟨hbefore, hbefore', List.forall_mem_cons.mpr ⟨hpane, hpanes⟩, ?_⟩
      rw [hcandidates, hcandidate, List.append_assoc, List.filterMap_cons]
      cases candidateOf identityPids processes provesPane pane <;> rfl

/-- A selection without ambiguity and without a missing root has accounted for every process of the
provider in every pane: there is none, or the pane has one candidate that explains the others. -/
theorem exact_pane_verified (panes : List Pane) (provider : Provider)
    (identityPids : ExtTreeSet Int compare) (processes : Observed)
    (provesPane : Int → Pane → Bool) (advisory : Int → Int → Bool)
    (hambiguous : (identityPaneCandidatesWithAdvisory provider identityPids processes provesPane
      advisory panes).ambiguousProvider = false)
    (hroot : (identityPaneCandidatesWithAdvisory provider identityPids processes provesPane
      advisory panes).incompleteRoot = false) :
    ∀ pane ∈ panes,
      (∀ pid, Below processes pane.panePid pid →
        processes.records[pid]?.bind ProcessRecord.provider ≠ some provider) ∨
      ∃ owner, (∀ pid, (pane, pid) ∈ (identityPaneCandidatesWithAdvisory provider identityPids
          processes provesPane advisory panes).candidates ↔ pid = owner) ∧
        owner ∈ identityPids ∧ Below processes pane.panePid owner ∧
        provesPane owner pane = true ∧
        ∀ pid, Below processes pane.panePid pid →
          processes.records[pid]?.bind ProcessRecord.provider = some provider →
          pid = owner ∨ Accounted processes advisory pane.panePid owner pid := by
  intro pane hpane
  obtain ⟨-, -, hclear, hcandidates⟩ := foldl_selectPane hambiguous hroot
  have hclear := hclear pane hpane
  rw [Clear] at hclear
  cases hproven : provenPid identityPids processes provesPane pane with
  | none =>
      rw [hproven] at hclear
      refine .inl fun pid hbelow hkind => ?_
      exact List.ne_nil_of_mem (mem_providerPids.mpr ⟨hbelow, hkind⟩) hclear
  | some owner =>
      rw [hproven] at hclear
      refine .inr ⟨owner, fun pid => ?_, ?_⟩
      · rw [identityPaneCandidatesWithAdvisory, hcandidates, List.nil_append, List.mem_filterMap]
        constructor
        · rintro ⟨other, -, h⟩
          obtain ⟨found, hfound, h⟩ := Option.map_eq_some_iff.mp h
          obtain ⟨rfl, rfl⟩ := Prod.mk.inj h
          exact Option.some.inj (hfound.symm.trans hproven)
        · rintro rfl
          exact ⟨pane, hpane, by rw [candidateOf, hproven, Option.map_some]⟩
      · obtain ⟨hidentity, hbelow, hproves⟩ := provenPid_spec hproven
        refine ⟨hidentity, hbelow, hproves, fun pid hbelow hkind => ?_⟩
        rcases hclear pid (mem_providerPids.mpr ⟨hbelow, hkind⟩) with happroved | hverified
        · exact .inr (.sibling happroved)
        · exact unverifiedProvider_eq_false hverified

end Selection

/-! ### A shell with a client and its helper -/

def shellWithClient : Observed :=
  .collect [{ pid := 1, parentPid := none, startTime := 1, argv := ["sh"] },
    { pid := 2, parentPid := some 1, startTime := 2, argv := ["codex", "resume", "target"] },
    { pid := 3, parentPid := some 2, startTime := 3, argv := ["codex", "app-server", "--stdio"] }]

def firstPane : Pane := { paneId := "%1", panePid := 1, pikaLaunchToken := none }

theorem shellWithClient_tree : processTree 1 shellWithClient = [1, 2, 3] := by
  have hone : childrenOf shellWithClient 1 = [2] := by decide +kernel
  have htwo : childrenOf shellWithClient 2 = [3] := by decide +kernel
  have hthree : childrenOf shellWithClient 3 = [] := by decide +kernel
  have hmem (pid : Int) (h : shellWithClient.records.contains pid = true) :
      pid ∈ shellWithClient.records := h
  rw [processTree, if_pos (hmem 1 (by decide +kernel))]
  simp [Support.traverse, hone, htwo, hthree, hmem 1 (by decide +kernel),
    hmem 2 (by decide +kernel), hmem 3 (by decide +kernel)]

theorem shellWithClient_helper : isProviderHelper 3 2 1 shellWithClient = true := by
  have hclimbs : climbs shellWithClient.records ProcessRecord.parentPid 2 1 3 ∅ = true :=
    climbs_iff.mpr (.single ⟨by decide, by decide, by decide +kernel⟩)
  have hrecord : shellWithClient.records[(3 : Int)]? = some
      { pid := 3, parentPid := some 2, startTime := 3, argv := ["codex", "app-server", "--stdio"] } :=
    by decide +kernel
  rw [isProviderHelper, hrecord, Option.any_some, hclimbs]
  decide +kernel

theorem shellWithClient_selected : identityPaneCandidates .codex (ExtTreeSet.ofList [2] compare)
    shellWithClient (fun pid _ => pid = 2) [firstPane] = { candidates := [(firstPane, 2)] } := by
  have hproven : provenPid (ExtTreeSet.ofList [2] compare) shellWithClient (fun pid _ => pid = 2)
      firstPane = some 2 := by
    rw [provenPid, firstPane, shellWithClient_tree]
    decide +kernel
  have hkind : providerPids .codex shellWithClient firstPane = [2, 3] := by
    rw [providerPids, firstPane, shellWithClient_tree]
    decide +kernel
  have hroot : firstPane.panePid ∈ shellWithClient.records := by decide +kernel
  rw [identityPaneCandidates, identityPaneCandidatesWithAdvisory, List.foldl_cons, List.foldl_nil,
    selectPane, if_neg (not_not_intro hroot), hproven, hkind]
  simp [unverifiedProvider, firstPane, shellWithClient_helper]

/-- The client is the only candidate, and the helper below it is accounted for. -/
theorem exact_pane_verified_shell :
    Accounted shellWithClient (fun _ _ => false) 1 2 3 := by
  have hbelow (pid : Int) (h : pid ∈ [(1 : Int), 2, 3]) : Below shellWithClient 1 pid := by
    rw [← mem_processTree, shellWithClient_tree]
    exact h
  have hkind (pid : Int) (h : pid = 2 ∨ pid = 3) :
      shellWithClient.records[pid]?.bind ProcessRecord.provider = some .codex := by
    rcases h with rfl | rfl <;> decide +kernel
  have hselected := shellWithClient_selected
  rw [identityPaneCandidates] at hselected
  have hverified := exact_pane_verified [firstPane] .codex (ExtTreeSet.ofList [2] compare)
    shellWithClient (fun pid _ => pid = 2) (fun _ _ => false) (by rw [hselected])
    (by rw [hselected]) firstPane List.mem_cons_self
  rw [hselected] at hverified
  rcases hverified with hnone | ⟨owner, hcandidate, -, -, -, hothers⟩
  · exact absurd (hkind 2 (.inl rfl)) (hnone 2 (hbelow 2 (by simp)))
  · obtain rfl : 2 = owner := (hcandidate 2).mp List.mem_cons_self
    exact (hothers 3 (hbelow 3 (by simp)) (hkind 3 (.inr rfl))).resolve_left (by decide)

end Pikamux.Processes
