import Pikamux.Json.Text
import Pikamux.Support.History
import Pikamux.Support.Result
import Pikamux.Support.Uuid
import Mathlib.Algebra.Order.Ring.Nat
import Std.Data.ExtTreeMap

/-!
# Fleet — Refresh

`store.rs`: a refresh of a remote machine claims a generation before its SSH request and commits
under it.  The generation is a counter in a `meta` row of the machine; a commit takes effect only
while the row still holds the generation it carries.  Deleting the machine deletes the row, so a
machine that is added again counts from one again.

* `commit_current_iff` — a commit that takes effect was not superseded, by a later claim or a
  delete, exactly when no later claim started again from the generation below its own.

A `meta` row holds a generation as text; here it holds what that text is read as, none when it is
no number.  The projections of a snapshot go to a database of their own before the transaction, and
stand here as the outcome `staged`.
-/

namespace Pikamux.Fleet

open Std Support Json

/-- A time in the store; times are stored and compared with zero. -/
abbrev Time := Int

structure FleetNode where
  nodeId : String
  aliasName : String
  sshTarget : String
  sources : List String
  status : String
  protocolVersion : Option Int
  packageVersion : Option String
  capabilities : List String
  lastSeen : Time
  lastAttemptAt : Time
  lastError : Option String
  createdAt : Time
  updatedAt : Time

structure RemoteSnapshot where
  payload : String
  capturedAt : Time

/-- The tables of the fleet: the adopted machines, their snapshots, and of the `meta` rows the
refresh generations and the cache revisions. -/
structure FleetStore where
  nodes : ExtTreeMap String FleetNode compare := ∅
  snapshots : ExtTreeMap String RemoteSnapshot compare := ∅
  generations : ExtTreeMap String (Option Nat) compare := ∅
  revisions : ExtTreeMap String String compare := ∅

/-- What a call returns. -/
inductive Reply where
  | generation (n : Nat)
  | flag (b : Bool)
  deriving DecidableEq, Repr

/-! ### Claims -/

/-- `u64::MAX`. -/
def maxGeneration : Nat := 2 ^ 64 - 1

/-- The generation stored for a machine, zero when there is none. -/
def storedGeneration (fleet : FleetStore) (nodeId : String) : Except String Nat :=
  match fleet.generations[nodeId]? with
  | none => .ok 0
  | some (some n) => .ok n
  | some none => .error "stored fleet refresh generation is invalid"

/-- Count the generation up and note the attempt. -/
def claim (nodeId : String) (now : Time) (fleet : FleetStore) : Except String (Reply × FleetStore) := do
  let current ← storedGeneration fleet nodeId
  ensure (current < maxGeneration) "fleet refresh generation exhausted"
  return (.generation (current + 1), { fleet with
    generations := fleet.generations.insert nodeId (some (current + 1))
    nodes := fleet.nodes.modify nodeId fun node =>
      { node with lastAttemptAt := now, updatedAt := now } })

def claimFleetRefresh (nodeId : String) (now : Time) (fleet : FleetStore) :
    Except String (Reply × FleetStore) := do
  ensure (fleet.nodes.contains nodeId) "fleet refresh requires an adopted node"
  claim nodeId now fleet

def claimFleetOnboarding (nodeId : String) (now : Time) (fleet : FleetStore) :
    Except String (Reply × FleetStore) := do
  ensure (Uuid.canonical nodeId).isSome "fleet node_id is not a UUID"
  claim nodeId now fleet

def deleteFleetNode (nodeId : String) (fleet : FleetStore) : Except String (Reply × FleetStore) :=
  .ok (.flag (fleet.nodes.contains nodeId),
    ⟨fleet.nodes.erase nodeId, fleet.snapshots.erase nodeId, fleet.generations.erase nodeId,
      fleet.revisions.erase nodeId⟩)

/-! ### Commits -/

/-- `MAX_REMOTE_SNAPSHOT_BYTES`. -/
def maxRemoteSnapshotBytes : Nat := 4 * 1024 * 1024

/-- A snapshot that is ready to be stored: its text and its fresh revision. -/
structure Prepared where
  encoded : String
  revision : String

/-- What a commit brings: the snapshot, when it was captured, its fresh revision, and what staging
its projections came to. -/
structure Snapshot where
  payload : Value
  capturedAt : Time
  revision : String
  staged : Except String Unit

def prepareRemoteSnapshot (snapshot : Snapshot) : Except String Prepared := do
  ensure snapshot.payload.asObject.isSome "remote snapshot must be a JSON object"
  let encoded := snapshot.payload.toText
  ensure (encoded.utf8ByteSize ≤ maxRemoteSnapshotBytes)
    "remote snapshot exceeds the 4 MiB safety limit"
  snapshot.staged
  return ⟨encoded, snapshot.revision⟩

/-- The row still holds this generation. -/
def fleetRefreshIsCurrent (fleet : FleetStore) (nodeId : String) (generation : Nat) : Bool :=
  fleet.generations[nodeId]? = some (some generation)

def writeRemoteSnapshot (fleet : FleetStore) (nodeId : String) (prepared : Prepared)
    (capturedAt : Time) : FleetStore :=
  { fleet with
    snapshots := fleet.snapshots.insert nodeId ⟨prepared.encoded, capturedAt⟩
    revisions := fleet.revisions.insert nodeId prepared.revision }

/-- The machine answered at `capturedAt`. -/
def FleetNode.ready (node : FleetNode) (capturedAt now : Time) : FleetNode :=
  { node with
    status := "ready"
    lastSeen := capturedAt
    lastError := none
    lastAttemptAt := capturedAt
    updatedAt := now }

def putRemoteSnapshotIfCurrent (nodeId : String) (snapshot : Snapshot) (generation : Nat)
    (now : Time) (fleet : FleetStore) : Except String (Reply × FleetStore) := do
  let prepared ← prepareRemoteSnapshot snapshot
  if fleetRefreshIsCurrent fleet nodeId generation then
    ensure (fleet.nodes.contains nodeId) "remote snapshot requires an adopted fleet node"
    let fleet := writeRemoteSnapshot fleet nodeId prepared snapshot.capturedAt
    return (.flag true, { fleet with
      nodes := fleet.nodes.modify nodeId (·.ready snapshot.capturedAt now) })
  else return (.flag false, fleet)

/-- `COLLATE NOCASE`. -/
def sameAlias (a b : String) : Bool := a.toList.map Char.toLower = b.toList.map Char.toLower

/-- The row of an onboarded machine; a row that exists keeps when it was created. -/
def onboarded (existing : Option FleetNode) (node : FleetNode) (now : Time) : FleetNode :=
  let createdAt := match existing with
    | some old => old.createdAt
    | none => if node.createdAt = 0 then now else node.createdAt
  { node with createdAt := createdAt }

def commitFleetOnboardingIfCurrent (node : FleetNode) (snapshot : Snapshot) (generation : Nat)
    (now : Time) (fleet : FleetStore) : Except String (Reply × FleetStore) := do
  ensure (Uuid.canonical node.nodeId).isSome "fleet node_id is not a UUID"
  let prepared ← prepareRemoteSnapshot snapshot
  if fleetRefreshIsCurrent fleet node.nodeId generation then
    ensure (fleet.nodes.toList.all fun (id, other) => !sameAlias other.aliasName node.aliasName ||
      id = node.nodeId) s!"machine alias {repr node.aliasName} already belongs to another node"
    let row := (onboarded fleet.nodes[node.nodeId]? node now).ready snapshot.capturedAt now
    let fleet := writeRemoteSnapshot fleet node.nodeId prepared snapshot.capturedAt
    return (.flag true, { fleet with nodes := fleet.nodes.insert node.nodeId row })
  else return (.flag false, fleet)

def errorStatuses : List String := ["unreachable", "auth", "incompatible", "quarantined", "error"]

def markFleetNodeErrorIfCurrent (nodeId : String) (generation : Nat) (status error : String)
    (now : Time) (fleet : FleetStore) : Except String (Reply × FleetStore) := do
  ensure (errorStatuses.contains status) s!"unsupported fleet node status: {status}"
  if fleetRefreshIsCurrent fleet nodeId generation then
    return (.flag (fleet.nodes.contains nodeId), { fleet with
      nodes := fleet.nodes.modify nodeId fun node =>
        { node with status, lastError := some error, lastAttemptAt := now, updatedAt := now } })
  else return (.flag false, fleet)

/-! ### Calls -/

/-- A call of one of the processes that share the store. -/
inductive Call where
  | claimRefresh (nodeId : String) (now : Time)
  | claimOnboarding (nodeId : String) (now : Time)
  | delete (nodeId : String)
  | put (nodeId : String) (snapshot : Snapshot) (generation : Nat) (now : Time)
  | onboard (node : FleetNode) (snapshot : Snapshot) (generation : Nat) (now : Time)
  | markError (nodeId : String) (generation : Nat) (status error : String) (now : Time)

def Call.run : Call → FleetStore → Except String (Reply × FleetStore)
  | claimRefresh nodeId now => claimFleetRefresh nodeId now
  | claimOnboarding nodeId now => claimFleetOnboarding nodeId now
  | delete nodeId => deleteFleetNode nodeId
  | put nodeId snapshot generation now => putRemoteSnapshotIfCurrent nodeId snapshot generation now
  | onboard node snapshot generation now =>
      commitFleetOnboardingIfCurrent node snapshot generation now
  | markError nodeId generation status error now =>
      markFleetNodeErrorIfCurrent nodeId generation status error now

def Call.perform (call : Call) (fleet : FleetStore) : Except String Reply × FleetStore :=
  atomically call.run fleet

/-- The machine a call claims a generation of. -/
def Call.claims : Call → Option String
  | claimRefresh nodeId _ => some nodeId
  | claimOnboarding nodeId _ => some nodeId
  | _ => none

/-- The machine a call commits to, and the generation it carries. -/
def Call.commits : Call → Option (String × Nat)
  | put nodeId _ generation _ => some (nodeId, generation)
  | onboard node _ generation _ => some (node.nodeId, generation)
  | markError nodeId generation _ _ _ => some (nodeId, generation)
  | _ => none

/-- Other transactions of the store leave the generations alone. -/
def Drift (fleet fleet' : FleetStore) : Prop := fleet'.generations = fleet.generations

/-! ### What a call does to a generation -/

section Step

variable {c : Call} {fleet fleet' : FleetStore} {r : Reply} {g : Nat}

theorem claim_spec {id : String} {now : Time} (h : claim id now fleet = .ok (r, fleet')) :
    ∃ n, storedGeneration fleet id = .ok n ∧ r = .generation (n + 1) ∧
      fleet'.generations = fleet.generations.insert id (some (n + 1)) := by
  obtain ⟨n, hn, h⟩ := bind_eq_ok.mp h
  obtain ⟨_, -, h⟩ := bind_eq_ok.mp h
  cases pure_eq_ok.mp h
  exact ⟨n, hn, rfl, rfl⟩

/-- A claim counts up, a delete forgets, and a commit needs the generation it carries. -/
theorem run_spec (h : c.run fleet = .ok (r, fleet')) :
    (∃ id n, c.claims = some id ∧ storedGeneration fleet id = .ok n ∧ r = .generation (n + 1) ∧
      fleet'.generations = fleet.generations.insert id (some (n + 1))) ∨
    (∃ id, c = .delete id ∧ fleet'.generations = fleet.generations.erase id) ∨
    (∃ id g b, c.commits = some (id, g) ∧ r = .flag b ∧ fleet'.generations = fleet.generations ∧
      (b = true → fleet.generations[id]? = some (some g))) := by
  cases c with
  | claimRefresh id now =>
      obtain ⟨_, -, h⟩ := bind_eq_ok.mp h
      obtain ⟨n, hspec⟩ := claim_spec h
      exact .inl ⟨id, n, rfl, hspec⟩
  | claimOnboarding id now =>
      obtain ⟨_, -, h⟩ := bind_eq_ok.mp h
      obtain ⟨n, hspec⟩ := claim_spec h
      exact .inl ⟨id, n, rfl, hspec⟩
  | delete id =>
      cases h
      exact .inr (.inl ⟨id, rfl, rfl⟩)
  | put id snapshot g now =>
      obtain ⟨prepared, -, h⟩ := bind_eq_ok.mp h
      split at h
      case isTrue hcurrent =>
        obtain ⟨_, -, h⟩ := bind_eq_ok.mp h
        cases pure_eq_ok.mp h
        exact .inr (.inr ⟨id, g, true, rfl, rfl, rfl, fun _ => of_decide_eq_true hcurrent⟩)
      case isFalse =>
        cases pure_eq_ok.mp h
        exact .inr (.inr ⟨id, g, false, rfl, rfl, rfl, nofun⟩)
  | onboard node snapshot g now =>
      obtain ⟨_, -, h⟩ := bind_eq_ok.mp h
      obtain ⟨prepared, -, h⟩ := bind_eq_ok.mp h
      split at h
      case isTrue hcurrent =>
        obtain ⟨_, -, h⟩ := bind_eq_ok.mp h
        cases pure_eq_ok.mp h
        exact .inr (.inr ⟨node.nodeId, g, true, rfl, rfl, rfl, fun _ => of_decide_eq_true hcurrent⟩)
      case isFalse =>
        cases pure_eq_ok.mp h
        exact .inr (.inr ⟨node.nodeId, g, false, rfl, rfl, rfl, nofun⟩)
  | markError id g status error now =>
      obtain ⟨_, -, h⟩ := bind_eq_ok.mp h
      split at h
      case isTrue hcurrent =>
        cases pure_eq_ok.mp h
        exact .inr (.inr ⟨id, g, _, rfl, rfl, rfl, fun _ => of_decide_eq_true hcurrent⟩)
      case isFalse =>
        cases pure_eq_ok.mp h
        exact .inr (.inr ⟨id, g, false, rfl, rfl, rfl, nofun⟩)

end Step

/-! ### Runs -/

/-- A call that was made, the store it found and what it returned. -/
abbrev Made := Entry FleetStore Call (Except String Reply)

/-- The entry claimed the generation `g` of the machine. -/
def Claims (e : Made) (nodeId : String) (g : Nat) : Prop :=
  e.call.claims = some nodeId ∧ e.result = .ok (.generation g)

/-- The entry committed to the machine under the generation `g`, with effect. -/
def TakesEffect (e : Made) (nodeId : String) (g : Nat) : Prop :=
  e.call.commits = some (nodeId, g) ∧ e.result = .ok (.flag true)

/-- The entry claimed the machine again, or deleted it. -/
def Supersedes (e : Made) (nodeId : String) : Prop :=
  (∃ g, Claims e nodeId g) ∨ e.call = .delete nodeId

/-- The entry is a claim made while the stored generation is the one below `g`. -/
def ClaimsFrom (e : Made) (nodeId : String) (g : Nat) : Prop :=
  e.call.claims = some nodeId ∧ ∃ n, storedGeneration e.before nodeId = .ok n ∧ n + 1 = g

section Run

variable {nodeId : String} {g : Nat} {entries : List Made} {fleet fleet' : FleetStore}

/-- The stored generation, after a claim of it: it stays until it is superseded, and comes back
only by a claim from the one below it. -/
structure Superseded (nodeId : String) (g : Nat) (entries : List Made) (fleet : FleetStore) :
    Prop where
  kept : (∀ e ∈ entries, ¬Supersedes e nodeId) → fleet.generations[nodeId]? = some (some g)
  lost : (∀ e ∈ entries, ¬ClaimsFrom e nodeId g) → (∃ e ∈ entries, Supersedes e nodeId) →
    fleet.generations[nodeId]? ≠ some (some g)

theorem Superseded.of_same {es : List Made} (h : Superseded nodeId g entries fleet)
    (hes : ∀ e ∈ es, ¬Supersedes e nodeId)
    (hsame : fleet'.generations[nodeId]? = fleet.generations[nodeId]?) :
    Superseded nodeId g (entries ++ es) fleet' := by
  refine ⟨fun hkept => ?_, fun hfrom hsup => ?_⟩
  · rw [hsame]
    exact h.kept fun e he => hkept e (List.mem_append_left _ he)
  · rw [hsame]
    refine h.lost (fun e he => hfrom e (List.mem_append_left _ he)) ?_
    obtain ⟨e, he, hsup⟩ := hsup
    rcases List.mem_append.mp he with he | he
    · exact ⟨e, he, hsup⟩
    · exact absurd hsup (hes e he)

theorem superseded_call {c : Call} (h : Superseded nodeId g entries fleet) :
    Superseded nodeId g (entries ++ [⟨fleet, c, (c.perform fleet).1⟩]) (c.perform fleet).2 := by
  rcases atomically_eq c.run fleet with ⟨r, t, hrun, heq⟩ | ⟨e, hrun, heq⟩
  · rw [Call.perform, heq]
    -- Another machine's claim or delete, and every commit, leave this generation as it is.
    rcases run_spec hrun with ⟨id, n, hc, hn, rfl, hgen⟩ | ⟨id, rfl, hgen⟩ | ⟨id, k, b, hc, rfl, hgen, -⟩
    · by_cases hid : id = nodeId
      · subst hid
        refine ⟨fun hkept => ?_, fun hfrom _ => ?_⟩
        · exact absurd (.inl ⟨n + 1, hc, rfl⟩) (hkept _ List.mem_concat_self)
        · have hne : n + 1 ≠ g := fun e => hfrom _ List.mem_concat_self ⟨hc, n, hn, e⟩
          rw [hgen, ExtTreeMap.getElem?_insert_self]
          simpa using hne
      · refine h.of_same ?_ ?_
        · rintro e he (⟨k, hk, -⟩ | hd)
          · rw [List.mem_singleton.mp he] at hk
            exact hid (Option.some.inj (hc.symm.trans hk))
          · rw [List.mem_singleton.mp he] at hd
            rw [show c = _ from hd] at hc
            cases hc
        · simp [hgen, ExtTreeMap.getElem?_insert, hid]
    · by_cases hid : id = nodeId
      · subst hid
        refine ⟨fun hkept => absurd (.inr rfl) (hkept _ List.mem_concat_self), fun _ _ => ?_⟩
        rw [hgen, ExtTreeMap.getElem?_erase_self]
        simp
      · refine h.of_same ?_ ?_
        · rintro e he (⟨k, hk, -⟩ | hd)
          · rw [List.mem_singleton.mp he] at hk
            cases hk
          · rw [List.mem_singleton.mp he] at hd
            exact hid (Call.delete.inj hd)
        · simp [hgen, ExtTreeMap.getElem?_erase, hid]
    · refine h.of_same ?_ (by rw [hgen])
      rintro e he (⟨k, -, hk⟩ | hd)
      · rw [List.mem_singleton.mp he] at hk
        cases hk
      · rw [List.mem_singleton.mp he] at hd
        rw [show c = _ from hd] at hc
        cases hc
  · rw [Call.perform, heq]
    refine h.of_same ?_ rfl
    rintro e he (⟨k, -, hk⟩ | hd)
    · rw [List.mem_singleton.mp he] at hk
      cases hk
    · rw [List.mem_singleton.mp he] at hd
      rw [show c = _ from hd] at hrun
      cases hrun

theorem superseded_of_claim (hstart : fleet.generations[nodeId]? = some (some g))
    (h : History Call.perform Drift fleet entries fleet') :
    Superseded nodeId g entries fleet' := by
  refine h.invariant_entries (Superseded nodeId g) ?_ ?_ ?_
  · exact ⟨fun _ => hstart, fun _ ⟨_, he, _⟩ => absurd he List.not_mem_nil⟩
  · intro es u c _ hs
    exact superseded_call hs
  · intro es u u' _ hd hs
    have hsame : Superseded nodeId g (es ++ []) u' :=
      hs.of_same (by simp) (congrArg (·[nodeId]?) hd)
    rwa [List.append_nil] at hsame

/-- A commit that takes effect carries a generation no later claim and no delete of its machine
superseded, if and only if since the claim no claim of the machine was made while the stored
generation was the one below (only a delete takes the row back). -/
theorem commit_current_iff {pre mid post : List Made} {claim commit : Made}
    (h : History Call.perform Drift fleet (pre ++ claim :: (mid ++ commit :: post)) fleet')
    (hclaim : Claims claim nodeId g) (hcommit : TakesEffect commit nodeId g) :
    (∀ e ∈ mid, ¬Supersedes e nodeId) ↔ ∀ e ∈ mid, ¬ClaimsFrom e nodeId g := by
  obtain ⟨-, hresult, hrest⟩ := h.split
  obtain ⟨hmid, hresult', -⟩ := hrest.split
  have hstart : (claim.call.perform claim.before).2.generations[nodeId]? = some (some g) := by
    have hrun := run_of_atomically (hresult.symm.trans hclaim.2)
    rcases run_spec hrun with ⟨id, n, hc, -, hr, hgen⟩ | ⟨id, hc, -⟩ | ⟨id, k, b, hc, hr, -⟩
    · cases Option.some.inj (hc.symm.trans hclaim.1)
      cases hr
      rw [Call.perform, hgen, ExtTreeMap.getElem?_insert_self]
    · cases (congrArg Call.claims hc).symm.trans hclaim.1
    · cases hr
  have hcurrent : commit.before.generations[nodeId]? = some (some g) := by
    have hrun := run_of_atomically (hresult'.symm.trans hcommit.2)
    rcases run_spec hrun with ⟨id, n, -, -, hr, -⟩ | ⟨id, hc, -⟩ | ⟨id, k, b, hc, hr, -, hb⟩
    · cases hr
    · cases (congrArg Call.commits hc).symm.trans hcommit.1
    · cases Option.some.inj (hc.symm.trans hcommit.1)
      cases hr
      exact hb rfl
  have hs := superseded_of_claim hstart hmid
  constructor
  · intro hsup e he hfrom
    -- Up to this entry nothing superseded the claim, so the row holds `g` and not the one below.
    obtain ⟨before, after, rfl⟩ := List.append_of_mem he
    obtain ⟨hbefore, -⟩ := hmid.split
    have hkept := (superseded_of_claim hstart hbefore).kept fun e' he' =>
      hsup e' (List.mem_append_left _ he')
    obtain ⟨-, n, hn, hg⟩ := hfrom
    rw [storedGeneration, hkept] at hn
    cases hn
    omega
  · intro hfrom e he hsup
    exact hs.lost hfrom ⟨e, he, hsup⟩ hcurrent

end Run

/-! ### A machine removed and added again -/

section Readded

def nodeId : String := "aaaaaaaa-aaaa-4aaa-8aaa-aaaaaaaaaaaa"

def node : FleetNode := ⟨nodeId, "box", "user@box", [], "unknown", none, none, [], 0, 0, none, 0, 0⟩

def emptySnapshot (capturedAt : Time) : Snapshot :=
  ⟨.object [], capturedAt, "revision", .ok ()⟩

/-- One process claims the machine, another removes it and a third claims it anew: the commit of
the first takes effect. -/
theorem superseded_commit :
    ∃ (fleet : FleetStore) (claim : Made) (mid : List Made) (commit : Made),
      History Call.perform Drift {} ([] ++ claim :: (mid ++ commit :: [])) fleet ∧
      Claims claim nodeId 1 ∧ TakesEffect commit nodeId 1 ∧ ∃ e ∈ mid, Supersedes e nodeId := by
  refine ⟨_, ⟨_, .claimOnboarding nodeId 1, _⟩, [⟨_, .delete nodeId, _⟩,
    ⟨_, .claimOnboarding nodeId 3, _⟩], ⟨_, .onboard node (emptySnapshot 2) 1 4, _⟩,
    (((History.nil.call _).call _).call _).call _, ⟨rfl, ?_⟩, ⟨rfl, ?_⟩, _, List.mem_cons_self,
    .inr rfl⟩
  · decide +kernel
  · decide +kernel

/-- A refresh of another machine, tried between an onboarding's claim and its commit. -/
def otherMachine : List Made :=
  [⟨(Call.perform (.claimOnboarding nodeId 1) {}).2, .claimRefresh "other" 2,
    .error "fleet refresh requires an adopted node"⟩]

theorem commit_current_iff_otherMachine :
    (∀ e ∈ otherMachine, ¬Supersedes e nodeId) ↔ ∀ e ∈ otherMachine, ¬ClaimsFrom e nodeId 1 := by
  have claimed : History Call.perform Drift {} _ _ := History.nil.call (.claimOnboarding nodeId 1)
  have h := (claimed.call (.claimRefresh "other" 2)).call (.onboard node (emptySnapshot 2) 1 3)
  refine @commit_current_iff nodeId 1 _ _ [] otherMachine [] ⟨_, .claimOnboarding nodeId 1, _⟩
    ⟨_, .onboard node (emptySnapshot 2) 1 3, _⟩ h ⟨rfl, ?_⟩ ⟨rfl, ?_⟩
  · decide +kernel
  · decide +kernel

end Readded

end Pikamux.Fleet
