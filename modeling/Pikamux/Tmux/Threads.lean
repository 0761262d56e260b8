import Pikamux.Fleet.Mutation
import Pikamux.Support.Map
import Pikamux.Terminal.Frame

/-!
# Tmux — Threads

The threads that were opened last from each client, in an option of the tmux server.  A run takes a
lease, reads the option, and writes it with its thread recorded; what it writes and the lease it
gives back are fenced by its token.  Between the commands of a run others come.

* `Fenced` — while a run has the lease, what it read is what is stored.
* `Bounded` — what a committed map is: 32 clients, of each the last ten threads.
* `recent_threads` — a run of any number of processes is the successful ones one after another.
-/

namespace Pikamux.Tmux

open Support Json Std

structure ThreadClient where
  client : String
  pid : Nat
  created : Nat
  deriving DecidableEq, Repr

structure RecentThread where
  nodeId : Option String
  provider : Provider
  sessionId : String
  deriving DecidableEq, Repr

def RecentThread.valid (thread : RecentThread) : Bool :=
  Fleet.Mutation.validId thread.provider thread.sessionId &&
    thread.nodeId.all fun node => node != "" && decide (node.utf8ByteSize ≤ 128) &&
      ! node.toList.any Terminal.isControl

/-- The text under which a client is stored. -/
def recentClientKey (client : ThreadClient) : String :=
  (Value.array [.string client.client, .number (.posInt client.pid),
    .number (.posInt client.created)]).toText

/-- A row of `list-clients`: name, process, pane, last session and creation. -/
def ThreadClient.matches (client : ThreadClient) (row : List String) : Bool :=
  row.length == 5 && row[0]? == some client.client && row[1]? == some (toString client.pid) &&
    row[4]? == some (toString client.created)

/-- The histories under the texts of their clients, each with the client that is read back from it.
The option holds the map as it was printed. -/
abbrev RecentThreads := ExtTreeMap String (ThreadClient × List RecentThread) compare

def RecentThread.toValue (thread : RecentThread) : Value :=
  .object [("node_id", thread.nodeId.elim .null .string),
    ("provider", .string thread.provider.text),
    ("session_id", .string thread.sessionId)]

def RecentThreads.toText (histories : RecentThreads) : String :=
  (Value.object (histories.toList.map fun row =>
    (row.1, .array (row.2.2.map RecentThread.toValue)))).toText

/-- The histories without the first client. -/
def popFirst (histories : RecentThreads) : RecentThreads :=
  match histories.minKey? with
  | none => histories
  | some key => histories.erase key

/-- What is read from the option, printed with the end of its line. -/
def boundedRecentThreads (stored : Option RecentThreads) (active : List (List String)) :
    RecentThreads :=
  let histories := (stored.filter fun histories =>
    decide (histories.toText.utf8ByteSize + 1 ≤ 128 * 1024)).getD ∅
  let histories : RecentThreads := histories.filterMap fun _ row =>
    if active.any row.1.matches then some (row.1, (row.2.filter RecentThread.valid).take 10)
    else none
  popFirst^[histories.size - 32] histories

/-- A thread is put before the others of its client. -/
def recorded (client : ThreadClient) (thread : RecentThread) (histories : RecentThreads) :
    RecentThreads :=
  let key := recentClientKey client
  let histories :=
    if ! histories.contains key && decide (32 ≤ histories.size) then popFirst histories
    else histories
  let history := (histories[key]?.map Prod.snd).getD []
  histories.insert key (client, (thread :: history.filter (· ≠ thread)).take 10)

/-! ### Runs -/

/-- The options of the server. -/
structure Server (τ : Type) where
  recent : Option RecentThreads := none
  lock : Option τ := none
  expiry : Option Nat := none

/-- What a run is to record. -/
structure Job where
  client : ThreadClient
  thread : RecentThread

/-- How far a run is, and what it has learned. -/
inductive Phase where
  | idle
  | acquiring (now : Nat)
  | acquired
  | listed (active : List (List String))
  | read (active : List (List String)) (stored : Option RecentThreads)
  | releasing (committed : Bool)
  | done (ok : Bool)

/-- A commit, with the clients that were there. -/
structure Commit (τ : Type) where
  run : τ
  active : List (List String)

structure System (τ : Type) where
  server : Server τ := {}
  phase : τ → Phase := fun _ => .idle
  commits : List (Commit τ) := []

/-- The next step of a run: a command of the server, or a failure before the next one. -/
inductive Move where
  | start (now : Nat)
  | acquire
  | list (active : List (List String))
  | read
  | commit (expired : Bool)
  | fail
  | release
  deriving DecidableEq, Repr

section Runs

variable {τ : Type} [DecidableEq τ] (job : τ → Job)

/-- What one run, alone, makes of the option. -/
def Commit.apply (stored : Option RecentThreads) (c : Commit τ) : Option RecentThreads :=
  some (recorded (job c.run).client (job c.run).thread (boundedRecentThreads stored c.active))

/-- Whether the lease is free at a time; tmux compares the texts. -/
def Server.available (server : Server τ) (now : Nat) : Bool :=
  server.lock.isNone || decide (server.expiry.elim "" toString ≤ toString now)

def Server.acquire (server : Server τ) (run : τ) (now : Nat) : Server τ :=
  { server with lock := some run, expiry := some (now + 30) }

def Server.release (server : Server τ) (run : τ) : Server τ :=
  if server.lock = some run then { server with lock := none, expiry := none } else server

def System.go (system : System τ) (run : τ) (phase : Phase) : System τ :=
  { system with phase := Function.update system.phase run phase }

/-- A step of a run.  One that does not come next changes nothing. -/
def step (call : τ × Move) (system : System τ) : System τ :=
  let run := call.1
  match system.phase run, call.2 with
  | .idle, .start now =>
      system.go run (if (job run).thread.valid then .acquiring now else .done false)
  | .acquiring now, .acquire =>
      if system.server.available now then
        { system with server := system.server.acquire run now }.go run .acquired
      else system
  | .acquiring _, .fail => system.go run (.done false)
  | .acquired, .list active =>
      system.go run
        (if active.any (job run).client.matches then .listed active else .releasing false)
  | .acquired, .fail => system.go run (.releasing false)
  | .listed active, .read => system.go run (.read active system.server.recent)
  | .listed _, .fail => system.go run (.releasing false)
  | .read active stored, .commit expired =>
      if ¬ expired ∧ system.server.lock = some run then
        { system with
          server := { system.server with
            recent := Commit.apply job stored (Commit.mk run active) }
          commits := system.commits ++ [Commit.mk run active] }.go run (.releasing true)
      else system.go run (.releasing false)
  | .read _ _, .fail => system.go run (.releasing false)
  | .releasing committed, .release =>
      { system with server := system.server.release run }.go run (.done committed)
  | _, _ => system

def perform (call : τ × Move) (system : System τ) : Unit × System τ := ((), step job call system)

/-! ### Steps -/

variable {job} {run other : τ} {system next : System τ}

/-- The run has asked for the lease and was given it. -/
def Phase.leased : Phase → Bool
  | .idle | .acquiring _ | .done _ => false
  | _ => true

/-- The commit of the run was accepted. -/
def Phase.committed : Phase → Bool
  | .releasing committed | .done committed => committed
  | _ => false

/-- What a step does. -/
inductive StepCase (job : τ → Job) (run : τ) (system : System τ) : System τ → Prop where
  | stay : StepCase job run system system
  | start (now : Nat) (phase : system.phase run = .idle) (valid : (job run).thread.valid = true) :
      StepCase job run system (system.go run (.acquiring now))
  | refused (phase : (system.phase run).leased = false)
      (committed : (system.phase run).committed = false) :
      StepCase job run system (system.go run (.done false))
  | acquire {now : Nat} (phase : system.phase run = .acquiring now) :
      StepCase job run system
        ({ system with server := system.server.acquire run now }.go run .acquired)
  | list {active : List (List String)} (phase : system.phase run = .acquired) :
      StepCase job run system (system.go run (.listed active))
  | read {active : List (List String)} (phase : system.phase run = .listed active) :
      StepCase job run system (system.go run (.read active system.server.recent))
  | failed (phase : (system.phase run).leased = true)
      (committed : (system.phase run).committed = false) :
      StepCase job run system (system.go run (.releasing false))
  | commit {active : List (List String)} {stored : Option RecentThreads}
      (phase : system.phase run = .read active stored) (lock : system.server.lock = some run) :
      StepCase job run system
        ({ system with
          server := { system.server with recent := Commit.apply job stored (Commit.mk run active) }
          commits := system.commits ++ [Commit.mk run active] }.go run (.releasing true))
  | release {committed : Bool} (phase : system.phase run = .releasing committed) :
      StepCase job run system
        ({ system with server := system.server.release run }.go run (.done committed))

theorem step_case (run : τ) (move : Move) (system : System τ) :
    StepCase job run system (step job (run, move) system) := by
  rw [step]
  cases hphase : system.phase run with
  | idle =>
      cases move with
      | start now =>
          simp only
          by_cases hvalid : (job run).thread.valid = true
          · rw [if_pos hvalid]
            exact .start now hphase hvalid
          · rw [if_neg hvalid]
            exact .refused (by rw [hphase]; rfl) (by rw [hphase]; rfl)
      | _ => exact .stay
  | acquiring now =>
      cases move with
      | acquire =>
          simp only
          by_cases havailable : system.server.available now = true
          · rw [if_pos havailable]
            exact .acquire hphase
          · rw [if_neg havailable]
            exact .stay
      | fail => exact .refused (by rw [hphase]; rfl) (by rw [hphase]; rfl)
      | _ => exact .stay
  | acquired =>
      cases move with
      | list active =>
          simp only
          by_cases hthere : active.any (job run).client.matches = true
          · rw [if_pos hthere]
            exact .list hphase
          · rw [if_neg hthere]
            exact .failed (by rw [hphase]; rfl) (by rw [hphase]; rfl)
      | fail => exact .failed (by rw [hphase]; rfl) (by rw [hphase]; rfl)
      | _ => exact .stay
  | listed active =>
      cases move with
      | read => exact .read hphase
      | fail => exact .failed (by rw [hphase]; rfl) (by rw [hphase]; rfl)
      | _ => exact .stay
  | read active stored =>
      cases move with
      | commit expired =>
          simp only
          by_cases hheld : ¬ expired ∧ system.server.lock = some run
          · rw [if_pos hheld]
            exact .commit hphase hheld.2
          · rw [if_neg hheld]
            exact .failed (by rw [hphase]; rfl) (by rw [hphase]; rfl)
      | fail => exact .failed (by rw [hphase]; rfl) (by rw [hphase]; rfl)
      | _ => exact .stay
  | releasing committed =>
      cases move with
      | release => exact .release hphase
      | _ => exact .stay
  | done ok => cases move <;> exact .stay

/-! ### The fence -/

/-- A phase in which the thread was checked. -/
def Phase.asked : Phase → Bool
  | .acquiring _ => true
  | phase => phase.leased

/-- What a run at a phase knows. -/
structure Knows (job : τ → Job) (server : Server τ) (commits : List (Commit τ)) (run : τ)
    (phase : Phase) : Prop where
  /-- What it read is what is stored while it has the lease. -/
  read : ∀ active stored, phase = .read active stored → server.lock = some run →
    stored = server.recent
  asked : phase.asked = true → (job run).thread.valid = true
  committed : phase.committed = true ↔ run ∈ commits.map Commit.run

structure Fenced (job : τ → Job) (system : System τ) : Prop where
  knows : ∀ run, Knows job system.server system.commits run (system.phase run)
  recent : system.server.recent = system.commits.foldl (Commit.apply job) none
  valid : ∀ c ∈ system.commits, (job c.run).thread.valid = true
  once : (system.commits.map Commit.run).Nodup

theorem go_self (phase : Phase) : (system.go run phase).phase run = phase := Function.update_self ..

theorem go_other (phase : Phase) (h : other ≠ run) :
    (system.go run phase).phase other = system.phase other := Function.update_of_ne h ..

/-- The phases after a step that moves one run, one phase at a time. -/
theorem go_forall {P : τ → Phase → Prop} {phase : Phase} (hself : P run phase)
    (hother : ∀ other, other ≠ run → P other (system.phase other)) (other : τ) :
    P other ((system.go run phase).phase other) := by
  by_cases h : other = run
  · rw [h, go_self]
    exact hself
  · rw [go_other phase h]
    exact hother other h

/-- A step that moves a run and changes no option. -/
theorem Fenced.go {phase : Phase} (h : Fenced job system)
    (hread : ∀ active stored, phase = .read active stored → stored = system.server.recent)
    (hasked : phase.asked = true → (job run).thread.valid = true)
    (hcommitted : phase.committed = (system.phase run).committed) :
    Fenced job (system.go run phase) := by
  refine ⟨go_forall ⟨fun active stored hphase _ => hread active stored hphase, hasked, ?_⟩
    fun other _ => h.knows other, h.recent, h.valid, h.once⟩
  rw [hcommitted]
  exact (h.knows run).committed

theorem Fenced.step (h : Fenced job system) (hstep : StepCase job run system next) :
    Fenced job next := by
  have hrun := h.knows run
  cases hstep with
  | stay => exact h
  | start now phase valid => exact h.go nofun (fun _ => valid) (by rw [phase]; rfl)
  | refused phase committed => exact h.go nofun nofun (by rw [committed]; rfl)
  | list phase => exact h.go nofun (fun _ => hrun.asked (by rw [phase]; rfl)) (by rw [phase]; rfl)
  | read phase =>
      refine h.go (fun active stored hread => ?_) (fun _ => hrun.asked (by rw [phase]; rfl))
        (by rw [phase]; rfl)
      cases hread
      rfl
  | failed phase committed =>
      refine h.go nofun (fun _ => hrun.asked ?_) (by rw [committed]; rfl)
      cases hphase : system.phase run <;> simp_all [Phase.leased, Phase.asked]
  | acquire phase =>
      have hcommitted := hrun.committed
      rw [phase] at hcommitted
      refine ⟨go_forall ⟨nofun, fun _ => hrun.asked (by rw [phase]; rfl), hcommitted⟩
        fun other hother => ?_, h.recent, h.valid, h.once⟩
      have hknows := h.knows other
      refine ⟨fun active stored _ hlock => ?_, hknows.asked, hknows.committed⟩
      -- the lease is another's now
      exact absurd (Option.some.inj hlock).symm hother
  | @commit active stored phase lock =>
      have hstored : stored = system.server.recent := hrun.read active stored phase lock
      have hnew : run ∉ system.commits.map Commit.run := by
        rw [← hrun.committed, phase]
        exact Bool.false_ne_true
      have hvalid : (job run).thread.valid = true := hrun.asked (by rw [phase]; rfl)
      refine ⟨go_forall ⟨nofun, fun _ => hvalid, by simp [Phase.committed, System.go]⟩
        fun other hother => ?_, ?_, ?_, ?_⟩
      · have hknows := h.knows other
        refine ⟨fun active stored _ hlock => ?_, hknows.asked, ?_⟩
        · have hother' : some run = some other := lock.symm.trans hlock
          exact absurd (Option.some.inj hother').symm hother
        · rw [hknows.committed]
          simp [hother, System.go]
      · simp only [System.go, List.foldl_append, List.foldl_cons, List.foldl_nil, ← h.recent,
          hstored]
      · intro c hc
        rcases List.mem_append.mp hc with hc | hc
        · exact h.valid c hc
        · rw [List.mem_singleton.mp hc]
          exact hvalid
      · rw [System.go, List.map_append, List.nodup_append]
        refine ⟨h.once, List.nodup_singleton _, fun a ha b hb hab => ?_⟩
        rw [hab, List.mem_singleton.mp hb] at ha
        exact hnew ha
  | @release committed phase =>
      have hserver : (system.server.release run).recent = system.server.recent ∧
          ∀ other, (system.server.release run).lock = some other →
            system.server.lock = some other := by
        rw [Server.release]
        by_cases hlock : system.server.lock = some run
        · rw [if_pos hlock]
          exact ⟨rfl, nofun⟩
        · rw [if_neg hlock]
          exact ⟨rfl, fun _ => id⟩
      have hcommitted := hrun.committed
      rw [phase] at hcommitted
      refine ⟨go_forall ⟨nofun, nofun, hcommitted⟩ fun other _ => ?_, hserver.1.trans h.recent,
        h.valid, h.once⟩
      have hknows := h.knows other
      refine ⟨fun active stored hread hlock => ?_, hknows.asked, hknows.committed⟩
      exact (hknows.read active stored hread (hserver.2 other hlock)).trans hserver.1.symm

/-! ### The maps -/

/-- The threads recorded for a client, the last one first. -/
def recency (job : τ → Job) (commits : List (Commit τ)) (key : String) : List RecentThread :=
  commits.foldl (fun threads c =>
    if recentClientKey (job c.run).client = key then
      (job c.run).thread :: threads.filter (· ≠ (job c.run).thread)
    else threads) []

structure Bounded (job : τ → Job) (commits : List (Commit τ)) (histories : RecentThreads) :
    Prop where
  clients : histories.size ≤ 32
  threads : ∀ key row, histories[key]? = some row →
    row.2.length ≤ 10 ∧ row.2 <+: recency job commits key

end Runs

section Maps

variable {histories : RecentThreads} {key : String} {row : ThreadClient × List RecentThread}

theorem getElem?_popFirst (h : (popFirst histories)[key]? = some row) :
    histories[key]? = some row := by
  rw [popFirst] at h
  cases hmin : histories.minKey? with
  | none =>
      rw [hmin] at h
      exact h
  | some first =>
      rw [hmin] at h
      simp only [ExtTreeMap.getElem?_erase] at h
      by_cases hfirst : compare first key = .eq
      · rw [if_pos hfirst] at h
        cases h
      · rw [if_neg hfirst] at h
        exact h

theorem size_popFirst (histories : RecentThreads) :
    (popFirst histories).size = histories.size - 1 := by
  rw [popFirst]
  cases hmin : histories.minKey? with
  | none =>
      rw [ExtTreeMap.minKey?_eq_none_iff] at hmin
      subst hmin
      rfl
  | some first =>
      have hmem : first ∈ histories := ExtTreeMap.minKey?_mem hmin
      simp only [ExtTreeMap.size_erase, ExtTreeMap.contains_iff_mem.mpr hmem, if_true]

theorem size_popFirst_iterate (n : Nat) (histories : RecentThreads) :
    (popFirst^[n] histories).size = histories.size - n := by
  induction n generalizing histories with
  | zero => rfl
  | succ n ih =>
      rw [Function.iterate_succ_apply, ih, size_popFirst]
      omega

theorem getElem?_popFirst_iterate {n : Nat} (h : (popFirst^[n] histories)[key]? = some row) :
    histories[key]? = some row := by
  induction n generalizing histories with
  | zero => exact h
  | succ n ih =>
      rw [Function.iterate_succ_apply] at h
      exact getElem?_popFirst (ih h)

end Maps

section Bounds

variable {τ : Type} {job : τ → Job} {commits : List (Commit τ)} {histories : RecentThreads}
  {key : String}

theorem recency_append (c : Commit τ) :
    recency job (commits ++ [c]) key =
      if recentClientKey (job c.run).client = key then
        (job c.run).thread :: (recency job commits key).filter (· ≠ (job c.run).thread)
      else recency job commits key := by
  rw [recency, List.foldl_append]
  rfl

theorem recency_nodup (job : τ → Job) (commits : List (Commit τ)) (key : String) :
    (recency job commits key).Nodup := by
  induction commits using List.reverseRecOn with
  | nil => exact List.nodup_nil
  | append_singleton commits c ih =>
      rw [recency_append]
      by_cases hkey : recentClientKey (job c.run).client = key
      · rw [if_pos hkey, List.nodup_cons]
        exact ⟨by simp, ih.filter _⟩
      · rw [if_neg hkey]
        exact ih

theorem recency_valid (h : ∀ c ∈ commits, (job c.run).thread.valid = true) :
    ∀ thread ∈ recency job commits key, thread.valid = true := by
  induction commits using List.reverseRecOn with
  | nil => exact nofun
  | append_singleton commits c ih =>
      have hbefore := ih fun c hc => h c (List.mem_append_left _ hc)
      rw [recency_append]
      by_cases hkey : recentClientKey (job c.run).client = key
      · rw [if_pos hkey, List.forall_mem_cons]
        refine ⟨h c (by simp), fun thread hthread => hbefore thread (List.mem_filter.mp hthread).1⟩
      · rw [if_neg hkey]
        exact hbefore

theorem Bounded.empty (job : τ → Job) (commits : List (Commit τ)) : Bounded job commits ∅ :=
  ⟨by simp, by simp⟩

/-- What is read is what was stored, but for the clients that are gone. -/
theorem Bounded.read {stored : Option RecentThreads} (active : List (List String))
    (hvalid : ∀ c ∈ commits, (job c.run).thread.valid = true)
    (h : ∀ histories, stored = some histories → Bounded job commits histories) :
    Bounded job commits (boundedRecentThreads stored active) := by
  have hread : Bounded job commits ((stored.filter fun histories =>
      decide (histories.toText.utf8ByteSize + 1 ≤ 128 * 1024)).getD ∅) := by
    cases hfilter : stored.filter _ with
    | none => exact .empty job commits
    | some histories => exact h histories (Option.filter_eq_some_iff.mp hfilter).1
  rw [boundedRecentThreads]
  generalize (stored.filter _).getD ∅ = histories at hread
  refine ⟨?_, fun key row hrow => ?_⟩
  · rw [size_popFirst_iterate]
    omega
  · have hrow := getElem?_popFirst_iterate hrow
    rw [ExtTreeMap.getElem?_filterMap', Option.bind_eq_some_iff] at hrow
    obtain ⟨before, hbefore, hrow⟩ := hrow
    obtain ⟨hlength, hstart⟩ := hread.threads key before hbefore
    have hall : before.2.filter RecentThread.valid = before.2 :=
      List.filter_eq_self.mpr fun thread hthread =>
        recency_valid hvalid thread (hstart.subset hthread)
    obtain ⟨-, hsame⟩ := Option.ite_none_right_eq_some.mp hrow
    cases hsame
    rw [hall]
    exact ⟨List.length_take_le .., (List.take_prefix ..).trans hstart⟩

theorem Bounded.popFirst (h : Bounded job commits histories) :
    Bounded job commits (popFirst histories) := by
  refine ⟨?_, fun key row hrow => h.threads key row (getElem?_popFirst hrow)⟩
  have hsize := h.clients
  rw [size_popFirst]
  omega

theorem Bounded.recorded {c : Commit τ} (h : Bounded job commits histories) :
    Bounded job (commits ++ [c]) (recorded (job c.run).client (job c.run).thread histories) := by
  rw [Tmux.recorded]
  generalize hkey : recentClientKey (job c.run).client = key
  generalize hpopped : (if (!histories.contains key && decide (32 ≤ histories.size)) = true then
    Tmux.popFirst histories else histories) = popped
  have hbounded : Bounded job commits popped ∧ (popped.contains key = true ∨ popped.size < 32) := by
    subst hpopped
    by_cases hfull : (!histories.contains key && decide (32 ≤ histories.size)) = true
    · rw [if_pos hfull]
      refine ⟨h.popFirst, .inr ?_⟩
      have hsize := h.clients
      rw [size_popFirst]
      omega
    · rw [if_neg hfull]
      refine ⟨h, ?_⟩
      simpa [imp_iff_not_or] using hfull
  obtain ⟨hbounded, hroom⟩ := hbounded
  refine ⟨?_, fun key' row hrow => ?_⟩
  · rw [ExtTreeMap.size_insert]
    have hsize := hbounded.clients
    rcases hroom with hthere | hroom
    · rw [if_pos hthere]
      exact hsize
    · split_ifs <;> omega
  · rw [ExtTreeMap.getElem?_insert] at hrow
    rw [recency_append, hkey]
    by_cases hsame : key = key'
    · subst hsame
      rw [if_pos rfl]
      rw [if_pos compare_self] at hrow
      cases hrow
      refine ⟨List.length_take_le .., (List.take_prefix ..).trans ?_⟩
      -- what was there of this client is the first part of what was recorded
      have hhistory : (popped[key]?.map Prod.snd).getD [] <+: recency job commits key := by
        cases hrow : popped[key]? with
        | none => exact List.nil_prefix
        | some row => exact (hbounded.threads key row hrow).2
      exact (List.prefix_cons_inj _).mpr (hhistory.filter _)
    · rw [if_neg hsame]
      rw [if_neg fun heq => hsame (LawfulEqCmp.eq_of_compare heq)] at hrow
      exact hbounded.threads key' row hrow

/-- The map of a commit, after the ones before it. -/
theorem bounded_foldl (hvalid : ∀ c ∈ commits, (job c.run).thread.valid = true) :
    ∀ histories, commits.foldl (Commit.apply job) none = some histories →
      Bounded job commits histories := by
  induction commits using List.reverseRecOn with
  | nil => exact nofun
  | append_singleton commits c ih =>
      intro histories hcommitted
      have hbefore := fun c hc => hvalid c (List.mem_append_left _ hc)
      rw [List.foldl_append, List.foldl_cons, List.foldl_nil] at hcommitted
      cases hcommitted
      exact (Bounded.read c.active hbefore (ih hbefore)).recorded

end Bounds

/-! ### A lease that was lost -/

section Whole

variable {τ : Type} [DecidableEq τ] {job : τ → Job} {run other : τ} {system next : System τ}

/-- The run had been given a lease, or had given up. -/
def Phase.past : Phase → Bool
  | .idle | .acquiring _ => false
  | _ => true

structure Lost (run : τ) (system : System τ) : Prop where
  past : (system.phase run).past = true
  lock : system.server.lock ≠ some run

theorem Lost.unchanged (h : Lost run system) (hstep : StepCase job run system next) :
    next.server = system.server ∧ next.commits = system.commits := by
  have hpast := h.past
  cases hstep with
  | stay => exact ⟨rfl, rfl⟩
  | start now phase valid =>
      rw [phase] at hpast
      cases hpast
  | refused phase committed => exact ⟨rfl, rfl⟩
  | acquire phase =>
      rw [phase] at hpast
      cases hpast
  | list phase => exact ⟨rfl, rfl⟩
  | read phase => exact ⟨rfl, rfl⟩
  | failed phase committed => exact ⟨rfl, rfl⟩
  | commit phase lock => exact absurd lock h.lock
  | release phase => exact ⟨if_neg h.lock, rfl⟩

theorem Lost.step (h : Lost run system) (hstep : StepCase job other system next) :
    Lost run next := by
  by_cases hsame : run = other
  · -- no step of the run itself takes the lease again
    subst hsame
    have hserver := (h.unchanged hstep).1
    have hpast := h.past
    refine ⟨?_, by rw [hserver]; exact h.lock⟩
    cases hstep with
    | stay => exact hpast
    | start now phase valid =>
        rw [phase] at hpast
        cases hpast
    | acquire phase =>
        rw [phase] at hpast
        cases hpast
    | _ => rw [go_self]; rfl
  · have hphase : next.phase run = system.phase run := by
      cases hstep with
      | stay => rfl
      | _ => exact go_other _ hsame
    refine ⟨by rw [hphase]; exact h.past, fun hlock => ?_⟩
    cases hstep with
    | acquire phase => exact hsame (Option.some.inj hlock).symm
    | release phase =>
        have hreleased : (system.server.release other).lock = some run := hlock
        rw [Server.release] at hreleased
        split_ifs at hreleased
        exact h.lock hreleased
    | _ => exact h.lock hlock

/-! ### Whole runs -/

abbrev Made (τ : Type) := Entry (System τ) (τ × Move) Unit

variable {entries : List (Made τ)}

theorem fenced (h : History (perform job) NoDrift {} entries system) : Fenced job system := by
  refine h.invariant (Fenced job) ⟨fun run => ⟨nofun, nofun, ?_⟩, rfl, nofun, List.nodup_nil⟩
    (fun call system hsystem => hsystem.step (step_case call.1 call.2 system))
    (NoDrift.keeps (Fenced job))
  simp [Phase.committed]

/-- The successful runs, one after another. -/
structure Serial (job : τ → Job) (system : System τ) : Prop where
  recent : system.server.recent = system.commits.foldl (Commit.apply job) none
  once : (system.commits.map Commit.run).Nodup
  succeeded : ∀ run, system.phase run = .done true → run ∈ system.commits.map Commit.run
  failed : ∀ run, system.phase run = .done false → run ∉ system.commits.map Commit.run
  bounded : ∀ pre post histories, system.commits = pre ++ post →
    pre.foldl (Commit.apply job) none = some histories → Bounded job pre histories
  distinct : ∀ pre post (histories : RecentThreads), system.commits = pre ++ post →
    pre.foldl (Commit.apply job) none = some histories →
      ∀ (key : String) (row : ThreadClient × List RecentThread), histories[key]? = some row →
        row.2.Nodup

omit [DecidableEq τ] in
theorem Fenced.serial (h : Fenced job system) : Serial job system := by
  have hbounded : ∀ pre post histories, system.commits = pre ++ post →
      pre.foldl (Commit.apply job) none = some histories → Bounded job pre histories := by
    intro pre post histories hcommits
    refine bounded_foldl (fun c hc => h.valid c ?_) histories
    rw [hcommits]
    exact List.mem_append_left _ hc
  refine ⟨h.recent, h.once, fun run hdone => ?_, fun run hdone => ?_, hbounded, ?_⟩
  · rw [← (h.knows run).committed, hdone]
    rfl
  · rw [← (h.knows run).committed, hdone]
    exact Bool.false_ne_true
  · intro pre post histories hcommits hfold key row hrow
    have hstart := ((hbounded pre post histories hcommits hfold).threads key row hrow).2
    exact hstart.sublist.nodup (recency_nodup job pre key)

/-- In any interleaving of runs: what is stored is what the runs that committed make of it one after
another, each of them once; a run that lost its lease changes nothing from then on; and every
committed map has at most 32 clients, each with at most the last ten of its threads. -/
theorem recent_threads (h : History (perform job) NoDrift {} entries system) :
    Serial job system ∧
      ∀ pre e post, entries = pre ++ e :: post → ∀ run, Lost run e.before →
        ∀ later ∈ e :: post, later.call.1 = run →
          (perform job later.call later.before).2.server = later.before.server ∧
            (perform job later.call later.before).2.commits = later.before.commits := by
  refine ⟨(fenced h).serial, fun pre e post hentries run hlost later hlater hrun => ?_⟩
  subst hentries
  have hpersists : Lost run later.before := by
    rcases List.mem_cons.mp hlater with rfl | hlater
    · exact hlost
    · obtain ⟨-, -, hpost⟩ := h.split
      obtain ⟨mid, rest, rfl⟩ := List.append_of_mem hlater
      obtain ⟨hmid, -, -⟩ := hpost.split
      refine hmid.invariant (Lost run) (hlost.step (step_case e.call.1 e.call.2 e.before))
        (fun call system hsystem => hsystem.step (step_case call.1 call.2 system))
        (NoDrift.keeps (Lost run))
  subst hrun
  exact hpersists.unchanged (step_case later.call.1 later.call.2 later.before)

/-- A run whose lease is taken by another, which records its thread first. -/
def takenOver : List (Bool × Move) :=
  let active := [["/dev/pts/1", "10", "%1", "", "1700000000"]]
  [(true, .start 1700000000), (true, .acquire), (true, .list active), (true, .read),
    (false, .start 1700000030), (false, .acquire), (false, .list active), (false, .read),
    (false, .commit false), (true, .commit false), (true, .release), (false, .release)]

def takenOverJob (run : Bool) : Job where
  client := ⟨"/dev/pts/1", 10, 1700000000⟩
  thread := ⟨none, .opencode, if run then "ses_first" else "ses_second"⟩

theorem takenOver_history :
    History (perform takenOverJob) NoDrift ({} : System Bool)
      (replay (perform takenOverJob) {} takenOver).1
      (replay (perform takenOverJob) {} takenOver).2 :=
  History.replay _ _

theorem recent_threads_takenOver :
    Serial takenOverJob (replay (perform takenOverJob) {} takenOver).2 :=
  (recent_threads takenOver_history).1

end Whole

end Pikamux.Tmux
