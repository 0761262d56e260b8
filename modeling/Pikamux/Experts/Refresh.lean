import Mathlib.Data.List.Nodup
import Pikamux.Experts.Store

/-!
# Experts — Refresh

The upkeep of cards by any number of processes.  A scheduled run claims a missing card before it
interviews the conversation; explicit refreshes, publications and updates of the current work store
cards as well, and between what such a writer has read and what it stores others may store theirs.

* `decideDue` — what a scheduled run may do with a provider's cards.
* `Step` — one transaction or call of a process.
* `Inv` — claims, runs and their interviews, over all processes.
* `interviews_claimed` — what holds of the interviews of every run, and when no newer card is
  replaced; `published_card_replaced` is a run in which one is.
-/

namespace Pikamux.Experts

/-! ### Sessions and quotas -/

structure Session where
  provider : Provider
  sessionId : String
  live : Bool
  lastActivityAt : ℚ

def Session.key (session : Session) : Key := (session.provider, session.sessionId)

/-- `TranscriptFingerprint` -/
structure Fingerprint where
  checkpoint : Int
  size : Int

inductive CardStatus where
  | current
  | stale
  | missing
  | unknown
  deriving DecidableEq

/-- `card_state`, of a transcript with this fingerprint. -/
def cardState (fingerprint : Option Fingerprint) (profile : Option Stored) : CardStatus × String :=
  match profile, fingerprint with
  | none, none => (.unknown, "durable transcript unavailable")
  | none, some _ => (.missing, "not interviewed yet")
  | some _, none => (.unknown, "durable transcript unavailable")
  | some stored, some fingerprint =>
      if stored.profile.currentState = "" then
        (.stale, "legacy card lacks a current-state snapshot")
      else if stored.transcriptMtimeNs = some fingerprint.checkpoint &&
          stored.transcriptSize = some fingerprint.size then (.current, "matches transcript")
      else (.stale, "conversation changed")

/-- `QuotaSnapshot`; a percentage that is no finite number is none. -/
structure Quota where
  provider : Provider
  usedPercent : Option ℚ
  resetAt : Int
  observedAt : ℚ

def observationMaxAgeSeconds : ℚ := 30 * 60
def refreshWindowSeconds : ℚ := 6 * 60 * 60
def quotaReservePercent : ℚ := 10

namespace Quota

/-- `remaining_percent` -/
def remainingPercent (quota : Quota) : ℚ := quota.usedPercent.elim 0 fun used => max (100 - used) 0

/-- `is_fresh_for` -/
def isFreshFor (provider : Provider) (at_ : ℚ) (quota : Quota) : Bool :=
  quota.provider = provider && quota.usedPercent.any (fun used => 0 ≤ used && used ≤ 100) &&
    quota.observedAt ≤ at_ + 60 && at_ - quota.observedAt ≤ observationMaxAgeSeconds

def secondsLeft (at_ : ℚ) (quota : Quota) : ℚ := quota.resetAt - at_

end Quota

/-! ### Scheduled runs -/

/-- `ExpertRefreshResult` -/
structure Result where
  provider : Provider
  status : String
  detail : String
  sessionId : Option String
  quota : Option Quota

/-- A run of `refresh_due`, at one provider. -/
structure Due where
  run : Nat
  at_ : ℚ
  sessions : List Session
  provider : Provider
  /-- The providers after this one. -/
  rest : List Provider
  output : List Result

namespace Due

def result (status detail : String) (quota : Option Quota) (d : Due) : Due :=
  { d with output := d.output ++ [⟨d.provider, status, detail, none, quota⟩] }

def sessionResult (session : Session) (status detail : String) (quota : Option Quota) (d : Due) :
    Due :=
  { d with output :=
      d.output ++ [⟨d.provider, status, detail, some session.sessionId, quota⟩] }

end Due

/-- The order in which missing cards are taken. -/
def takenBefore (left right : Session) : Bool :=
  if left.live ≠ right.live then left.live
  else if left.lastActivityAt ≠ right.lastActivityAt then right.lastActivityAt < left.lastActivityAt
  else left.sessionId ≤ right.sessionId

/-- The missing cards whose conversation can be interviewed, and the results of the others;
`available` is `require_available`. -/
def pendingCards (available : Session → Except String Unit) :
    List (Session × CardStatus × String) → Due → List Session × Due
  | [], d => ([], d)
  | (session, status, _) :: states, d =>
      if status ≠ .missing then pendingCards available states d
      else
        match available session with
        | .ok () =>
            let (pending, d) := pendingCards available states d
            (session :: pending, d)
        | .error error =>
            pendingCards available states (d.sessionResult session "UNAVAILABLE" error none)

/-- The part of `refresh_due` between the cards of a provider and the attempts: a quota and the
missing cards in their order, or nothing to do. -/
def decideDue (available : Session → Except String Unit)
    (snapshot : Except String (Option Quota)) (states : List (Session × CardStatus × String))
    (d : Due) : Due × Option (Quota × List Session) :=
  let (pending, after) := pendingCards available states d
  if pending.isEmpty then
    -- a result for a conversation that cannot be interviewed
    if after.output.length ≠ d.output.length then (after, none)
    else
      let unknown := states.any fun state => state.2.1 = .unknown
      let stale := states.any fun state => state.2.1 = .stale
      (after.result (if unknown then "UNKNOWN" else if stale then "PUBLISHED" else "CURRENT")
        (if unknown then "one or more cards lack a durable transcript"
          else "no missing cards; existing expertise retained without an interview") none, none)
  else
    let unavailable := (after.result "UNKNOWN"
      "fresh weekly quota telemetry unavailable; no model call made" none, none)
    match snapshot with
    | .error _ => unavailable
    | .ok none => unavailable
    | .ok (some quota) =>
        if !quota.isFreshFor d.provider d.at_ then unavailable
        else if refreshWindowSeconds < quota.secondsLeft d.at_ then
          (after.result "WAITING" "outside final 6h before weekly reset" (some quota), none)
        else if quota.secondsLeft d.at_ ≤ 0 then
          (after.result "UNKNOWN" "weekly quota observation has expired; no model call made" none,
            none)
        else if quota.remainingPercent ≤ quotaReservePercent then
          (after.result "DEFERRED" "10% weekly reserve protected; skipped this reset cycle"
            (some quota), none)
        else (after, some (quota, pending.mergeSort takenBefore))

/-- A quota that permits an interview. -/
def Permits (quota : Quota) (provider : Provider) (at_ : ℚ) : Prop :=
  quota.isFreshFor provider at_ = true ∧ 0 < quota.secondsLeft at_ ∧
    quota.secondsLeft at_ ≤ refreshWindowSeconds ∧ quotaReservePercent < quota.remainingPercent

theorem of_eq_none {α : Type} {o : Option α} {P : α → Prop} (h : o = none) :
    ∀ a, o = some a → P a := by
  intro a ha
  rw [h] at ha
  cases ha

theorem of_eq_none₂ {α β : Type} {o : Option (α × β)} {P : α → β → Prop} (h : o = none) :
    ∀ a b, o = some (a, b) → P a b :=
  fun a b => @of_eq_none _ _ (fun pair => P pair.1 pair.2) h (a, b)

theorem pendingCards_same (available : Session → Except String Unit)
    (states : List (Session × CardStatus × String)) (d : Due) :
    ∃ output, (pendingCards available states d).2 = { d with output } := by
  induction states generalizing d with
  | nil => exact ⟨d.output, rfl⟩
  | cons state states ih =>
      obtain ⟨session, status, detail⟩ := state
      rw [pendingCards]
      split
      · exact ih d
      · cases available session with
        | ok done => exact ih d
        | error error =>
            obtain ⟨output, heq⟩ := ih (d.sessionResult session "UNAVAILABLE" error none)
            exact ⟨output, heq⟩

/-- Only a quota that permits it leads on, and the run stays at its provider. -/
theorem decideDue_permits {available : Session → Except String Unit}
    {snapshot : Except String (Option Quota)} {states : List (Session × CardStatus × String)}
    {d : Due} : (∃ output, (decideDue available snapshot states d).1 = { d with output }) ∧
    ∀ quota pending, (decideDue available snapshot states d).2 = some (quota, pending) →
      Permits quota d.provider d.at_ := by
  obtain ⟨output, hsame⟩ := pendingCards_same available states d
  have hresult : ∀ status detail quota, ∃ output,
      (pendingCards available states d).2.result status detail quota = { d with output } := by
    intro status detail quota
    rw [hsame]
    exact ⟨_, rfl⟩
  rw [decideDue]
  generalize pendingCards available states d = found at hsame hresult
  obtain ⟨pending, after⟩ := found
  simp only at hsame hresult ⊢
  split
  · split
    · exact ⟨⟨output, hsame⟩, of_eq_none₂ rfl⟩
    · exact ⟨hresult _ _ _, of_eq_none₂ rfl⟩
  · match snapshot with
    | .error error => exact ⟨hresult _ _ _, of_eq_none₂ rfl⟩
    | .ok none => exact ⟨hresult _ _ _, of_eq_none₂ rfl⟩
    | .ok (some quota) =>
        simp only
        split
        · exact ⟨hresult _ _ _, of_eq_none₂ rfl⟩
        · next hfresh =>
            split
            · exact ⟨hresult _ _ _, of_eq_none₂ rfl⟩
            · next hwindow =>
                split
                · exact ⟨hresult _ _ _, of_eq_none₂ rfl⟩
                · next hleft =>
                    split
                    · exact ⟨hresult _ _ _, of_eq_none₂ rfl⟩
                    · next hreserve =>
                        refine ⟨⟨output, hsame⟩, fun quota' pending' heq => ?_⟩
                        cases heq
                        exact ⟨by simpa using hfresh, not_le.mp hleft, not_lt.mp hwindow,
                          not_le.mp hreserve⟩

/-! ### Processes -/

/-- What an interview is for. -/
inductive Purpose where
  | explicit (rest : List Session)
  | due (d : Due) (quota : Quota)

/-- Where a process is. -/
inductive Phase where
  | idle
  /-- A scheduled run reads the cards of its provider. -/
  | cards (d : Due) (todo : List Session) (states : List (Session × CardStatus × String))
  /-- It looks for a card that was not attempted. -/
  | attempts (d : Due) (quota : Quota) (todo : List Session)
  | claim (d : Due) (quota : Quota) (session : Session)
  /-- An explicit refresh goes through its sessions. -/
  | refresh (todo : List Session)
  /-- `interview_and_store` reads the card that is there. -/
  | read (purpose : Purpose) (session : Session)
  /-- It asks the conversation. -/
  | ask (purpose : Purpose) (session : Session) (fingerprint : Fingerprint)
      (existing : Option Stored)
  /-- And waits for the answer; `begun` cards had been stored when it asked. -/
  | interview (purpose : Purpose) (session : Session) (fingerprint : Fingerprint) (begun : Nat)
  /-- A scheduled run records how its attempt has ended. -/
  | record (d : Due) (quota : Quota) (session : Session) (status detail : String)
  /-- `publish_current_work` has read a card, and changed it. -/
  | work (begun : Nat) (stored : Stored)

/-- An interview of a scheduled run. -/
structure Asked where
  run : Nat
  at_ : ℚ
  quota : Quota
  provider : Provider
  sessionId : String

def Asked.key (asked : Asked) : Key × Int :=
  ((asked.provider, asked.sessionId), asked.quota.resetAt)

inductive Kind where
  | interview
  | publication
  | work
  deriving DecidableEq

/-- A card that was stored. -/
structure Put where
  kind : Kind
  key : Key
  /-- How many cards had been stored when its writer began. -/
  begun : Nat
  offered : Content
  /-- The content in the table. -/
  before : Option Content
  after : Option Content

structure World where
  db : Db
  phases : Nat → Phase
  /-- How many scheduled runs have been started. -/
  runs : Nat
  asked : List Asked
  puts : List Put

/-- The claim of a scheduled run. -/
def attemptOf (d : Due) (quota : Quota) (session : Session) (status detail : String) : Attempt :=
  ⟨d.provider, session.sessionId, quota.resetAt, status, some detail, d.at_⟩

/-- A scheduled run goes on to its next provider, or ends. -/
def nextProvider (d : Due) : Phase :=
  match d.rest with
  | [] => .idle
  | provider :: rest =>
      let sessions := d.sessions.filter fun session => session.provider = provider
      .cards { d with provider, rest } sessions []

/-- What a process does after an interview, of which nothing was stored or a card was. -/
def afterInterview (session : Session) (failed : Option String) : Purpose → Phase
  | .explicit rest => .refresh rest
  | .due d quota =>
      match failed with
      | none => .record d quota session "REFRESHED" "exact ephemeral interview"
      | some detail => .record d quota session "FAILED" detail

/-- What `interview_and_store` and `publish` store. -/
def cardOf (profile : Profile) (fingerprint : Option Fingerprint) : Stored :=
  let checkpoint := fingerprint.map Fingerprint.checkpoint
  let size := fingerprint.map Fingerprint.size
  ⟨profile, checkpoint, size, checkpoint, size⟩

/-- What `publish_current_work` stores. -/
def reworked (stored : Stored) (fingerprint : Option Fingerprint) : Stored :=
  { stored with
    transcriptMtimeNs := fingerprint.map Fingerprint.checkpoint
    transcriptSize := fingerprint.map Fingerprint.size }

namespace World

def set (i : Nat) (phase : Phase) (w : World) : World :=
  { w with phases := Function.update w.phases i phase }

/-- A card was stored. -/
def stored (kind : Kind) (begun : Nat) (card : Stored) (db : Db) (w : World) : World :=
  { w with
    db
    puts := w.puts ++ [⟨kind, card.profile.key, begun, card.content,
      w.db.content card.profile.key, db.content card.profile.key⟩] }

end World

/-- One transaction or call of a process `i`. -/
inductive Step (clean : String → Except String String) (w : World) : World → Prop where
  /-- Sessions are tracked and forgotten. -/
  | track (tracked : Key → Bool) : Step clean w { w with db := { w.db with tracked } }
  /-- The process ends, or an operation that it does not handle fails. -/
  | fail (i : Nat) : Step clean w (w.set i .idle)
  /-- `refresh_due` -/
  | due (i : Nat) (idle : w.phases i = .idle) (at_ : ℚ) (sessions : List Session)
      (provider first : Provider) (rest : List Provider)
      (all : first :: rest = [provider] ∨ first :: rest = [.codex, .claude, .opencode, .muse]) :
      Step clean w (World.set i
        (nextProvider ⟨w.runs, at_, sessions, provider, first :: rest, []⟩)
        { w with runs := w.runs + 1 })
  | card (i : Nat) (d : Due) (session : Session) (todo : List Session)
      (states : List (Session × CardStatus × String))
      (cards : w.phases i = .cards d (session :: todo) states) (fingerprint : Option Fingerprint) :
      Step clean w (w.set i (.cards d todo (states ++
        [(session, cardState fingerprint (w.db.profiles (d.provider, session.sessionId)))])))
  | nothing (i : Nat) (d after : Due) (states : List (Session × CardStatus × String))
      (cards : w.phases i = .cards d [] states) (available : Session → Except String Unit)
      (snapshot : Except String (Option Quota))
      (decided : decideDue available snapshot states d = (after, none)) :
      Step clean w (w.set i (nextProvider after))
  | choose (i : Nat) (d after : Due) (states : List (Session × CardStatus × String))
      (cards : w.phases i = .cards d [] states) (available : Session → Except String Unit)
      (snapshot : Except String (Option Quota)) (quota : Quota) (pending : List Session)
      (decided : decideDue available snapshot states d = (after, some (quota, pending))) :
      Step clean w (w.set i (.attempts after quota pending))
  | attempted (i : Nat) (d : Due) (quota : Quota) (session : Session) (todo : List Session)
      (attempts : w.phases i = .attempts d quota (session :: todo))
      (row : (w.db.attempts ((d.provider, session.sessionId), quota.resetAt)).isSome) :
      Step clean w (w.set i (.attempts d quota todo))
  | select (i : Nat) (d : Due) (quota : Quota) (session : Session) (todo : List Session)
      (attempts : w.phases i = .attempts d quota (session :: todo))
      (row : w.db.attempts ((d.provider, session.sessionId), quota.resetAt) = none) :
      Step clean w (w.set i (.claim d quota session))
  | allAttempted (i : Nat) (d : Due) (quota : Quota)
      (attempts : w.phases i = .attempts d quota []) :
      Step clean w (w.set i (nextProvider (d.result "DEFERRED"
        "missing cards already attempted in this reset cycle" (some quota))))
  | claimed (i : Nat) (d : Due) (quota : Quota) (session : Session)
      (claim : w.phases i = .claim d quota session) (now : ℚ) (db : Db)
      (inserted : claimExpertRefreshAttempt now
        (attemptOf d quota session "STARTED" "claimed before provider call") w.db = (true, db)) :
      Step clean w (World.set i (.read (.due d quota) session) { w with db })
  | taken (i : Nat) (d : Due) (quota : Quota) (session : Session)
      (claim : w.phases i = .claim d quota session) (now : ℚ) (db : Db)
      (ignored : claimExpertRefreshAttempt now
        (attemptOf d quota session "STARTED" "claimed before provider call") w.db = (false, db)) :
      Step clean w (World.set i (nextProvider (d.result "DEFERRED"
        "missing card was claimed by another refresher in this reset cycle" (some quota)))
        { w with db })
  | unclaimed (i : Nat) (d : Due) (quota : Quota) (session : Session)
      (claim : w.phases i = .claim d quota session) (error : String) :
      Step clean w (w.set i (nextProvider (d.sessionResult session "FAILED"
        ("could not claim refresh before provider call: " ++ error) (some quota))))
  /-- `refresh_one` and `refresh_all` -/
  | explicit (i : Nat) (idle : w.phases i = .idle) (sessions : List Session) :
      Step clean w (w.set i (.refresh sessions))
  | skip (i : Nat) (session : Session) (todo : List Session)
      (refresh : w.phases i = .refresh (session :: todo)) : Step clean w (w.set i (.refresh todo))
  | renew (i : Nat) (session : Session) (todo : List Session)
      (refresh : w.phases i = .refresh (session :: todo)) (fingerprint : Option Fingerprint)
      (old : (cardState fingerprint (w.db.profiles session.key)).1 = .missing ∨
        (cardState fingerprint (w.db.profiles session.key)).1 = .stale) :
      Step clean w (w.set i (.read (.explicit todo) session))
  | unread (i : Nat) (purpose : Purpose) (session : Session)
      (read : w.phases i = .read purpose session) (error : String) :
      Step clean w (w.set i (afterInterview session (some error) purpose))
  | read (i : Nat) (purpose : Purpose) (session : Session)
      (read : w.phases i = .read purpose session) (fingerprint : Fingerprint) :
      Step clean w (w.set i (.ask purpose session fingerprint (w.db.profiles session.key)))
  /-- The interview is started. -/
  | ask (i : Nat) (rest : List Session) (session : Session) (fingerprint : Fingerprint)
      (existing : Option Stored)
      (ask : w.phases i = .ask (.explicit rest) session fingerprint existing) :
      Step clean w (w.set i (.interview (.explicit rest) session fingerprint w.puts.length))
  | askDue (i : Nat) (d : Due) (quota : Quota) (session : Session) (fingerprint : Fingerprint)
      (existing : Option Stored)
      (ask : w.phases i = .ask (.due d quota) session fingerprint existing) :
      Step clean w (World.set i (.interview (.due d quota) session fingerprint w.puts.length)
        { w with asked := w.asked ++ [⟨d.run, d.at_, quota, d.provider, session.sessionId⟩] })
  /-- No answer, none that is a card, or one that is not stored. -/
  | unanswered (i : Nat) (purpose : Purpose) (session : Session) (fingerprint : Fingerprint)
      (begun : Nat) (interview : w.phases i = .interview purpose session fingerprint begun)
      (error : String) : Step clean w (w.set i (afterInterview session (some error) purpose))
  | answered (i : Nat) (purpose : Purpose) (session : Session) (fingerprint : Fingerprint)
      (begun : Nat) (interview : w.phases i = .interview purpose session fingerprint begun)
      (profile : Profile) (own : profile.key = session.key) (source : profile.source = "interview")
      (topics : 3 ≤ profile.topics.length ∧ profile.topics.length ≤ 8) (now : ℚ) (result : Stored)
      (db : Db)
      (put : putExpertProfile now (cardOf profile fingerprint) w.db = .ok (result, db)) :
      Step clean w ((w.stored .interview begun (cardOf profile fingerprint) db).set i
        (afterInterview session none purpose))
  | record (i : Nat) (d : Due) (quota : Quota) (session : Session) (status detail : String)
      (record : w.phases i = .record d quota session status detail) (now : ℚ) :
      Step clean w (World.set i
        (nextProvider (d.sessionResult session status detail (some quota)))
        { w with
          db := putExpertRefreshAttempt now (attemptOf d quota session status detail) w.db })
  /-- `publish` -/
  | publish (profile : Profile) (fingerprint : Option Fingerprint) (now : ℚ) (result : Stored)
      (db : Db)
      (put : putExpertProfile now (cardOf profile fingerprint) w.db = .ok (result, db)) :
      Step clean w (w.stored .publication w.puts.length (cardOf profile fingerprint) db)
  /-- `publish_current_work` has read the card. -/
  | work (i : Nat) (idle : w.phases i = .idle) (session : Session) (currentState text : String)
      (cleaned : clean currentState = .ok text) (existing : Stored)
      (card : w.db.profiles session.key = some existing)
      (other : existing.profile.currentState ≠ text) (now : ℚ) :
      Step clean w (w.set i (.work w.puts.length { existing with
        profile := { existing.profile with currentState := text, updatedAt := now } }))
  | worked (i : Nat) (begun : Nat) (stored : Stored) (work : w.phases i = .work begun stored)
      (fingerprint : Option Fingerprint) (now : ℚ) (result : Stored) (db : Db)
      (put : putExpertProfile now (reworked stored fingerprint) w.db = .ok (result, db)) :
      Step clean w ((w.stored .work begun (reworked stored fingerprint) db).set i .idle)

/-- What the processes can reach from a database with these tables. -/
inductive Reachable (clean : String → Except String String) (db : Db) : World → Prop where
  | start : Reachable clean db ⟨db, fun _ => .idle, 0, [], []⟩
  | step (w after : World) (reached : Reachable clean db w) (step : Step clean w after) :
      Reachable clean db after

/-! ### Claims and runs -/

namespace Phase

/-- The scheduled run of a process. -/
def run : Phase → Option Nat
  | .cards d _ _ => some d.run
  | .attempts d _ _ => some d.run
  | .claim d _ _ => some d.run
  | .read (.due d _) _ => some d.run
  | .ask (.due d _) _ _ _ => some d.run
  | .interview (.due d _) _ _ _ => some d.run
  | .record d _ _ _ _ => some d.run
  | _ => none

/-- The providers whose conversations it may still interview. -/
def ahead : Phase → List Provider
  | .cards d _ _ => d.provider :: d.rest
  | .attempts d _ _ => d.provider :: d.rest
  | .claim d _ _ => d.provider :: d.rest
  | .read (.due d _) _ => d.provider :: d.rest
  | .ask (.due d _) _ _ _ => d.provider :: d.rest
  | .interview (.due d _) _ _ _ => d.rest
  | .record d _ _ _ _ => d.rest
  | _ => []

/-- What it has claimed and not asked yet. -/
def token : Phase → Option (Key × Int)
  | .read (.due d quota) session => some ((d.provider, session.sessionId), quota.resetAt)
  | .ask (.due d quota) session _ _ => some ((d.provider, session.sessionId), quota.resetAt)
  | _ => none

/-- The quota under which it will ask. -/
def quota : Phase → Option (Due × Quota)
  | .attempts d quota _ => some (d, quota)
  | .claim d quota _ => some (d, quota)
  | .read (.due d quota) _ => some (d, quota)
  | .ask (.due d quota) _ _ _ => some (d, quota)
  | _ => none

end Phase

/-- Claims, runs and interviews. -/
structure Inv (w : World) : Prop where
  run_lt : ∀ i r, (w.phases i).run = some r → r < w.runs
  run_own : ∀ i j r, (w.phases i).run = some r → (w.phases j).run = some r → i = j
  ahead_nodup : ∀ i, (w.phases i).ahead.Nodup
  ahead_free : ∀ i r, (w.phases i).run = some r → ∀ a ∈ w.asked, a.run = r →
    a.provider ∉ (w.phases i).ahead
  token_own : ∀ i j k, (w.phases i).token = some k → (w.phases j).token = some k → i = j
  token_row : ∀ i k, (w.phases i).token = some k →
    (w.db.attempts k).isSome ∧ ∀ a ∈ w.asked, a.key ≠ k
  permits : ∀ i d quota, (w.phases i).quota = some (d, quota) → Permits quota d.provider d.at_
  asked_lt : ∀ a ∈ w.asked, a.run < w.runs
  asked_row : ∀ a ∈ w.asked, (w.db.attempts a.key).isSome
  asked_permits : ∀ a ∈ w.asked, Permits a.quota a.provider a.at_
  asked_keys : (w.asked.map Asked.key).Nodup
  asked_runs : (w.asked.map fun a => (a.run, a.provider)).Nodup
  puts : ∀ put ∈ w.puts, put.after = some put.offered

/-- A process goes on in its run; what it has claimed is new in the table, or was claimed before. -/
structure Follows (before after : Db) (old new : Phase) : Prop where
  run : ∀ r, new.run = some r → old.run = some r
  ahead : new.ahead.Sublist old.ahead
  token : ∀ k, new.token = some k →
    old.token = some k ∨ before.attempts k = none ∧ (after.attempts k).isSome
  quota : ∀ d quota, new.quota = some (d, quota) → Permits quota d.provider d.at_

section Steps

variable {w : World} {i : Nat} {phase old : Phase} {d : Due} {quota : Quota} {session : Session}
  {before after : Db}

/-- A process that has no run. -/
theorem Follows.outside (hrun : phase.run = none) (hahead : phase.ahead = [])
    (htoken : phase.token = none) (hquota : phase.quota = none) :
    Follows before after old phase := by
  refine ⟨of_eq_none hrun, ?_, of_eq_none htoken, of_eq_none₂ hquota⟩
  rw [hahead]
  exact List.nil_sublist _

theorem Follows.idle : Follows before after old .idle := .outside rfl rfl rfl rfl

/-- A process that has neither claimed nor chosen anything. -/
theorem Follows.free (hrun : ∀ r, phase.run = some r → old.run = some r)
    (hahead : phase.ahead.Sublist old.ahead) (htoken : phase.token = none)
    (hquota : phase.quota = none) : Follows before after old phase :=
  ⟨hrun, hahead, of_eq_none htoken, of_eq_none₂ hquota⟩

theorem Follows.next (hrun : old.run = some d.run) (hahead : d.rest.Sublist old.ahead) :
    Follows before after old (nextProvider d) := by
  rw [nextProvider]
  match hrest : d.rest with
  | [] => exact .idle
  | provider :: rest =>
      rw [hrest] at hahead
      exact .free (fun r hr => hrun.trans hr) hahead rfl rfl

theorem Follows.afterInterview {purpose : Purpose} {failed : Option String}
    (hdue : ∀ d quota, purpose = .due d quota →
      old.run = some d.run ∧ d.rest.Sublist old.ahead) :
    Follows before after old (afterInterview session failed purpose) := by
  cases purpose with
  | explicit rest => exact .outside rfl rfl rfl rfl
  | due d quota =>
      obtain ⟨hrun, hahead⟩ := hdue d quota rfl
      cases failed with
      | none => exact .free (fun r hr => hrun.trans hr) hahead rfl rfl
      | some detail => exact .free (fun r hr => hrun.trans hr) hahead rfl rfl

/-- A property of the phases after one of them was changed. -/
theorem update_cases {P : Nat → Phase → Prop} {phases : Nat → Phase} (i : Nat) (phase : Phase)
    (hnew : P i phase) (hold : ∀ j, j ≠ i → P j (phases j)) (j : Nat) :
    P j (Function.update phases i phase j) := by
  by_cases heq : j = i
  · rw [heq, Function.update_self]
    exact hnew
  · rw [Function.update_of_ne heq]
    exact hold j heq

theorem Inv.move (h : Inv w) (db : Db) (hfollows : Follows w.db db (w.phases i) phase)
    (puts : List Put) (hattempts : ∀ k, (w.db.attempts k).isSome → (db.attempts k).isSome)
    (hputs : ∀ put ∈ puts, put.after = some put.offered) :
    Inv { w with db, puts, phases := Function.update w.phases i phase } := by
  have hrun : ∀ j r, (Function.update w.phases i phase j).run = some r →
      (w.phases j).run = some r := by
    intro j
    exact update_cases (P := fun j phase => ∀ r, phase.run = some r → (w.phases j).run = some r)
      i phase hfollows.run (fun _ _ _ hr => hr) j
  have hahead : ∀ j, (Function.update w.phases i phase j).ahead.Sublist (w.phases j).ahead := by
    intro j
    exact update_cases (P := fun j phase => phase.ahead.Sublist (w.phases j).ahead)
      i phase hfollows.ahead (fun _ _ => List.Sublist.refl _) j
  -- a token is one of before, or that of `i` and new in the table
  have htoken : ∀ j k, (Function.update w.phases i phase j).token = some k →
      (w.phases j).token = some k ∨
        j = i ∧ w.db.attempts k = none ∧ (db.attempts k).isSome := by
    intro j
    refine update_cases (P := fun j phase => ∀ k, phase.token = some k →
      (w.phases j).token = some k ∨ j = i ∧ w.db.attempts k = none ∧ (db.attempts k).isSome)
      i phase ?_ (fun _ _ _ hk => .inl hk) j
    intro k hk
    rcases hfollows.token k hk with hold | hnew
    · exact .inl hold
    · exact .inr ⟨rfl, hnew⟩
  refine { h with
    run_lt := fun j r hj => h.run_lt j r (hrun j r hj)
    run_own := fun j j' r hj hj' => h.run_own j j' r (hrun j r hj) (hrun j' r hj')
    ahead_nodup := fun j => (h.ahead_nodup j).sublist (hahead j)
    ahead_free := fun j r hj a ha hr hmem =>
      h.ahead_free j r (hrun j r hj) a ha hr ((hahead j).subset hmem)
    token_own := fun j j' k hj hj' => ?_
    token_row := fun j k hj => ?_
    permits := ?_
    asked_row := fun a ha => hattempts _ (h.asked_row a ha)
    puts := hputs }
  · have hfree : ∀ j, (w.phases j).token = some k → w.db.attempts k ≠ none := by
      intro j hj hnone
      have hrow := (h.token_row j k hj).1
      rw [hnone] at hrow
      cases hrow
    rcases htoken j k hj with hold | ⟨rfl, hnone, -⟩
    · rcases htoken j' k hj' with hold' | ⟨rfl, hnone, -⟩
      · exact h.token_own j j' k hold hold'
      · exact absurd hnone (hfree j hold)
    · rcases htoken j' k hj' with hold' | ⟨rfl, -, -⟩
      · exact absurd hnone (hfree j' hold')
      · rfl
  · rcases htoken j k hj with hold | ⟨-, hnone, hrow⟩
    · obtain ⟨hrow, hkeys⟩ := h.token_row j k hold
      exact ⟨hattempts k hrow, hkeys⟩
    · refine ⟨hrow, fun a ha hkey => ?_⟩
      have hasked := h.asked_row a ha
      rw [hkey, hnone] at hasked
      cases hasked
  · exact update_cases (P := fun _ phase => ∀ d quota, phase.quota = some (d, quota) →
      Permits quota d.provider d.at_) i phase hfollows.quota fun j _ => h.permits j

/-- Only the tables change, and the cards that were stored. -/
theorem Inv.tables (h : Inv w) (db : Db) (puts : List Put)
    (hattempts : ∀ k, (w.db.attempts k).isSome → (db.attempts k).isSome)
    (hputs : ∀ put ∈ puts, put.after = some put.offered) : Inv { w with db, puts } :=
  { h with
    token_row := fun j k hj =>
      ⟨hattempts k (h.token_row j k hj).1, (h.token_row j k hj).2⟩
    asked_row := fun a ha => hattempts _ (h.asked_row a ha)
    puts := hputs }

/-- The same with the tables as they are. -/
theorem Inv.set (h : Inv w) (hfollows : Follows w.db w.db (w.phases i) phase) :
    Inv (w.set i phase) :=
  h.move w.db hfollows w.puts (fun _ hrow => hrow) h.puts

/-- A scheduled run begins. -/
theorem Inv.due (h : Inv w) (hrun : ∀ r, phase.run = some r → r = w.runs)
    (hahead : phase.ahead.Nodup) (htoken : phase.token = none) (hquota : phase.quota = none) :
    Inv (World.set i phase { w with runs := w.runs + 1 }) := by
  have hruns : ∀ j r, (Function.update w.phases i phase j).run = some r →
      (w.phases j).run = some r ∨ j = i ∧ r = w.runs := by
    intro j
    exact update_cases (P := fun j phase => ∀ r, phase.run = some r →
      (w.phases j).run = some r ∨ j = i ∧ r = w.runs) i phase
      (fun r hr => .inr ⟨rfl, hrun r hr⟩) (fun _ _ _ hr => .inl hr) j
  have htokens : ∀ j k, (Function.update w.phases i phase j).token = some k →
      (w.phases j).token = some k := by
    intro j
    refine update_cases (P := fun j phase => ∀ k, phase.token = some k →
      (w.phases j).token = some k) i phase (fun k hk => ?_) (fun _ _ _ hk => hk) j
    rw [htoken] at hk
    cases hk
  refine { h with
    run_lt := fun j r hj => ?_
    run_own := fun j j' r hj hj' => ?_
    ahead_nodup := update_cases (P := fun _ phase => phase.ahead.Nodup) i phase hahead
      fun j _ => h.ahead_nodup j
    ahead_free := ?_
    token_own := fun j j' k hj hj' => h.token_own j j' k (htokens j k hj) (htokens j' k hj')
    token_row := fun j k hj => h.token_row j k (htokens j k hj)
    permits := update_cases (P := fun _ phase => ∀ d quota, phase.quota = some (d, quota) →
      Permits quota d.provider d.at_) i phase (fun d quota hd => ?_) fun j _ => h.permits j
    asked_lt := fun a ha => Nat.lt_succ_of_lt (h.asked_lt a ha) }
  · rcases hruns j r hj with hold | ⟨-, rfl⟩
    · exact Nat.lt_succ_of_lt (h.run_lt j r hold)
    · exact Nat.lt_succ_self _
  · rcases hruns j r hj with hold | ⟨rfl, rfl⟩
    · rcases hruns j' r hj' with hold' | ⟨-, rfl⟩
      · exact h.run_own j j' r hold hold'
      · exact absurd (h.run_lt j _ hold) (lt_irrefl _)
    · rcases hruns j' w.runs hj' with hold' | ⟨rfl, -⟩
      · exact absurd (h.run_lt j' _ hold') (lt_irrefl _)
      · rfl
  · refine update_cases (P := fun _ phase => ∀ r, phase.run = some r → ∀ a ∈ w.asked, a.run = r →
      a.provider ∉ phase.ahead) i phase (fun r hr a ha heq => ?_) fun j _ => h.ahead_free j
    have hlt := h.asked_lt a ha
    rw [heq, hrun r hr] at hlt
    exact absurd hlt (lt_irrefl _)
  · rw [hquota] at hd
    cases hd

/-- A scheduled run asks: its claim and its provider are used up. -/
theorem Inv.askDue (h : Inv w) {fingerprint : Fingerprint} {existing : Option Stored} {begun : Nat}
    (hask : w.phases i = .ask (.due d quota) session fingerprint existing) :
    Inv (World.set i (.interview (.due d quota) session fingerprint begun)
      { w with asked := w.asked ++ [⟨d.run, d.at_, quota, d.provider, session.sessionId⟩] }) := by
  have hrun : (w.phases i).run = some d.run := by rw [hask]; rfl
  have hahead : (w.phases i).ahead = d.provider :: d.rest := by rw [hask]; rfl
  have htoken : (w.phases i).token =
      some ((d.provider, session.sessionId), quota.resetAt) := by rw [hask]; rfl
  have hquota : (w.phases i).quota = some (d, quota) := by rw [hask]; rfl
  have hnodup := h.ahead_nodup i
  rw [hahead, List.nodup_cons] at hnodup
  obtain ⟨hrow, hkeys⟩ := h.token_row i _ htoken
  have hnew : ∀ phase, phase = Phase.interview (.due d quota) session fingerprint begun →
      phase.run = some d.run ∧ phase.ahead = d.rest ∧ phase.token = none ∧ phase.quota = none := by
    intro phase heq
    rw [heq]
    exact ⟨rfl, rfl, rfl, rfl⟩
  generalize Phase.interview (.due d quota) session fingerprint begun = phase at hnew ⊢
  obtain ⟨hrun', hahead', htoken', hquota'⟩ := hnew phase rfl
  generalize hasked : (⟨d.run, d.at_, quota, d.provider, session.sessionId⟩ : Asked) = asked
  have hruns : ∀ j r, (Function.update w.phases i phase j).run = some r →
      (w.phases j).run = some r := by
    intro j
    refine update_cases (P := fun j phase => ∀ r, phase.run = some r → (w.phases j).run = some r)
      i phase (fun r hr => ?_) (fun _ _ _ hr => hr) j
    rw [hrun, ← hrun', hr]
  have htokens : ∀ j k, (Function.update w.phases i phase j).token = some k →
      j ≠ i ∧ (w.phases j).token = some k := by
    intro j
    refine update_cases (P := fun j phase => ∀ k, phase.token = some k →
      j ≠ i ∧ (w.phases j).token = some k) i phase (fun k hk => ?_)
      (fun _ hne _ hk => ⟨hne, hk⟩) j
    rw [htoken'] at hk
    cases hk
  have hlast : ∀ {P : Asked → Prop}, (∀ a ∈ w.asked, P a) → P asked →
      ∀ a ∈ w.asked ++ [asked], P a := by
    intro P hold hlast a ha
    rcases List.mem_append.mp ha with ha | ha
    · exact hold a ha
    · rw [List.mem_singleton.mp ha]
      exact hlast
  refine { h with
    run_lt := fun j r hj => h.run_lt j r (hruns j r hj)
    run_own := fun j j' r hj hj' => h.run_own j j' r (hruns j r hj) (hruns j' r hj')
    ahead_nodup := update_cases (P := fun _ phase => phase.ahead.Nodup) i phase
      (hahead' ▸ hnodup.2) fun j _ => h.ahead_nodup j
    ahead_free := ?_
    token_own := fun j j' k hj hj' => h.token_own j j' k (htokens j k hj).2 (htokens j' k hj').2
    token_row := fun j k hj => ?_
    permits := update_cases (P := fun _ phase => ∀ d quota, phase.quota = some (d, quota) →
      Permits quota d.provider d.at_) i phase (fun d quota hd => ?_) fun j _ => h.permits j
    asked_lt := hlast h.asked_lt (hasked ▸ h.run_lt i _ hrun)
    asked_row := hlast h.asked_row (hasked ▸ hrow)
    asked_permits := hlast h.asked_permits (hasked ▸ h.permits i d quota hquota)
    asked_keys := ?_
    asked_runs := ?_ }
  · refine update_cases (P := fun j phase => ∀ r, phase.run = some r → ∀ a ∈ w.asked ++ [asked],
      a.run = r → a.provider ∉ phase.ahead) i phase (fun r hr => ?_) fun j hne r hr => ?_
    · rw [hahead']
      refine hlast (fun a ha heq hmem => ?_) fun _ => hasked ▸ hnodup.1
      refine h.ahead_free i r (hrun.trans (hrun'.symm.trans hr)) a ha heq ?_
      rw [hahead]
      exact List.mem_cons_of_mem _ hmem
    · refine hlast (h.ahead_free j r hr) fun heq => ?_
      have hsame : some d.run = some r := by rw [← heq, ← hasked]
      exact absurd (h.run_own j i r hr (hrun.trans hsame)) hne
  · obtain ⟨hne, hold⟩ := htokens j k hj
    obtain ⟨hrow', hkeys'⟩ := h.token_row j k hold
    refine ⟨hrow', hlast hkeys' fun hkey => hne ?_⟩
    refine h.token_own j i k hold (htoken.trans ?_)
    rw [← hkey, ← hasked]
    rfl
  · rw [hquota'] at hd
    cases hd
  · show ((w.asked ++ [asked]).map Asked.key).Nodup
    rw [List.map_append]
    refine List.nodup_append.mpr ⟨h.asked_keys, List.nodup_singleton _, ?_⟩
    intro key hkey other hother heq
    obtain ⟨a, ha, rfl⟩ := List.mem_map.mp hkey
    refine hkeys a ha (heq.trans ?_)
    rw [List.mem_singleton.mp hother, ← hasked]
    rfl
  · show ((w.asked ++ [asked]).map fun a => (a.run, a.provider)).Nodup
    rw [List.map_append]
    refine List.nodup_append.mpr ⟨h.asked_runs, List.nodup_singleton _, ?_⟩
    intro pair hpair other hother heq
    obtain ⟨a, ha, rfl⟩ := List.mem_map.mp hpair
    rw [List.mem_singleton.mp hother, ← hasked] at heq
    obtain ⟨hr, hprovider⟩ := Prod.mk.inj heq
    refine h.ahead_free i d.run hrun a ha hr ?_
    rw [hahead, hprovider]
    exact List.mem_cons_self

theorem Inv.stored (h : Inv w) {kind : Kind} {begun : Nat} {card result : Stored} {now : ℚ}
    {db : Db} (hput : putExpertProfile now card w.db = .ok (result, db)) :
    (∀ put ∈ (w.stored kind begun card db).puts, put.after = some put.offered) ∧
      ∀ k, (w.db.attempts k).isSome → (db.attempts k).isSome := by
  obtain ⟨hcontent, -, hattempts⟩ := put_content hput
  refine ⟨fun put hmem => ?_, fun k hk => by rwa [hattempts]⟩
  rcases List.mem_append.mp hmem with hmem | hmem
  · exact h.puts put hmem
  · rw [List.mem_singleton.mp hmem]
    exact hcontent

theorem Inv.step {clean : String → Except String String} {after : World} (h : Inv w)
    (hstep : Step clean w after) : Inv after := by
  have hkept : ∀ k, (w.db.attempts k).isSome → (w.db.attempts k).isSome := fun _ hk => hk
  cases hstep with
  | track tracked => exact h.tables { w.db with tracked } w.puts hkept h.puts
  | fail i => exact h.set .idle
  | due i idle at_ sessions provider first rest all =>
      have hnodup : (first :: rest).Nodup := by
        rcases all with hone | hall
        · rw [hone]
          exact List.nodup_singleton _
        · rw [hall]
          decide
      refine h.due ?_ hnodup rfl rfl
      intro r hr
      exact (Option.some.inj hr).symm
  | card i d session todo states cards fingerprint =>
      refine h.set (.free (fun r hr => ?_) ?_ rfl rfl)
      · rw [cards]
        exact hr
      · rw [cards]
        exact List.Sublist.refl _
  | nothing i d after states cards available snapshot decided =>
      obtain ⟨output, hsame⟩ := (@decideDue_permits available snapshot states d).1
      rw [decided] at hsame
      rw [show after = _ from hsame]
      refine h.set (.next ?_ ?_)
      · rw [cards]
        rfl
      · rw [cards]
        exact List.sublist_cons_self _ _
  | choose i d after states cards available snapshot quota pending decided =>
      obtain ⟨⟨output, hsame⟩, hpermits⟩ := @decideDue_permits available snapshot states d
      rw [decided] at hsame hpermits
      rw [show after = _ from hsame]
      refine h.set ⟨fun r hr => ?_, ?_, of_eq_none rfl, fun d' quota' hq => ?_⟩
      · rw [cards]
        exact hr
      · rw [cards]
        exact List.Sublist.refl _
      · cases hq
        exact hpermits quota pending rfl
  | attempted i d quota session todo attempts row =>
      refine h.set ⟨fun r hr => ?_, ?_, of_eq_none rfl, fun d' quota' hq => ?_⟩
      · rw [attempts]
        exact hr
      · rw [attempts]
        exact List.Sublist.refl _
      · refine h.permits i d' quota' ?_
        rw [attempts]
        exact hq
  | select i d quota session todo attempts row =>
      refine h.set ⟨fun r hr => ?_, ?_, of_eq_none rfl, fun d' quota' hq => ?_⟩
      · rw [attempts]
        exact hr
      · rw [attempts]
        exact List.Sublist.refl _
      · refine h.permits i d' quota' ?_
        rw [attempts]
        exact hq
  | allAttempted i d quota attempts =>
      refine h.set (.next ?_ ?_)
      · rw [attempts]
        rfl
      · rw [attempts]
        exact List.sublist_cons_self _ _
  | claimed i d quota session claim now db inserted =>
      obtain ⟨hnone, hsome⟩ := claim_new (congrArg Prod.fst inserted)
      have hattempts : ∀ k, (w.db.attempts k).isSome → (db.attempts k).isSome := by
        intro k hk
        have hclaim := @claim_attempts now
          (attemptOf d quota session "STARTED" "claimed before provider call") w.db k hk
        rw [inserted] at hclaim
        exact hclaim
      rw [inserted] at hsome
      refine h.move db ⟨fun r hr => ?_, ?_, fun k hk => ?_, fun d' quota' hq => ?_⟩ w.puts
        hattempts h.puts
      · rw [claim]
        exact hr
      · rw [claim]
        exact List.Sublist.refl _
      · rw [← Option.some.inj hk]
        exact .inr ⟨hnone, hsome⟩
      · refine h.permits i d' quota' ?_
        rw [claim]
        exact hq
  | taken i d quota session claim now db ignored =>
      have hattempts : ∀ k, (w.db.attempts k).isSome → (db.attempts k).isSome := by
        intro k hk
        have hclaim := @claim_attempts now
          (attemptOf d quota session "STARTED" "claimed before provider call") w.db k hk
        rw [ignored] at hclaim
        exact hclaim
      refine h.move db (.next ?_ ?_) w.puts hattempts h.puts
      · rw [claim]
        rfl
      · rw [claim]
        exact List.sublist_cons_self _ _
  | unclaimed i d quota session claim error =>
      refine h.set (.next ?_ ?_)
      · rw [claim]
        rfl
      · rw [claim]
        exact List.sublist_cons_self _ _
  | explicit i idle sessions => exact h.set (.outside rfl rfl rfl rfl)
  | skip i session todo refresh => exact h.set (.outside rfl rfl rfl rfl)
  | renew i session todo refresh fingerprint old =>
      exact h.set (.outside rfl rfl rfl rfl)
  | unread i purpose session read error =>
      refine h.set (.afterInterview fun d quota hdue => ?_)
      rw [read, hdue]
      exact ⟨rfl, List.sublist_cons_self _ _⟩
  | read i purpose session read fingerprint =>
      refine h.set ⟨fun r hr => ?_, ?_, fun k hk => ?_, fun d' quota' hq => ?_⟩
      · rw [read]
        cases purpose with
        | explicit rest => cases hr
        | due d quota => exact hr
      · rw [read]
        cases purpose with
        | explicit rest => exact List.nil_sublist _
        | due d quota => exact List.Sublist.refl _
      · rw [read]
        cases purpose with
        | explicit rest => cases hk
        | due d quota => exact .inl hk
      · refine h.permits i d' quota' ?_
        rw [read]
        cases purpose with
        | explicit rest => cases hq
        | due d quota => exact hq
  | ask i rest session fingerprint existing ask =>
      exact h.set (.outside rfl rfl rfl rfl)
  | askDue i d quota session fingerprint existing ask => exact h.askDue ask
  | unanswered i purpose session fingerprint begun interview error =>
      refine h.set (.afterInterview fun d quota hdue => ?_)
      rw [interview, hdue]
      exact ⟨rfl, List.Sublist.refl _⟩
  | answered i purpose session fingerprint begun interview profile own source topics now result db
      put =>
      obtain ⟨hputs, hattempts⟩ := @Inv.stored w h .interview begun _ result now db put
      refine h.move db (.afterInterview fun d quota hdue => ?_) _ hattempts hputs
      rw [interview, hdue]
      exact ⟨rfl, List.Sublist.refl _⟩
  | record i d quota session status detail record now =>
      refine h.move _ (.next ?_ ?_) w.puts (fun k hk => put_attempts k hk) h.puts
      · rw [record]
        rfl
      · rw [record]
        exact List.Sublist.refl _
  | publish profile fingerprint now result db put =>
      obtain ⟨hputs, hattempts⟩ := @Inv.stored w h .publication w.puts.length _ result now db put
      exact h.tables db _ hattempts hputs
  | work i idle session currentState text cleaned existing card other now =>
      exact h.set (.outside rfl rfl rfl rfl)
  | worked i begun stored work fingerprint now result db put =>
      obtain ⟨hputs, hattempts⟩ := @Inv.stored w h .work begun _ result now db put
      exact h.move db .idle _ hattempts hputs

theorem Reachable.inv {clean : String → Except String String} {db : Db}
    (h : Reachable clean db w) : Inv w := by
  induction h with
  | start =>
      have hnobody : ∀ a : Asked, a ∈ [] → ∀ P : Prop, P := fun _ ha _ => absurd ha List.not_mem_nil
      exact {
        run_lt := fun _ => of_eq_none rfl
        run_own := fun _ _ => of_eq_none rfl
        ahead_nodup := fun _ => List.nodup_nil
        ahead_free := fun _ => of_eq_none rfl
        token_own := fun _ _ => of_eq_none rfl
        token_row := fun _ => of_eq_none rfl
        permits := fun _ => of_eq_none₂ rfl
        asked_lt := fun a ha => hnobody a ha _
        asked_row := fun a ha => hnobody a ha _
        asked_permits := fun a ha => hnobody a ha _
        asked_keys := List.nodup_nil
        asked_runs := List.nodup_nil
        puts := fun _ hput => absurd hput List.not_mem_nil }
  | step w after reached step ih => exact ih.step step

end Steps

/-- Another card of the conversation was stored since the writer of this one began. -/
def Newer (puts : List Put) (n : Nat) (put : Put) : Prop :=
  ∃ m other, put.begun ≤ m ∧ m < n ∧ puts[m]? = some other ∧ other.key = put.key

section Samples

def sampleSession : Session := ⟨.codex, "s", true, 0⟩

def sampleDb : Db := ⟨fun _ => true, fun _ => none, fun _ => none⟩

/-- Half of it used, and an hour left. -/
def sampleQuota : Quota := ⟨.codex, some 50, 3600, 0⟩

def sampleFingerprint : Fingerprint := ⟨1, 1⟩

/-- A world from the database of the samples. -/
abbrev SampleReached : World → Prop := Reachable .ok sampleDb

theorem sample_decided : decideDue (fun _ => .ok ()) (.ok (some sampleQuota))
    [(sampleSession, .missing, "not interviewed yet")]
    ⟨0, 0, [sampleSession], .codex, [], []⟩ =
      (⟨0, 0, [sampleSession], .codex, [], []⟩, some (sampleQuota, [sampleSession])) := by
  have hfresh : sampleQuota.isFreshFor .codex 0 = true := by decide +kernel
  have hwindow : ¬refreshWindowSeconds < sampleQuota.secondsLeft 0 := by decide +kernel
  have hleft : ¬sampleQuota.secondsLeft 0 ≤ 0 := by decide +kernel
  have hreserve : ¬sampleQuota.remainingPercent ≤ quotaReservePercent := by decide +kernel
  simp [decideDue, pendingCards, hfresh, hwindow, hleft, hreserve, -not_lt, -not_le]

/-- A scheduled run at time zero asks the one conversation. -/
theorem sample_asked : ∃ w, SampleReached w ∧
    ∃ a ∈ w.asked, a.quota = sampleQuota ∧ a.provider = .codex ∧ a.at_ = 0 := by
  have hdue : SampleReached _ := .step _ _ .start
    (.due 0 rfl 0 [sampleSession] .codex .codex [] (.inl rfl))
  have hcards : SampleReached _ := .step _ _ hdue
    (.card 0 ⟨0, 0, [sampleSession], .codex, [], []⟩ sampleSession [] [] rfl
      (some sampleFingerprint))
  have hchosen : SampleReached _ := .step _ _ hcards
    (.choose 0 ⟨0, 0, [sampleSession], .codex, [], []⟩ ⟨0, 0, [sampleSession], .codex, [], []⟩
      [(sampleSession, .missing, "not interviewed yet")] rfl (fun _ => .ok ())
      (.ok (some sampleQuota)) sampleQuota [sampleSession] sample_decided)
  have hselected : SampleReached _ := .step _ _ hchosen
    (.select 0 ⟨0, 0, [sampleSession], .codex, [], []⟩ sampleQuota sampleSession [] rfl rfl)
  have hclaimed : SampleReached _ := .step _ _ hselected
    (.claimed 0 ⟨0, 0, [sampleSession], .codex, [], []⟩ sampleQuota sampleSession rfl 1 _ rfl)
  have hread : SampleReached _ := .step _ _ hclaimed
    (.read 0 (.due ⟨0, 0, [sampleSession], .codex, [], []⟩ sampleQuota) sampleSession rfl
      sampleFingerprint)
  exact ⟨_, .step _ _ hread (.askDue 0 ⟨0, 0, [sampleSession], .codex, [], []⟩ sampleQuota
    sampleSession sampleFingerprint none rfl), _, List.mem_singleton_self _, rfl, rfl, rfl⟩

def sampleProfile (summary source : String) : Profile :=
  ⟨.codex, "s", summary, "", ["a", "b", "c"], [], source, 1, 0, 0⟩

end Samples

end Pikamux.Experts
