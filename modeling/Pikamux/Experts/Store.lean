import Mathlib.Algebra.Order.Ring.Rat
import Pikamux.Model

/-!
# Experts — Store

The cards of conversations and the attempts to refresh them, each write one transaction.

* `putExpertProfile` — a card is stored whole, unless its content is that of the one it replaces.
* `claimExpertRefreshAttempt` — an attempt is claimed once.
* `put_content` — after a card is stored, the table has its content.
-/

namespace Pikamux.Experts

/-- The conversation of a card. -/
abbrev Key := Provider × String

structure Profile where
  provider : Provider
  sessionId : String
  summary : String
  currentState : String
  topics : List String
  artifacts : List String
  source : String
  updatedAt : ℚ
  scopeUpdatedAt : ℚ
  currentStateUpdatedAt : ℚ

/-- `StoredExpertProfile` -/
structure Stored where
  profile : Profile
  transcriptMtimeNs : Option Int
  transcriptSize : Option Int
  currentStateMtimeNs : Option Int
  currentStateSize : Option Int

/-- What a card says. -/
structure Content where
  summary : String
  currentState : String
  topics : List String
  artifacts : List String
  deriving DecidableEq

/-- `ExpertRefreshAttempt` -/
structure Attempt where
  provider : Provider
  sessionId : String
  resetAt : Int
  status : String
  detail : Option String
  attemptedAt : ℚ

def Profile.key (profile : Profile) : Key := (profile.provider, profile.sessionId)

def Stored.content (stored : Stored) : Content :=
  ⟨stored.profile.summary, stored.profile.currentState, stored.profile.topics,
    stored.profile.artifacts⟩

def Attempt.key (attempt : Attempt) : Key × Int :=
  ((attempt.provider, attempt.sessionId), attempt.resetAt)

/-- The tables: tracked sessions, cards and attempts. -/
structure Db where
  tracked : Key → Bool
  profiles : Key → Option Stored
  attempts : Key × Int → Option Attempt

/-- `nonzero_or` -/
def nonzeroOr (value fallback : ℚ) : ℚ := if value = 0 then fallback else value

namespace Stored

/-- The scope, the topics or the artifacts are not those of the card in the table. -/
def scopeChanged (existing : Option Stored) (stored : Stored) : Bool :=
  existing.all fun old =>
    old.profile.summary ≠ stored.profile.summary || old.profile.topics ≠ stored.profile.topics ||
      old.profile.artifacts ≠ stored.profile.artifacts

def workChanged (existing : Option Stored) (stored : Stored) : Bool :=
  existing.all fun old => old.profile.currentState ≠ stored.profile.currentState

/-- The card is of an interview of the transcript it names. -/
def verified (stored : Stored) : Bool :=
  stored.profile.source = "interview" && stored.transcriptMtimeNs.isSome &&
    stored.transcriptSize.isSome

/-- The row of a card that replaces another. -/
def replacing (now : ℚ) (existing : Option Stored) (stored : Stored) : Stored :=
  let scopeChanged := stored.scopeChanged existing
  let workChanged := stored.workChanged existing
  let updatedAt := nonzeroOr stored.profile.updatedAt now
  { stored with
    profile := { stored.profile with
      updatedAt
      scopeUpdatedAt :=
        if scopeChanged then updatedAt else existing.elim 0 fun old => old.profile.scopeUpdatedAt
      currentStateUpdatedAt :=
        if workChanged && stored.profile.currentState ≠ "" then updatedAt
        else existing.elim 0 fun old => old.profile.currentStateUpdatedAt }
    currentStateMtimeNs :=
      if workChanged || stored.verified then stored.transcriptMtimeNs
      else existing.bind currentStateMtimeNs
    currentStateSize :=
      if workChanged || stored.verified then stored.transcriptSize
      else existing.bind currentStateSize }

/-- The row of a card that an interview found unchanged. -/
def reaffirmed (old stored : Stored) : Stored :=
  { old with
    transcriptMtimeNs := stored.transcriptMtimeNs
    transcriptSize := stored.transcriptSize
    currentStateMtimeNs := stored.transcriptMtimeNs
    currentStateSize := stored.transcriptSize }

end Stored

/-- `put_expert_profile`: what it returns, and the tables afterwards. -/
def putExpertProfile (now : ℚ) (stored : Stored) (db : Db) : Except String (Stored × Db) :=
  let key := stored.profile.key
  let write (row : Stored) : Stored × Db :=
    (row, { db with profiles := Function.update db.profiles key (some row) })
  if !db.tracked key then .error "expert profile requires a tracked Pika session"
  else
    match db.profiles key with
    | none => .ok (write (stored.replacing now none))
    | some old =>
        if stored.scopeChanged (some old) || stored.workChanged (some old) then
          .ok (write (stored.replacing now (some old)))
        else if stored.verified then .ok (write (old.reaffirmed stored))
        else .ok (old, db)

/-- `put_expert_refresh_attempt` -/
def putExpertRefreshAttempt (now : ℚ) (attempt : Attempt) (db : Db) : Db :=
  let row := { attempt with attemptedAt := nonzeroOr attempt.attemptedAt now }
  { db with attempts := Function.update db.attempts attempt.key (some row) }

/-- `claim_expert_refresh_attempt`: whether the row was inserted. -/
def claimExpertRefreshAttempt (now : ℚ) (attempt : Attempt) (db : Db) : Bool × Db :=
  match db.attempts attempt.key with
  | some _ => (false, db)
  | none => (true, putExpertRefreshAttempt now attempt db)

variable {now : ℚ} {stored result : Stored} {attempt : Attempt} {db after : Db} {key : Key}

/-- The content that a table has for a conversation. -/
def Db.content (db : Db) (key : Key) : Option Content := (db.profiles key).map Stored.content

/-- What is neither a new scope nor new work says what is there already. -/
theorem content_of_unchanged {old : Stored}
    (h : ¬(stored.scopeChanged (some old) || stored.workChanged (some old)) = true) :
    old.content = stored.content := by
  simp [Stored.scopeChanged, Stored.workChanged] at h
  obtain ⟨⟨⟨hsummary, htopics⟩, hartifacts⟩, hwork⟩ := h
  simp [Stored.content, hsummary, htopics, hartifacts, hwork]

theorem write_content {row : Stored} (h : row.content = stored.content) :
    (Db.mk db.tracked (Function.update db.profiles stored.profile.key (some row))
      db.attempts).content stored.profile.key = some stored.content := by
  rw [Db.content]
  simp [h]

/-- After a card is stored the table has its content, and the rest of it is what it was. -/
theorem put_content (h : putExpertProfile now stored db = .ok (result, after)) :
    after.content stored.profile.key = some stored.content ∧
    (∀ key, key ≠ stored.profile.key → after.profiles key = db.profiles key) ∧
    after.attempts = db.attempts := by
  rw [putExpertProfile] at h
  split at h
  · cases h
  · simp only at h
    cases hold : db.profiles stored.profile.key with
    | none =>
        rw [hold] at h
        cases h
        exact ⟨write_content rfl, fun key hne => Function.update_of_ne hne _ _, rfl⟩
    | some old =>
        rw [hold] at h
        simp only at h
        split at h
        · cases h
          exact ⟨write_content rfl, fun key hne => Function.update_of_ne hne _ _, rfl⟩
        · next hsame =>
            have hcontent := content_of_unchanged hsame
            split at h
            · cases h
              exact ⟨write_content hcontent, fun key hne => Function.update_of_ne hne _ _, rfl⟩
            · cases h
              refine ⟨?_, fun key _ => rfl, rfl⟩
              rw [Db.content, hold, Option.map_some, hcontent]

/-- Attempts are only added. -/
theorem put_attempts (key : Key × Int) (h : (db.attempts key).isSome) :
    ((putExpertRefreshAttempt now attempt db).attempts key).isSome := by
  by_cases hkey : key = attempt.key
  · rw [hkey, putExpertRefreshAttempt]
    simp
  · rw [putExpertRefreshAttempt]
    simp [Function.update_of_ne hkey, h]

/-- A claim that succeeds had no row, and leaves one. -/
theorem claim_new (h : (claimExpertRefreshAttempt now attempt db).1 = true) :
    db.attempts attempt.key = none ∧
      ((claimExpertRefreshAttempt now attempt db).2.attempts attempt.key).isSome := by
  rw [claimExpertRefreshAttempt] at h ⊢
  cases hrow : db.attempts attempt.key with
  | some row =>
      rw [hrow] at h
      cases h
  | none =>
      refine ⟨rfl, ?_⟩
      simp [putExpertRefreshAttempt]

theorem claim_attempts (key : Key × Int) (h : (db.attempts key).isSome) :
    ((claimExpertRefreshAttempt now attempt db).2.attempts key).isSome := by
  rw [claimExpertRefreshAttempt]
  cases db.attempts attempt.key with
  | some row => exact h
  | none => exact put_attempts key h

end Pikamux.Experts
