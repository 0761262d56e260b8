import Mathlib.Algebra.Order.Ring.Nat
import Mathlib.Data.List.MinMax
import Mathlib.Data.Fin.Basic
import Pikamux.Model
import Pikamux.Support.Representative

/-!
# Names — Resolve

`resolve_name` finds the saved conversations that a query means: first those whose identity it is,
then those of that name, then the one whose identity it begins.  Of the local candidates with one
native identity a representative is taken, and of several conversations of one name one is chosen
only when they share a provider and a directory, and either one of them has an exact home or none
is in use and one was used last.

Indexes are `Fin choices.length`, so that every index refers to a candidate.

* `representative_of_local` — every local match has a representative that is as good.
* `selectNamed_single` — what it takes for one survivor of several to be chosen.
* `resolveName_keeps` — a query of a name drops a survivor only then, and a query of an identity
  none.
-/

namespace Pikamux.Names

open Support

inductive EvidenceState where
  | available
  | archived
  | missing
  | unknown
  deriving DecidableEq, Repr

structure SelectionEvidence (τ : Type) where
  state : EvidenceState
  /-- A canonical, existing directory, where one is proven. -/
  canonicalCwd : Option String
  providerUpdatedAt : Option τ

structure NameCandidate (τ : Type) where
  provider : Provider
  sessionId : String
  activeThreadId : Option String
  name : Option String
  live : Bool
  exactHome : Bool
  status : Status
  isLocal : Bool
  evidence : SelectionEvidence τ

inductive NameResolutionError where
  | notFound
  | savedUnavailable
  deriving DecidableEq, Repr

/-- `provider_thread_id` -/
def NameCandidate.providerThreadId {τ : Type} (item : NameCandidate τ) : String :=
  item.activeThreadId.getD item.sessionId

/-- The native identity. -/
def NameCandidate.identity {τ : Type} (item : NameCandidate τ) : Provider × String :=
  (item.provider, item.providerThreadId)

/-- `item.name.as_deref().unwrap_or_default().to_lowercase()` -/
def NameCandidate.foldedName {τ : Type} (lower : String → String) (item : NameCandidate τ) :
    String :=
  lower (item.name.getD "")

section Resolve

/-! Times are ordered by `total_cmp`, and `positive` is `value > 0.0`. -/

variable {τ : Type} [LinearOrder τ] (lower : String → String) (positive : τ → Bool)
  (choices : List (NameCandidate τ))

/-- The matches with a property, in order. -/
def matching (holds : NameCandidate τ → Bool) : List (Fin choices.length) :=
  (List.finRange choices.length).filter fun index => holds (choices.get index)

def isExact (query : String) (item : NameCandidate τ) : Bool :=
  item.sessionId = query || item.providerThreadId = query

def isNamed (query : String) (item : NameCandidate τ) : Bool :=
  item.name.any fun name => lower name = lower query

def isPrefixed (query : String) (item : NameCandidate τ) : Bool :=
  query.toList.isPrefixOf item.sessionId.toList ||
    query.toList.isPrefixOf item.providerThreadId.toList

/-- A remote or pending candidate is not collapsed with others. -/
def nativeKey (index : Fin choices.length) : Option (Provider × String) :=
  if (choices.get index).isLocal then some (choices.get index).identity else none

/-- `replace` -/
def replaces (index previous : Fin choices.length) : Bool :=
  let item := choices.get index
  let previous := choices.get previous
  (item.exactHome && !previous.exactHome) ||
    (item.exactHome == previous.exactHome && item.activeThreadId.isSome &&
      previous.activeThreadId.isNone)

/-- `deduped` -/
def deduped (matched : List (Fin choices.length)) : List (Fin choices.length) :=
  representatives (nativeKey choices) (replaces choices) matched

/-- What passes the archive filter. -/
def isKept (item : NameCandidate τ) : Bool :=
  item.evidence.state != .archived && (item.evidence.state != .missing || item.live)

/-- `kept` -/
def kept (matched : List (Fin choices.length)) : List (Fin choices.length) :=
  (deduped choices matched).filter fun index => isKept (choices.get index)

/-- A conversation in use. -/
def isInUse (item : NameCandidate τ) : Bool :=
  item.live || item.exactHome || item.status == .openTwice

def updatedAt (index : Fin choices.length) : Option τ :=
  (choices.get index).evidence.providerUpdatedAt

/-- The last part of the choice: the conversation that was used last. -/
def selectNewest (survivors : List (Fin choices.length)) : List (Fin choices.length) :=
  if survivors.any fun index =>
      (choices.get index).evidence.state != .available ||
        !((updatedAt choices index).any positive) then survivors
  else
    let newest := (survivors.filterMap (updatedAt choices)).max?
    let winners := survivors.filter fun index => updatedAt choices index = newest
    if winners.length = 1 then winners else survivors

/-- The second part: the conversation with an exact home. -/
def selectInUse (survivors : List (Fin choices.length)) : List (Fin choices.length) :=
  let live := survivors.filter fun index => isInUse (choices.get index)
  if 1 < live.length || live.any fun index => (choices.get index).status == .openTwice then
    survivors
  else
    match live with
    | home :: _ => if (choices.get home).exactHome then live else survivors
    | [] => selectNewest positive choices survivors

/-- The first part: conversations that could be one. -/
def selectNamed (survivors : List (Fin choices.length)) : List (Fin choices.length) :=
  match survivors with
  | [] => []
  | first :: _ =>
    if survivors.length < 2 || survivors.any fun index => !(choices.get index).isLocal then
      survivors
    else if survivors.any fun index =>
        (choices.get index).provider != (choices.get first).provider ||
          (choices.get index).foldedName lower != (choices.get first).foldedName lower then
      survivors
    else
      match (choices.get first).evidence.canonicalCwd with
      | none => survivors
      | some firstCwd =>
        if survivors.any fun index =>
            (choices.get index).evidence.canonicalCwd != some firstCwd then survivors
        else selectInUse positive choices survivors

/-- `reduce_name_choices` -/
def reduceNameChoices (matched : List (Fin choices.length)) (exactQuery : Bool) :
    Except NameResolutionError (List (Fin choices.length)) :=
  if exactQuery then .ok (deduped choices matched)
  else if (kept choices matched).isEmpty && !(deduped choices matched).isEmpty then
    .error .savedUnavailable
  else .ok (selectNamed lower positive choices (kept choices matched))

/-- `resolve_name` -/
def resolveName (query : String) : Except NameResolutionError (List (Fin choices.length)) :=
  let exact := matching choices (isExact query)
  let named := matching choices (isNamed lower query)
  let prefixes := matching choices (isPrefixed query)
  if !exact.isEmpty then reduceNameChoices lower positive choices exact true
  else if !named.isEmpty then reduceNameChoices lower positive choices named false
  else if prefixes.length = 1 then .ok prefixes
  else .error .notFound

/-! ### Representatives -/

section Representatives

variable {lower positive choices} {index : Fin choices.length}
  {matched survivors : List (Fin choices.length)}

omit [LinearOrder τ] in
theorem replaces_irrefl (index : Fin choices.length) : replaces choices index index = false := by
  simp [replaces]

omit [LinearOrder τ] in
theorem replaces_trans (a b c : Fin choices.length) (hab : replaces choices a b = true)
    (hbc : replaces choices b c = true) : replaces choices a c = true := by
  simp only [replaces, Bool.or_eq_true, Bool.and_eq_true, beq_iff_eq] at hab hbc ⊢
  grind

omit [LinearOrder τ] in
theorem nativeKey_eq_some {identity : Provider × String} :
    nativeKey choices index = some identity ↔
      (choices.get index).isLocal = true ∧ (choices.get index).identity = identity := by
  rw [nativeKey]
  split
  · next hlocal =>
      constructor
      · intro h
        exact ⟨hlocal, Option.some.inj h⟩
      · intro h
        rw [h.2]
  · next hlocal =>
      constructor
      · intro h
        cases h
      · intro h
        exact absurd h.1 hlocal

omit [LinearOrder τ] in
/-- A local match has a representative of its identity, that it would not replace. -/
theorem representative_of_local (h : index ∈ matched)
    (hlocal : (choices.get index).isLocal = true) :
    ∃ representative ∈ deduped choices matched,
      (choices.get representative).isLocal = true ∧
      (choices.get representative).identity = (choices.get index).identity ∧
      replaces choices index representative = false := by
  obtain ⟨representative, hmem, hkey, hbest⟩ :=
    representatives_best replaces_irrefl replaces_trans h (nativeKey_eq_some.mpr ⟨hlocal, rfl⟩)
  exact ⟨representative, hmem, (nativeKey_eq_some.mp hkey).1, (nativeKey_eq_some.mp hkey).2, hbest⟩

omit [LinearOrder τ] in
theorem mem_of_deduped (h : index ∈ deduped choices matched) : index ∈ matched :=
  representatives_sub replaces_irrefl replaces_trans h

omit [LinearOrder τ] in
/-- A match that is not local is its own representative. -/
theorem mem_deduped_of_remote (h : index ∈ matched)
    (hlocal : (choices.get index).isLocal = false) : index ∈ deduped choices matched := by
  refine representatives_free replaces_irrefl replaces_trans h ?_
  rw [nativeKey, hlocal]
  rfl

/-! ### One of several -/

variable (choices) in
/-- It has an exact home, and no other one is in use. -/
def OnlyInUse (survivors : List (Fin choices.length)) (winner : Fin choices.length) : Prop :=
  (choices.get winner).exactHome = true ∧ ∀ index ∈ survivors, index ≠ winner →
    (choices.get index).live = false ∧ (choices.get index).exactHome = false ∧
      (choices.get index).status ≠ .openTwice

variable (choices) in
/-- Its time is positive, and greater than that of each other one. -/
def Newest (positive : τ → Bool) (survivors : List (Fin choices.length))
    (winner : Fin choices.length) : Prop :=
  ∃ newest, updatedAt choices winner = some newest ∧ positive newest = true ∧
    ∀ index ∈ survivors, index ≠ winner →
      ∃ time, updatedAt choices index = some time ∧ positive time = true ∧ time < newest

variable (positive choices) in
/-- All are available and not live, and it was used last. -/
def UsedLast (survivors : List (Fin choices.length)) (winner : Fin choices.length) : Prop :=
  (∀ index ∈ survivors,
    (choices.get index).live = false ∧ (choices.get index).evidence.state = .available) ∧
  Newest choices positive survivors winner

variable (lower positive choices) in
/-- What makes one conversation of several the one that is meant. -/
structure Single (survivors : List (Fin choices.length)) (winner : Fin choices.length) : Prop where
  isLocal : ∀ index ∈ survivors, (choices.get index).isLocal = true
  provider : ∀ index ∈ survivors,
    (choices.get index).provider = (choices.get winner).provider
  name : ∀ index ∈ survivors,
    (choices.get index).foldedName lower = (choices.get winner).foldedName lower
  cwd : ∃ cwd, ∀ index ∈ survivors, (choices.get index).evidence.canonicalCwd = some cwd
  choice : OnlyInUse choices survivors winner ∨ UsedLast positive choices survivors winner

theorem ne_singleton_of_two {α : Type} {l : List α} (h : 2 ≤ l.length) (a : α) : l ≠ [a] := by
  rintro rfl
  simp at h

/-- The conversation that was used last is later than each other one. -/
theorem selectNewest_single {winner : Fin choices.length} (htwo : 2 ≤ survivors.length)
    (h : selectNewest positive choices survivors = [winner]) :
    winner ∈ survivors ∧ (∀ index ∈ survivors, (choices.get index).evidence.state = .available) ∧
      Newest choices positive survivors winner := by
  rw [selectNewest] at h
  split at h
  · exact absurd h (ne_singleton_of_two htwo winner)
  · next hall =>
      simp only [List.any_eq_true, Bool.or_eq_true, bne_iff_ne, Bool.not_eq_true', not_exists,
        not_and, not_or, not_not] at hall
      have htimes : ∀ index ∈ survivors,
          ∃ time, updatedAt choices index = some time ∧ positive time = true := by
        intro index hindex
        have hany := (hall index hindex).2
        rw [Bool.not_eq_false, Option.any_eq_true_iff_get] at hany
        obtain ⟨hsome, hpositive⟩ := hany
        exact ⟨_, (Option.some_get hsome).symm, hpositive⟩
      simp only at h
      split at h
      · have hmem : ∀ index, index = winner ↔ index ∈ survivors ∧
            updatedAt choices index = (survivors.filterMap (updatedAt choices)).max? := by
          intro index
          rw [← List.mem_singleton, ← h, List.mem_filter, decide_eq_true_eq]
        obtain ⟨hwinner, hmax⟩ := (hmem winner).mp rfl
        obtain ⟨newest, hnewest, hpositive⟩ := htimes winner hwinner
        have hle := (List.max?_eq_some_iff.mp (hmax.symm.trans hnewest)).2
        refine ⟨hwinner, fun index hindex => (hall index hindex).1, newest, hnewest, hpositive, ?_⟩
        intro index hindex hne
        obtain ⟨time, htime, hpos⟩ := htimes index hindex
        refine ⟨time, htime, hpos, lt_of_le_of_ne ?_ ?_⟩
        · exact hle time (List.mem_filterMap.mpr ⟨index, hindex, htime⟩)
        · intro heq
          exact hne ((hmem index).mpr ⟨hindex, by rw [htime, heq, ← hnewest, hmax]⟩)
      · exact absurd h (ne_singleton_of_two htwo winner)

omit [LinearOrder τ] in
theorem isInUse_eq_false {item : NameCandidate τ} : isInUse item = false ↔
    item.live = false ∧ item.exactHome = false ∧ item.status ≠ .openTwice := by
  simp [isInUse, and_assoc]

/-- A conversation with an exact home is the only one in use. -/
theorem selectInUse_single {winner : Fin choices.length} (htwo : 2 ≤ survivors.length)
    (h : selectInUse positive choices survivors = [winner]) :
    winner ∈ survivors ∧
      (OnlyInUse choices survivors winner ∨ UsedLast positive choices survivors winner) := by
  rw [selectInUse] at h
  split at h
  · exact absurd h (ne_singleton_of_two htwo winner)
  · split at h
    · next home rest hlive =>
        split at h
        · next hhome =>
            have hmem : ∀ index, index = winner ↔ index ∈ survivors ∧
                isInUse (choices.get index) = true := by
              intro index
              rw [← List.mem_singleton, ← h, List.mem_filter]
            have hfirst : home = winner := by
              rw [h] at hlive
              exact (List.cons.inj hlive).1.symm
            subst hfirst
            refine ⟨((hmem home).mp rfl).1, .inl ⟨hhome, ?_⟩⟩
            intro index hindex hne
            refine isInUse_eq_false.mp ?_
            by_contra huse
            exact hne ((hmem index).mpr ⟨hindex, by simpa using huse⟩)
        · exact absurd h (ne_singleton_of_two htwo winner)
    · next hlive =>
        obtain ⟨hwinner, havailable, hnewest⟩ := selectNewest_single htwo h
        refine ⟨hwinner, .inr ⟨?_, hnewest⟩⟩
        intro index hindex
        have hnot := List.filter_eq_nil_iff.mp hlive index hindex
        exact ⟨(isInUse_eq_false.mp (by simpa using hnot)).1, havailable index hindex⟩

/-- What it takes for one of several to be chosen. -/
theorem selectNamed_single {winner : Fin choices.length} (htwo : 2 ≤ survivors.length)
    (h : selectNamed lower positive choices survivors = [winner]) :
    Single lower positive choices survivors winner := by
  cases survivors with
  | nil => exact absurd htwo (by simp)
  | cons first rest =>
      simp only [selectNamed] at h
      split at h
      · exact absurd h (ne_singleton_of_two htwo winner)
      · next hlocal =>
          split at h
          · exact absurd h (ne_singleton_of_two htwo winner)
          · next hnames =>
              split at h
              · exact absurd h (ne_singleton_of_two htwo winner)
              · next cwd hcwd =>
                  split at h
                  · exact absurd h (ne_singleton_of_two htwo winner)
                  · next hcwds =>
                      simp only [List.any_eq_true, Bool.or_eq_true, bne_iff_ne,
                        Bool.not_eq_true', decide_eq_true_eq, not_exists, not_and, not_or,
                        not_not, Bool.not_eq_false] at hlocal hnames hcwds
                      obtain ⟨hwinner, hchoice⟩ := selectInUse_single htwo h
                      refine ⟨hlocal.2, ?_, ?_, ⟨cwd, hcwds⟩, hchoice⟩
                      · intro index hindex
                        rw [(hnames index hindex).1, (hnames winner hwinner).1]
                      · intro index hindex
                        rw [(hnames index hindex).2, (hnames winner hwinner).2]

theorem two_le_length {α : Type} {l : List α} {a b : α} (ha : a ∈ l) (hb : b ∈ l) (hne : a ≠ b) :
    2 ≤ l.length := by
  by_contra hlt
  rcases l with _ | ⟨c, _ | ⟨d, l⟩⟩
  · cases ha
  · exact hne ((List.mem_singleton.mp ha).trans (List.mem_singleton.mp hb).symm)
  · simp at hlt

end Representatives

/-- A query of a name that is answered by one conversation, where the representatives of several
pass the archive filter, is answered by the only one of them in use or by the one used last; a
query of an identity keeps all that have it. -/
theorem resolveName_keeps (query : String) :
    (∀ winner, matching choices (isExact query) = [] →
      matching choices (isNamed lower query) ≠ [] →
      resolveName lower positive choices query = .ok [winner] →
      (∃ a ∈ kept choices (matching choices (isNamed lower query)),
        ∃ b ∈ kept choices (matching choices (isNamed lower query)),
          (choices.get a).identity ≠ (choices.get b).identity) →
      Single lower positive choices (kept choices (matching choices (isNamed lower query)))
        winner) ∧
    (∀ index ∈ matching choices (isNamed lower query), (choices.get index).isLocal = true →
      ∃ representative ∈ deduped choices (matching choices (isNamed lower query)),
        (choices.get representative).isLocal = true ∧
        (choices.get representative).identity = (choices.get index).identity ∧
        replaces choices index representative = false) ∧
    (matching choices (isExact query) ≠ [] →
      ∃ result, resolveName lower positive choices query = .ok result ∧
        (∀ identity,
          (∃ index ∈ result, (choices.get index).isLocal = true ∧
            (choices.get index).identity = identity) ↔
          ∃ index ∈ matching choices (isExact query), (choices.get index).isLocal = true ∧
            (choices.get index).identity = identity) ∧
        ∀ index ∈ matching choices (isExact query), (choices.get index).isLocal = false →
          index ∈ result) := by
  refine ⟨?_, fun index h hlocal => representative_of_local h hlocal, ?_⟩
  · intro winner hexact hnamed h hseveral
    obtain ⟨a, ha, b, hb, hne⟩ := hseveral
    have htwo := two_le_length ha hb fun hab => hne (by rw [hab])
    have hkept : (kept choices (matching choices (isNamed lower query))).isEmpty = false :=
      List.isEmpty_eq_false_iff.mpr (List.ne_nil_of_mem ha)
    have hmatched : (matching choices (isNamed lower query)).isEmpty = false :=
      List.isEmpty_eq_false_iff.mpr hnamed
    simp only [resolveName, hexact, reduceNameChoices, hmatched, hkept, List.isEmpty_nil,
      Bool.not_true, Bool.not_false, Bool.false_eq_true, Bool.false_and, if_false, if_true] at h
    exact selectNamed_single htwo (Except.ok.inj h)
  · intro hexact
    refine ⟨deduped choices (matching choices (isExact query)), ?_, ?_, ?_⟩
    · simp [resolveName, reduceNameChoices, hexact]
    · intro identity
      constructor
      · intro hresult
        obtain ⟨index, hindex, hlocal⟩ := hresult
        exact ⟨index, mem_of_deduped hindex, hlocal⟩
      · intro hmatch
        obtain ⟨index, hindex, hlocal, hid⟩ := hmatch
        obtain ⟨representative, hmem, hlocal', hid', -⟩ := representative_of_local hindex hlocal
        exact ⟨representative, hmem, hlocal', hid'.trans hid⟩
    · intro index hindex hlocal
      exact mem_deduped_of_remote hindex hlocal

end Resolve

/-! ### A conversation that is saved twice -/

def savedConversation (sessionId : String) (activeThreadId : Option String) (live exactHome : Bool)
    (state : EvidenceState) (time : Nat) : NameCandidate Nat :=
  { provider := .claude, sessionId := sessionId, activeThreadId := activeThreadId
    name := some "daily", live := live, exactHome := exactHome, status := .ready, isLocal := true
    evidence := ⟨state, some "/work", some time⟩ }

def twoSaved : List (NameCandidate Nat) :=
  [savedConversation "t" none false false .available 5,
    savedConversation "u" none false false .available 7]

instance : NeZero twoSaved.length := ⟨Nat.succ_ne_zero 1⟩

theorem resolveName_keeps_newest :
    Single id (0 < ·) twoSaved (kept twoSaved (matching twoSaved (isNamed id "daily"))) 1 :=
  (resolveName_keeps id (0 < ·) twoSaved "daily").1 1 (by decide) (by decide) (by decide)
    (by decide)

/-- The conversation `t` is saved under its own identity, and in an archived session. -/
def savedTwice : List (NameCandidate Nat) :=
  [savedConversation "s" (some "t") false true .archived 5,
    savedConversation "t" none true false .available 5,
    savedConversation "u" none false false .available 5]

instance : NeZero savedTwice.length := ⟨Nat.succ_ne_zero 2⟩

/-- The archived session represents the conversation, which is live. -/
theorem live_dropped :
    matching savedTwice (isExact "daily") = [] ∧
      matching savedTwice (isNamed id "daily") = [0, 1, 2] ∧
      resolveName id (0 < ·) savedTwice "daily" = .ok [2] ∧
      isKept (savedTwice.get 1) = true ∧ isKept (savedTwice.get 2) = true ∧
      (savedTwice.get 1).identity ≠ (savedTwice.get 2).identity ∧
      (savedTwice.get 1).live = true ∧ (savedTwice.get 2).exactHome = false := by
  decide

end Pikamux.Names
