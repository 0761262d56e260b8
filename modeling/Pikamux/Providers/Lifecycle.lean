import Mathlib.Data.Finset.Card
import Mathlib.Data.List.Sort
import Pikamux.Json.Value
import Pikamux.Model
import Pikamux.Providers.Tail
import Pikamux.Support.Table

/-!
# Providers — Lifecycle

`hydrate_codex_lifecycle` in `providers.rs`: what a cycle of reconciliation reads of the transcripts
of Codex conversations.  A cycle has a budget of records and a budget of bytes; a changed record
that was not read shall keep its time, so that a later cycle comes back to it.

* `cursor_kept` — the time of a record passes only what has been read, exactly when the transcripts
  that are selected fit the bytes of the cycle.
-/

namespace Pikamux.Providers

open Support

def maxCodexLifecycleFileBytes : Nat := 2 * 1024 * 1024
def maxCodexLifecycleTotalBytes : Nat := 16 * 1024 * 1024
def maxCodexLifecycleRecords : Nat := 16

/-- A conversation that was found.  Times are only compared. -/
structure Candidate where
  sessionId : String
  transcriptPath : Option String := none
  updatedAt : Int
  parentSessionId : Option String := none
  lifecycleStatus : Option Status := none
  deriving DecidableEq, Repr

/-- The conversations that are watched, each with the time up to which it is known. -/
abbrev Activity := Table String Int

/-- The files of a machine, and `serde_json::from_str`. -/
structure Machine where
  file : String → File
  parse : String → Option Json.Value

section Hydration

variable (machine : Machine)

/-- What an event of a transcript says. -/
def lineStatus (line : String) : Option Status :=
  if "\"event_msg\"".toList <:+: line.toList then do
    let value ← machine.parse line
    let event ← value.get? "payload" >>= (·.get? "type")
    match event.asStr with
    | some "task_started" => some .working
    | some "task_complete" => some .ready
    | _ => none
  else none

/-- The status, and what is left of the budget. -/
def codexLifecycle (path : String) (budget : Nat) : Option Status × Nat :=
  let (lines, budget) := reverseLinesBounded (machine.file path)
    (min maxCodexLifecycleFileBytes budget) budget
  (lines.findSome? (lineStatus machine), budget)

/-! ### Selection -/

/-- A record that is to be read, by its place. -/
structure Due where
  index : Nat
  tracked : Bool
  related : Bool
  updatedAt : Int
  deriving DecidableEq, Repr

def watched (activity : Option Activity) (id : String) : Bool :=
  activity.any (·.contains id)

def isDue (activity : Option Activity) (candidate : Candidate) : Bool :=
  candidate.transcriptPath.isSome &&
    activity.all fun activity => (activity.get? candidate.sessionId).getD 0 < candidate.updatedAt

def isRelated (activity : Option Activity) (candidate : Candidate) : Bool :=
  candidate.parentSessionId.any (watched activity)

def dueRecords (records : List Candidate) (activity : Option Activity) : List Due :=
  (records.zipIdx.filter fun record => isDue activity record.1).map fun record =>
    { index := record.2
      tracked := watched activity record.1.sessionId
      related := isRelated activity record.1
      updatedAt := record.1.updatedAt }

/-- Watched conversations first, then related ones, and then the newest. -/
def Due.precedes (left right : Due) : Prop :=
  right.tracked < left.tracked ∨ right.tracked = left.tracked ∧
    (right.related < left.related ∨ right.related = left.related ∧
      right.updatedAt ≤ left.updatedAt)

instance : DecidableRel Due.precedes := fun _ _ => inferInstanceAs (Decidable (_ ∨ _))

/-- The places of the records that this cycle reads. -/
def selectedRecords (records : List Candidate) (activity : Option Activity) : List Nat :=
  (((dueRecords records activity).insertionSort Due.precedes).take maxCodexLifecycleRecords).map
    Due.index

/-! ### Reading -/

/-- A record after the cycle, and how much of its transcript was read. -/
structure Hydrated where
  candidate : Candidate
  read : Nat
  deriving DecidableEq, Repr

def hydrateRecord (activity : Option Activity) (selected : List Nat)
    (record : Candidate × Nat) (budget : Nat) : Hydrated × Nat :=
  let candidate := record.1
  if record.2 ∈ selected then
    match candidate.transcriptPath with
    | some path =>
        let (status, rest) := codexLifecycle machine path budget
        ({ candidate := { candidate with lifecycleStatus := status }, read := budget - rest }, rest)
    | none => ({ candidate, read := 0 }, budget)
  else
    match (activity.bind (·.get? candidate.sessionId)).filter (· < candidate.updatedAt) with
    | some previous =>
        -- the cursor is not advanced for a changed watched row that did not fit this cycle's budget
        ({ candidate := { candidate with updatedAt := previous }, read := 0 }, budget)
    | none =>
        if activity.isSome && isRelated activity candidate then
          -- a new related fork becomes watched with a zero cursor
          ({ candidate := { candidate with updatedAt := 0 }, read := 0 }, budget)
        else ({ candidate, read := 0 }, budget)

def hydrateRecords (activity : Option Activity) (selected : List Nat) :
    List (Candidate × Nat) → Nat → List Hydrated
  | [], _ => []
  | record :: records, budget =>
      let (hydrated, rest) := hydrateRecord machine activity selected record budget
      hydrated :: hydrateRecords activity selected records rest

/-- `hydrate_codex_lifecycle` -/
def hydrateCodexLifecycle (records : List Candidate) (activity : Option Activity) :
    List Hydrated :=
  hydrateRecords machine activity (selectedRecords records activity) records.zipIdx
    maxCodexLifecycleTotalBytes

end Hydration

/-! ### The budget of bytes -/

section Budget

variable {machine : Machine} {records : List Candidate} {activity : Option Activity}
  {selected : List Nat} {budget i : Nat} {candidate : Candidate} {path : String}

/-- The bytes of the transcript, none when there is no transcript or it cannot be opened. -/
def transcriptSize (machine : Machine) (candidate : Candidate) : Option Nat :=
  candidate.transcriptPath.bind fun path => (machine.file path).map List.length

/-- What a record takes of the budget. -/
def share (machine : Machine) (candidate : Candidate) : Nat :=
  min ((transcriptSize machine candidate).getD 0) maxCodexLifecycleFileBytes

/-- What the selected ones of these records take of the budget. -/
def spent (machine : Machine) (selected : List Nat) (records : List (Candidate × Nat)) : Nat :=
  (records.map fun record => if record.2 ∈ selected then share machine record.1 else 0).sum

theorem share_of_path (hpath : candidate.transcriptPath = some path) :
    share machine candidate =
      min (((machine.file path).map List.length).getD 0) maxCodexLifecycleFileBytes := by
  rw [share, transcriptSize, hpath, Option.bind_some]

theorem codexLifecycle_budget (machine : Machine) (budget : Nat)
    (hpath : candidate.transcriptPath = some path) :
    (codexLifecycle machine path budget).2 = budget - share machine candidate := by
  rw [share_of_path hpath]
  simp only [codexLifecycle, reverseLinesBounded_budget, readSize]
  cases machine.file path with
  | none => simp
  | some bytes =>
      simp only [Option.elim_some, Option.map_some, Option.getD_some]
      omega

theorem hydrateRecord_budget (record : Candidate × Nat) :
    (hydrateRecord machine activity selected record budget).2 =
      budget - if record.2 ∈ selected then share machine record.1 else 0 := by
  unfold hydrateRecord
  dsimp only
  split
  case isTrue =>
    split
    case h_1 path hpath => exact codexLifecycle_budget machine _ hpath
    case h_2 hpath => simp [share, transcriptSize, hpath]
  case isFalse =>
    split
    case h_1 => rfl
    case h_2 => split <;> rfl

/-- Each record is read with what the ones before it have left. -/
theorem hydrateRecords_getElem? (records : List (Candidate × Nat)) (budget i : Nat) :
    (hydrateRecords machine activity selected records budget)[i]? =
      records[i]?.map fun record => (hydrateRecord machine activity selected record
        (budget - spent machine selected (records.take i))).1 := by
  induction records generalizing budget i with
  | nil => rfl
  | cons record records ih =>
      rw [hydrateRecords]
      cases i with
      | zero => simp [spent]
      | succ i =>
          rw [List.getElem?_cons_succ, List.getElem?_cons_succ, ih, hydrateRecord_budget,
            List.take_succ_cons, spent, spent, List.map_cons, List.sum_cons, Nat.sub_sub]

/-- What is left of the budget when a record has its turn. -/
def budgetAt (machine : Machine) (records : List Candidate) (activity : Option Activity) (i : Nat) :
    Nat :=
  maxCodexLifecycleTotalBytes -
    spent machine (selectedRecords records activity) (records.zipIdx.take i)

theorem hydrate_getElem? (machine : Machine) (activity : Option Activity)
    (hrecord : records[i]? = some candidate) :
    (hydrateCodexLifecycle machine records activity)[i]? =
      some (hydrateRecord machine activity (selectedRecords records activity) (candidate, i)
        (budgetAt machine records activity i)).1 := by
  have hzip : records.zipIdx[i]? = some (candidate, i) := by
    rw [List.getElem?_zipIdx, hrecord]
    simp
  rw [hydrateCodexLifecycle, hydrateRecords_getElem?, hzip, Option.map_some, budgetAt]

/-- A record that is selected is read as far as the budget goes. -/
theorem hydrateRecord_selected (hmem : i ∈ selected) (hpath : candidate.transcriptPath = some path) :
    (hydrateRecord machine activity selected (candidate, i) budget).1 =
      { candidate :=
          { candidate with lifecycleStatus := (codexLifecycle machine path budget).1 }
        read := min (share machine candidate) budget } := by
  have hread := codexLifecycle_budget machine budget hpath
  simp only [hydrateRecord, if_pos hmem, hpath]
  rw [hread]
  congr 1
  omega

end Budget

/-! ### What is selected -/

section Selection

variable {records : List Candidate} {activity : Option Activity} {i : Nat} {candidate : Candidate}

theorem mem_dueRecords {due : Due} : due ∈ dueRecords records activity ↔
    ∃ candidate, records[due.index]? = some candidate ∧ isDue activity candidate = true ∧
      due.tracked = watched activity candidate.sessionId ∧
      due.related = isRelated activity candidate ∧ due.updatedAt = candidate.updatedAt := by
  simp only [dueRecords, List.mem_map, List.mem_filter]
  constructor
  · rintro ⟨⟨candidate, i⟩, ⟨hmem, hdue⟩, rfl⟩
    exact ⟨candidate, List.mk_mem_zipIdx_iff_getElem?.mp hmem, hdue, rfl, rfl, rfl⟩
  · rintro ⟨candidate, hrecord, hdue, htracked, hrelated, hupdated⟩
    refine ⟨(candidate, due.index), ⟨List.mk_mem_zipIdx_iff_getElem?.mpr hrecord, hdue⟩, ?_⟩
    rw [← htracked, ← hrelated, ← hupdated]

/-- What is selected is due. -/
theorem due_of_selected (h : i ∈ selectedRecords records activity) :
    ∃ candidate, records[i]? = some candidate ∧ isDue activity candidate = true := by
  obtain ⟨due, hmem, rfl⟩ := List.mem_map.mp h
  have hdue := (List.mem_insertionSort _).mp (List.mem_of_mem_take hmem)
  obtain ⟨candidate, hrecord, hdue, -⟩ := mem_dueRecords.mp hdue
  exact ⟨candidate, hrecord, hdue⟩

theorem precedes_total (left right : Due) : left.precedes right ∨ right.precedes left := by
  obtain ⟨-, tracked, related, time⟩ := left
  obtain ⟨-, tracked', related', time'⟩ := right
  cases tracked <;> cases tracked' <;> cases related <;> cases related' <;>
    simp [Due.precedes] <;> omega

theorem precedes_trans {a b c : Due} (h : a.precedes b) (h' : b.precedes c) : a.precedes c := by
  rcases h with h | ⟨htracked, h⟩
  · rcases h' with h' | ⟨htracked', -⟩
    · exact .inl (h'.trans h)
    · exact .inl (htracked' ▸ h)
  rcases h' with h' | ⟨htracked', h'⟩
  · exact .inl (htracked ▸ h')
  refine .inr ⟨htracked'.trans htracked, ?_⟩
  rcases h with h | ⟨hrelated, h⟩
  · rcases h' with h' | ⟨hrelated', -⟩
    · exact .inl (h'.trans h)
    · exact .inl (hrelated' ▸ h)
  rcases h' with h' | ⟨hrelated', h'⟩
  · exact .inl (hrelated ▸ h')
  · exact .inr ⟨hrelated'.trans hrelated, h'.trans h⟩

theorem precedes_tracked {left right : Due} (h : left.precedes right)
    (hright : right.tracked = true) : left.tracked = true := by
  rcases h with h | ⟨h, -⟩
  · rw [hright] at h
    exact absurd (Bool.lt_iff.mp h).1 (by decide)
  · rw [← h, hright]

/-- A watched record that is due is only passed over for other ones. -/
theorem watched_selected (hrecord : records[i]? = some candidate)
    (hdue : isDue activity candidate = true) (hwatched : watched activity candidate.sessionId = true)
    (hout : i ∉ selectedRecords records activity) :
    ∃ j ∈ selectedRecords records activity, ∃ other, records[j]? = some other ∧
      isDue activity other = true ∧ watched activity other.sessionId = true := by
  let sorted := (dueRecords records activity).insertionSort Due.precedes
  have hsorted : sorted.Pairwise Due.precedes := by
    have htotal : Std.Total Due.precedes := ⟨precedes_total⟩
    have htrans : IsTrans Due Due.precedes := ⟨fun _ _ _ => precedes_trans⟩
    exact List.pairwise_insertionSort Due.precedes _
  let due : Due :=
    { index := i
      tracked := watched activity candidate.sessionId
      related := isRelated activity candidate
      updatedAt := candidate.updatedAt }
  have hmem : due ∈ sorted := (List.mem_insertionSort _).mpr
    (mem_dueRecords.mpr ⟨candidate, hrecord, hdue, rfl, rfl, rfl⟩)
  rw [← List.take_append_drop maxCodexLifecycleRecords sorted] at hsorted hmem
  have hlate : due ∈ sorted.drop maxCodexLifecycleRecords := by
    rcases List.mem_append.mp hmem with h | h
    · exact absurd (List.mem_map_of_mem h) hout
    · exact h
  have hfull : sorted.take maxCodexLifecycleRecords ≠ [] := by
    intro hnil
    have hnone : sorted = [] := by
      rcases List.take_eq_nil_iff.mp hnil with h | h
      · cases h
      · exact h
    rw [hnone, List.drop_nil] at hlate
    cases hlate
  obtain ⟨first, hfirst⟩ := List.exists_mem_of_ne_nil _ hfull
  have htracked : first.tracked = true :=
    precedes_tracked ((List.pairwise_append.mp hsorted).2.2 first hfirst due hlate) hwatched
  obtain ⟨other, hother, hdue', htracked', -⟩ :=
    mem_dueRecords.mp ((List.mem_insertionSort _).mp (List.mem_of_mem_take hfirst))
  exact ⟨first.index, List.mem_map_of_mem hfirst, other, hother, hdue', htracked' ▸ htracked⟩

end Selection

/-! ### The cursor -/

section Cursor

variable {machine : Machine} {records : List Candidate} {activity : Activity} {i : Nat}
  {candidate : Candidate}

/-- Every changed watched record whose time is still greater than what is known has been read up to
the bound of a file. -/
def NeverPasses (machine : Machine) (records : List Candidate) (activity : Activity) : Prop :=
  ∀ (i : Nat) (candidate : Candidate), records[i]? = some candidate → ∀ hydrated : Hydrated,
    (hydrateCodexLifecycle machine records (some activity))[i]? = some hydrated →
    ∀ previous, activity.get? candidate.sessionId = some previous →
      previous < candidate.updatedAt → previous < hydrated.candidate.updatedAt →
      ∃ size, transcriptSize machine candidate = some size ∧
        hydrated.read = min size maxCodexLifecycleFileBytes

/-- The transcripts of the watched records that are selected can be opened, and what is left of the
budget pays for each. -/
def Fits (machine : Machine) (records : List Candidate) (activity : Activity) : Prop :=
  ∀ i ∈ selectedRecords records (some activity), ∀ candidate, records[i]? = some candidate →
    activity.contains candidate.sessionId = true →
    ∃ size, transcriptSize machine candidate = some size ∧
      min size maxCodexLifecycleFileBytes ≤ budgetAt machine records (some activity) i

theorem isDue_iff : isDue (some activity) candidate = true ↔
    (∃ path, candidate.transcriptPath = some path) ∧
      (activity.get? candidate.sessionId).getD 0 < candidate.updatedAt := by
  simp [isDue, Option.isSome_iff_exists]

/-- A changed watched record that is not selected keeps the time that is known. -/
theorem hydrateRecord_unselected {selected : List Nat} {budget : Nat} {previous : Int}
    (hout : i ∉ selected) (hprevious : activity.get? candidate.sessionId = some previous)
    (hchanged : previous < candidate.updatedAt) :
    (hydrateRecord machine (some activity) selected (candidate, i) budget).1.candidate =
      { candidate with updatedAt := previous } := by
  have hcursor : ((some activity).bind (·.get? candidate.sessionId)).filter
      (· < candidate.updatedAt) = some previous := by
    rw [Option.bind_some, hprevious]
    simp [hchanged]
  simp only [hydrateRecord, if_neg hout, hcursor]

/-- The cursor never passes unread evidence exactly when what is selected fits the budget. -/
theorem neverPasses_iff : NeverPasses machine records activity ↔ Fits machine records activity := by
  constructor
  · intro h i hmem candidate hrecord hwatched
    obtain ⟨other, hother, hdue⟩ := due_of_selected hmem
    obtain rfl : candidate = other := Option.some.inj (hrecord.symm.trans hother)
    obtain ⟨⟨path, hpath⟩, hlater⟩ := isDue_iff.mp hdue
    obtain ⟨previous, hprevious⟩ := Option.isSome_iff_exists.mp hwatched
    rw [hprevious, Option.getD_some] at hlater
    have hhydrated := hydrate_getElem? machine (some activity) hrecord
    rw [hydrateRecord_selected hmem hpath] at hhydrated
    obtain ⟨size, hsize, hread⟩ := h i candidate hrecord _ hhydrated previous hprevious hlater hlater
    refine ⟨size, hsize, ?_⟩
    rw [← hread]
    exact Nat.min_le_right _ _
  · intro h i candidate hrecord hydrated hhydrated previous hprevious hchanged hlater
    rw [hydrate_getElem? machine (some activity) hrecord, Option.some.injEq] at hhydrated
    subst hhydrated
    by_cases hmem : i ∈ selectedRecords records (some activity)
    · obtain ⟨other, hother, hdue⟩ := due_of_selected hmem
      obtain rfl : candidate = other := Option.some.inj (hrecord.symm.trans hother)
      obtain ⟨⟨path, hpath⟩, -⟩ := isDue_iff.mp hdue
      obtain ⟨size, hsize, hfits⟩ := h i hmem candidate hrecord (by simp [Table.contains, hprevious])
      refine ⟨size, hsize, ?_⟩
      rw [hydrateRecord_selected hmem hpath]
      dsimp only
      rw [share, hsize, Option.getD_some]
      exact Nat.min_eq_left hfits
    · rw [hydrateRecord_unselected hmem hprevious hchanged] at hlater
      exact absurd hlater (lt_irrefl previous)

/-! ### Cycles -/

/-- What is known after a cycle: the times that it has reported. -/
def advance (hydrated : List Hydrated) (activity : Activity) : Activity :=
  activity.update fun id previous =>
    (hydrated.find? fun record => record.candidate.sessionId = id).elim previous fun record =>
      max previous record.candidate.updatedAt

/-- What is known after `n` cycles in which the same records are found. -/
def cycles (machine : Machine) (records : List Candidate) (activity : Activity) : Nat → Activity
  | 0 => activity
  | n + 1 =>
      let activity := cycles machine records activity n
      advance (hydrateCodexLifecycle machine records (some activity)) activity

/-- What the tail of a transcript says. -/
def tailStatus (machine : Machine) (candidate : Candidate) : Option Status := do
  let bytes ← candidate.transcriptPath.bind machine.file
  (lastLines (min bytes.length maxCodexLifecycleFileBytes) bytes).findSome? (lineStatus machine)

/-- A watched record that was changed and has a transcript. -/
def outstanding (records : List Candidate) (activity : Activity) (i : Nat) : Bool :=
  records[i]?.any fun candidate =>
    isDue (some activity) candidate && activity.contains candidate.sessionId

theorem find?_of_nodup {α κ : Type} [DecidableEq κ] (key : α → κ) {l : List α} {n : Nat} {a : α}
    (hkeys : (l.map key).Nodup) (ha : l[n]? = some a) :
    l.find? (fun b => key b = key a) = some a := by
  induction l generalizing n with
  | nil => cases ha
  | cons b l ih =>
      rw [List.map_cons, List.nodup_cons] at hkeys
      cases n with
      | zero =>
          obtain rfl : b = a := by simpa using ha
          simp
      | succ n =>
          rw [List.getElem?_cons_succ] at ha
          have hne : key b ≠ key a := fun heq =>
            hkeys.1 (heq ▸ List.mem_map_of_mem (List.mem_of_getElem? ha))
          rw [List.find?_cons_of_neg (by simpa using hne)]
          exact ih hkeys.2 ha

theorem hydrateRecord_sessionId {activity : Option Activity} {selected : List Nat}
    (record : Candidate × Nat) (budget : Nat) :
    (hydrateRecord machine activity selected record budget).1.candidate.sessionId =
      record.1.sessionId := by
  unfold hydrateRecord
  dsimp only
  split
  case isTrue => split <;> rfl
  case isFalse =>
    split
    case h_1 => rfl
    case h_2 => split <;> rfl

theorem hydrate_sessionIds (machine : Machine) (records : List Candidate)
    (activity : Option Activity) :
    (hydrateCodexLifecycle machine records activity).map (·.candidate.sessionId) =
      records.map Candidate.sessionId := by
  refine List.ext_getElem? fun i => ?_
  rw [List.getElem?_map, List.getElem?_map]
  cases hrecord : records[i]? with
  | none =>
      rw [hydrateCodexLifecycle, hydrateRecords_getElem?, List.getElem?_zipIdx, hrecord]
      rfl
  | some candidate =>
      rw [hydrate_getElem? machine activity hrecord, Option.map_some, Option.map_some,
        hydrateRecord_sessionId]

/-- What is known of a watched record after one more cycle. -/
theorem advance_get? {previous : Int} (hids : (records.map Candidate.sessionId).Nodup)
    (hrecord : records[i]? = some candidate)
    (hprevious : activity.get? candidate.sessionId = some previous) :
    (advance (hydrateCodexLifecycle machine records (some activity)) activity).get?
        candidate.sessionId =
      some (max previous (hydrateRecord machine (some activity)
        (selectedRecords records (some activity)) (candidate, i)
        (budgetAt machine records (some activity) i)).1.candidate.updatedAt) := by
  let hydrated := (hydrateRecord machine (some activity)
    (selectedRecords records (some activity)) (candidate, i)
    (budgetAt machine records (some activity) i)).1
  have hid : hydrated.candidate.sessionId = candidate.sessionId := hydrateRecord_sessionId _ _
  have hfind : (hydrateCodexLifecycle machine records (some activity)).find?
      (fun record => record.candidate.sessionId = candidate.sessionId) = some hydrated := by
    rw [← hid]
    refine find?_of_nodup (fun record : Hydrated => record.candidate.sessionId) ?_
      (hydrate_getElem? machine (some activity) hrecord)
    rw [hydrate_sessionIds]
    exact hids
  rw [advance, Table.get?_update, hprevious, Option.map_some, hfind, Option.elim_some]

theorem outstanding_iff (hrecord : records[i]? = some candidate) :
    outstanding records activity i = true ↔ ∃ path previous,
      candidate.transcriptPath = some path ∧
      activity.get? candidate.sessionId = some previous ∧ previous < candidate.updatedAt := by
  rw [outstanding, hrecord, Option.any_some, Bool.and_eq_true, isDue_iff, Table.contains,
    Option.isSome_iff_exists]
  constructor
  · rintro ⟨⟨⟨path, hpath⟩, hlt⟩, previous, hprevious⟩
    rw [hprevious] at hlt
    exact ⟨path, previous, hpath, hprevious, hlt⟩
  · rintro ⟨path, previous, hpath, hprevious, hlt⟩
    exact ⟨⟨⟨path, hpath⟩, by rwa [hprevious]⟩, previous, hprevious⟩

/-- A cycle leaves nothing outstanding that was not, and nothing that it has read. -/
theorem outstanding_of_advance (hids : (records.map Candidate.sessionId).Nodup)
    (h : outstanding records
      (advance (hydrateCodexLifecycle machine records (some activity)) activity) i = true) :
    outstanding records activity i = true ∧ i ∉ selectedRecords records (some activity) := by
  cases hrecord : records[i]? with
  | none =>
      rw [outstanding, hrecord] at h
      cases h
  | some candidate =>
      obtain ⟨path, later, hpath, hlater, hlt⟩ := (outstanding_iff hrecord).mp h
      obtain ⟨previous, hprevious⟩ : ∃ previous, activity.get? candidate.sessionId =
          some previous := by
        rw [advance, Table.get?_update] at hlater
        obtain ⟨previous, hprevious, -⟩ := Option.map_eq_some_iff.mp hlater
        exact ⟨previous, hprevious⟩
      rw [advance_get? hids hrecord hprevious, Option.some.injEq] at hlater
      have hchanged : previous < candidate.updatedAt :=
        lt_of_le_of_lt (le_max_left _ _) (hlater ▸ hlt)
      refine ⟨(outstanding_iff hrecord).mpr ⟨path, previous, hpath, hprevious, hchanged⟩,
        fun hmem => ?_⟩
      rw [hydrateRecord_selected hmem hpath] at hlater
      exact absurd (hlater ▸ le_max_right previous candidate.updatedAt) (not_le.mpr hlt)

/-- What is outstanding and is not selected stays so. -/
theorem outstanding_advance (hids : (records.map Candidate.sessionId).Nodup)
    (hout : outstanding records activity i = true)
    (hunselected : i ∉ selectedRecords records (some activity)) :
    outstanding records
      (advance (hydrateCodexLifecycle machine records (some activity)) activity) i = true := by
  cases hrecord : records[i]? with
  | none =>
      rw [outstanding, hrecord] at hout
      cases hout
  | some candidate =>
      obtain ⟨path, previous, hpath, hprevious, hchanged⟩ := (outstanding_iff hrecord).mp hout
      refine (outstanding_iff hrecord).mpr ⟨path, _, hpath, advance_get? hids hrecord hprevious, ?_⟩
      rw [hydrateRecord_unselected hunselected hprevious hchanged, max_self]
      exact hchanged

/-- How many records are outstanding. -/
def remaining (records : List Candidate) (activity : Activity) : Nat :=
  ((Finset.range records.length).filter fun i => outstanding records activity i = true).card

/-- While a record is passed over, fewer others are left. -/
theorem remaining_advance (machine : Machine)
    (hids : (records.map Candidate.sessionId).Nodup)
    (hout : outstanding records activity i = true)
    (hunselected : i ∉ selectedRecords records (some activity)) :
    remaining records (advance (hydrateCodexLifecycle machine records (some activity)) activity) <
      remaining records activity := by
  cases hrecord : records[i]? with
  | none =>
      rw [outstanding, hrecord] at hout
      cases hout
  | some candidate =>
      rw [outstanding, hrecord, Option.any_some, Bool.and_eq_true] at hout
      obtain ⟨j, hj, other, hother, hdue, hwatched⟩ := watched_selected hrecord hout.1
        (by simpa [watched] using hout.2) hunselected
      refine Finset.card_lt_card (Finset.ssubset_iff_of_subset ?_ |>.mpr ⟨j, ?_, ?_⟩)
      · intro k hk
        rw [Finset.mem_filter] at hk ⊢
        exact ⟨hk.1, (outstanding_of_advance hids hk.2).1⟩
      · rw [Finset.mem_filter, Finset.mem_range]
        refine ⟨(List.getElem?_eq_some_iff.mp hother).1, ?_⟩
        rw [outstanding, hother, Option.any_some, hdue, Bool.true_and]
        simpa [watched] using hwatched
      · rw [Finset.mem_filter]
        rintro ⟨-, hstill⟩
        exact (outstanding_of_advance hids hstill).2 hj

/-- A watched record with a transcript is selected in some cycle. -/
theorem selected_eventually (machine : Machine)
    (hids : (records.map Candidate.sessionId).Nodup) (n : Nat)
    (hout : outstanding records (cycles machine records activity n) i = true) :
    ∃ k ≥ n, outstanding records (cycles machine records activity k) i = true ∧
      i ∈ selectedRecords records (some (cycles machine records activity k)) := by
  generalize hremaining : remaining records (cycles machine records activity n) = left
  induction left using Nat.strongRecOn generalizing n with
  | ind left ih =>
      by_cases hmem : i ∈ selectedRecords records (some (cycles machine records activity n))
      · exact ⟨n, Nat.le_refl n, hout, hmem⟩
      · have hless := remaining_advance machine hids hout hmem
        obtain ⟨k, hk, hfound⟩ := ih _ (hremaining ▸ hless) (n + 1)
          (outstanding_advance hids hout hmem) rfl
        exact ⟨k, by omega, hfound⟩

/-- A record that is selected and fits shows what its tail says. -/
theorem hydrated_of_fits (hfits : Fits machine records activity)
    (hmem : i ∈ selectedRecords records (some activity)) (hrecord : records[i]? = some candidate)
    (hwatched : activity.contains candidate.sessionId = true) :
    ∃ hydrated, (hydrateCodexLifecycle machine records (some activity))[i]? = some hydrated ∧
      hydrated.candidate.updatedAt = candidate.updatedAt ∧
      hydrated.candidate.lifecycleStatus = tailStatus machine candidate := by
  obtain ⟨size, hsize, hle⟩ := hfits i hmem candidate hrecord hwatched
  obtain ⟨path, hpath, bytes, hbytes, rfl⟩ : ∃ path, candidate.transcriptPath = some path ∧
      ∃ bytes, machine.file path = some bytes ∧ bytes.length = size := by
    obtain ⟨path, hpath, hmap⟩ := Option.bind_eq_some_iff.mp hsize
    obtain ⟨bytes, hbytes, hlength⟩ := Option.map_eq_some_iff.mp hmap
    exact ⟨path, hpath, bytes, hbytes, hlength⟩
  refine ⟨_, hydrate_getElem? machine (some activity) hrecord, ?_⟩
  rw [hydrateRecord_selected hmem hpath]
  refine ⟨rfl, ?_⟩
  generalize budgetAt machine records (some activity) i = budget at hle
  dsimp only
  rw [codexLifecycle, hbytes, tailStatus, hpath, Option.bind_some, hbytes]
  by_cases hbudget : budget = 0
  · have hempty : min bytes.length maxCodexLifecycleFileBytes = 0 := by omega
    have hnil : bytes = [] := by
      rw [← List.length_eq_zero_iff]
      rw [maxCodexLifecycleFileBytes] at hempty
      omega
    subst hbudget hnil
    rfl
  · have hlimit : min maxCodexLifecycleFileBytes budget ≠ 0 := by
      rw [maxCodexLifecycleFileBytes]
      omega
    have hread : readSize (some bytes) (min maxCodexLifecycleFileBytes budget) budget =
        min bytes.length maxCodexLifecycleFileBytes := by
      rw [readSize, Option.elim_some]
      omega
    dsimp only
    rw [reverseLinesBounded_lines hlimit hbudget, hread]
    rfl

/-- The cursor never passes unread evidence exactly when what is selected fits the budget.  When it
does in every cycle, every changed watched record with a transcript shows in some cycle what its
tail says. -/
theorem cursor_kept (machine : Machine) (records : List Candidate) (activity : Activity) :
    (NeverPasses machine records activity ↔ Fits machine records activity) ∧
      ((records.map Candidate.sessionId).Nodup →
        (∀ n, Fits machine records (cycles machine records activity n)) →
        ∀ (i : Nat) (candidate : Candidate), records[i]? = some candidate →
          outstanding records activity i = true →
          ∃ n hydrated, (hydrateCodexLifecycle machine records
              (some (cycles machine records activity n)))[i]? = some hydrated ∧
            hydrated.candidate.updatedAt = candidate.updatedAt ∧
            hydrated.candidate.lifecycleStatus = tailStatus machine candidate) := by
  refine ⟨neverPasses_iff, fun hids hfits i candidate hrecord hout => ?_⟩
  obtain ⟨n, -, hstill, hmem⟩ := selected_eventually machine hids 0 hout
  rw [outstanding, hrecord, Option.any_some, Bool.and_eq_true] at hstill
  obtain ⟨hydrated, hhydrated, hshown⟩ := hydrated_of_fits (hfits n) hmem hrecord hstill.2
  exact ⟨n, hydrated, hhydrated, hshown⟩

/-- One watched transcript of one line. -/
def shortMachine : Machine where
  file _ := some "\"event_msg\"\n".toUTF8.toList
  parse _ := some (.object [("payload", .object [("type", .string "task_complete")])])

def shortRecord : Candidate := { sessionId := "a", transcriptPath := some "t", updatedAt := 1 }

theorem cursor_kept_short :
    ∃ n hydrated, (hydrateCodexLifecycle shortMachine [shortRecord]
        (some (cycles shortMachine [shortRecord] ⟨[("a", 0)], by decide⟩ n)))[0]? = some hydrated ∧
      hydrated.candidate.updatedAt = 1 ∧
      hydrated.candidate.lifecycleStatus = tailStatus shortMachine shortRecord := by
  refine (cursor_kept shortMachine [shortRecord] ⟨[("a", 0)], by decide⟩).2 (by simp) ?_ 0
    shortRecord rfl (by decide +kernel)
  intro n i _ candidate hrecord _
  cases i with
  | succ i => cases hrecord
  | zero =>
      obtain rfl : shortRecord = candidate := by simpa using hrecord
      refine ⟨12, by decide +kernel, ?_⟩
      simp [budgetAt, spent, maxCodexLifecycleTotalBytes]

end Cursor

/-! ### More than the budget -/

/-- Nine transcripts of two MiB. -/
def longRecords : List Candidate :=
  ["a", "b", "c", "d", "e", "f", "g", "h", "i"].map fun sessionId =>
    { sessionId, transcriptPath := some "t", updatedAt := 1 }

def longActivity : Activity :=
  ⟨[("a", 0), ("b", 0), ("c", 0), ("d", 0), ("e", 0), ("f", 0), ("g", 0), ("h", 0), ("i", 0)],
    by decide⟩

def longMachine : Machine where
  file _ := some (List.replicate maxCodexLifecycleFileBytes 97)
  parse _ := none

/-- All nine are selected; eight of them take the budget of a cycle, and the time of the ninth is
reported although nothing of it was read. -/
theorem cursor_passes : ¬NeverPasses longMachine longRecords longActivity := by
  rw [neverPasses_iff]
  intro hfits
  have hselected : selectedRecords longRecords (some longActivity) =
      [0, 1, 2, 3, 4, 5, 6, 7, 8] := by decide +kernel
  have hsize (candidate : Candidate) (h : candidate.transcriptPath = some "t") :
      transcriptSize longMachine candidate = some maxCodexLifecycleFileBytes := by
    rw [transcriptSize, h, Option.bind_some, longMachine, Option.map_some, List.length_replicate]
  have hspent : spent longMachine [0, 1, 2, 3, 4, 5, 6, 7, 8] (longRecords.zipIdx.take 8) =
      maxCodexLifecycleTotalBytes := by
    simp [spent, longRecords, share, hsize, maxCodexLifecycleFileBytes,
      maxCodexLifecycleTotalBytes]
  obtain ⟨size, hninth, hle⟩ := hfits 8 (by rw [hselected]; decide)
    { sessionId := "i", transcriptPath := some "t", updatedAt := 1 } rfl (by decide +kernel)
  rw [hsize _ rfl, Option.some.injEq] at hninth
  rw [budgetAt, hselected, hspent, ← hninth] at hle
  simp [maxCodexLifecycleFileBytes] at hle

end Pikamux.Providers
