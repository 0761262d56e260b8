import Mathlib.Data.Nat.ModEq
import Pikamux.Support.Map
import Pikamux.Support.Recent

/-!
# Providers — Scan

`providers.rs`: which transcripts of a home one cycle looks at, when there are too many.

The identities of a home are in order, and a cursor says where the next batch of eight starts.  It
moves by a step that has no divisor in common with their number, so that as many batches as there
are identities start once at each (`exists_start`).  The cursors of 64 homes are kept, those that
were used last.

* `coprimeScanStep_spec` — the search for the step ends.
* `scan_reaches` — in as many batches of a home as it has identities, each identity has its turn,
  whatever up to 63 other homes do in between.
-/

namespace Pikamux.Providers

open Std Support Support.Recent

def maxClaudeTitleTotalBytes : Nat := 16 * 1024 * 1024
def maxClaudeTitleWindowBytes : Nat := 2 * 1024 * 1024
def maxClaudeChangedTitles : Nat := maxClaudeTitleTotalBytes / maxClaudeTitleWindowBytes
def maxClaudeTitleCursorHomes : Nat := 64

/-! ### The step -/

/-- `greatest_common_divisor` -/
def greatestCommonDivisor (left right : Nat) : Nat :=
  if _h : right = 0 then left else greatestCommonDivisor right (left % right)
termination_by right
decreasing_by exact Nat.mod_lt _ (Nat.pos_of_ne_zero _h)

theorem greatestCommonDivisor_eq (left right : Nat) :
    greatestCommonDivisor left right = left.gcd right := by
  fun_induction greatestCommonDivisor left right with
  | case1 left => rw [Nat.gcd_zero_right]
  | case2 left right _ ih => rw [ih, Nat.gcd_comm, ← Nat.gcd_rec, Nat.gcd_comm]

/-- The search for a step, in so many tries. -/
def searchStep (population : Nat) : Nat → Nat → Option Nat
  | 0, _ => none
  | tries + 1, step =>
      if greatestCommonDivisor step population ≠ 1 then searchStep population tries (step + 1)
      else some step

/-- `coprime_scan_step`.  More tries than there are residues are not needed. -/
def coprimeScanStep (batch population : Nat) : Option Nat :=
  searchStep population (population + 1) (max batch 1)

theorem searchStep_spec {population tries step k : Nat} (hk : k < tries)
    (hcoprime : (step + k).Coprime population) :
    ∃ found, searchStep population tries step = some found ∧ found.Coprime population := by
  induction tries generalizing step k with
  | zero => cases hk
  | succ tries ih =>
      rw [searchStep]
      split
      case isTrue hnot =>
        cases k with
        | zero =>
            rw [greatestCommonDivisor_eq] at hnot
            exact absurd hcoprime hnot
        | succ k =>
            rw [← Nat.add_assoc, Nat.add_right_comm] at hcoprime
            exact ih (Nat.lt_of_succ_lt_succ hk) hcoprime
      case isFalse hyes =>
        rw [not_not, greatestCommonDivisor_eq] at hyes
        exact ⟨step, rfl, hyes⟩

/-- The search ends with a step that has no divisor in common with the number of identities. -/
theorem coprimeScanStep_spec {batch population : Nat} (h : population = 0 → batch ≤ 1) :
    ∃ step, coprimeScanStep batch population = some step ∧ step.Coprime population := by
  rcases Nat.eq_zero_or_pos population with rfl | hpos
  · have hbatch : max batch 1 = 1 := Nat.max_eq_right (h rfl)
    rw [coprimeScanStep, hbatch]
    exact @searchStep_spec 0 1 1 0 Nat.one_pos (Nat.coprime_one_left 0)
  · -- of that many numbers in a row, the one after a multiple will do
    rw [coprimeScanStep]
    generalize max batch 1 = first
    have hmultiple : population ∣ first + (population - first % population) % population := by
      have hmod := Nat.mod_add_div first population
      have hlt := Nat.mod_lt first hpos
      by_cases hzero : first % population = 0
      · rw [hzero, Nat.sub_zero, Nat.mod_self]
        exact Nat.dvd_of_mod_eq_zero hzero
      · refine ⟨first / population + 1, ?_⟩
        rw [Nat.mod_eq_of_lt (by omega), Nat.mul_add, Nat.mul_one]
        omega
    obtain ⟨q, hq⟩ := hmultiple
    have hlt := Nat.mod_lt (population - first % population) hpos
    refine searchStep_spec (Nat.succ_lt_succ hlt) ?_
    rw [Nat.succ_eq_add_one, ← Nat.add_assoc, hq]
    simp

/-- A step that has no divisor in common with the number of places meets every place. -/
theorem exists_start {step n place : Nat} (first : Nat) (hcoprime : step.Coprime n)
    (hplace : place < n) : ∃ k < n, (first + k * step) % n = place := by
  have hn : n ≠ 0 := Nat.ne_zero_of_lt hplace
  obtain ⟨k, hk, hmod⟩ := Nat.exists_mul_mod_eq_of_coprime (place + (n - first % n)) hcoprime hn
  refine ⟨k, hk, ?_⟩
  have hlt := Nat.mod_lt first (Nat.pos_of_ne_zero hn)
  rw [Nat.add_mod, Nat.mul_comm k step, hmod, Nat.add_mod_mod]
  have hsum : first % n + (place + (n - first % n)) = place + n := by omega
  rw [hsum, Nat.add_mod_right, Nat.mod_eq_of_lt hplace]

/-! ### Batches -/

section Batches

variable {Home : Type} [DecidableEq Home]

/-- Where the next batch of each home starts. -/
abbrev Cursors (Home : Type) := List (Home × Nat)

/-- `next_claude_scan_batch`, the batch and the cursors. -/
def nextClaudeScanBatch (home : Home) (ordered : List String) (cursors : Cursors Home) :
    Option (ExtTreeSet String compare × Cursors Home) :=
  if h : ordered = [] then some (∅, cursors)
  else
    let cursor := (held home cursors).getD 0 % ordered.length
    let count := min maxClaudeChangedTitles ordered.length
    let selected := (List.range count).map fun offset =>
      ordered.get ⟨(cursor + offset) % ordered.length, Nat.mod_lt _ (List.length_pos_iff.mpr h)⟩
    (coprimeScanStep count ordered.length).map fun step =>
      (ExtTreeSet.ofList selected compare, touch maxClaudeTitleCursorHomes home
        ((cursor + step) % ordered.length) cursors)

/-- A call: a home, and its identities in order. -/
structure Call (Home : Type) where
  home : Home
  ordered : List String

/-- The batch that a call has selected. -/
structure Selected (Home : Type) where
  call : Call Home
  batch : ExtTreeSet String compare

/-- Calls one after the other. -/
def scanCalls : List (Call Home) → Cursors Home → Option (List (Selected Home) × Cursors Home)
  | [], cursors => some ([], cursors)
  | call :: calls, cursors => do
      let (batch, cursors) ← nextClaudeScanBatch call.home call.ordered cursors
      let (later, cursors) ← scanCalls calls cursors
      return ({ call, batch } :: later, cursors)

variable {home : Home} {ordered : List String} {cursors : Cursors Home} {step : Nat}

/-- The step of a list of identities. -/
def IsStep (ordered : List String) (step : Nat) : Prop :=
  coprimeScanStep (min maxClaudeChangedTitles ordered.length) ordered.length = some step

theorem exists_step (ordered : List String) :
    ∃ step, IsStep ordered step ∧ step.Coprime ordered.length := by
  refine coprimeScanStep_spec fun h => ?_
  rw [h, Nat.min_zero]
  exact Nat.zero_le 1

/-- Places in a row, around the end of the list, are not met twice. -/
theorem nodup_places {n count : Nat} (cursor : Nat) (hcount : count ≤ n) :
    ((List.range count).map fun offset => (cursor + offset) % n).Nodup := by
  refine List.Nodup.map_on ?_ List.nodup_range
  intro a ha b hb h
  have hlt {k : Nat} (hk : k ∈ List.range count) : k < n :=
    Nat.lt_of_lt_of_le (List.mem_range.mp hk) hcount
  have hmod : a ≡ b [MOD n] := Nat.ModEq.add_left_cancel' cursor h
  exact Nat.ModEq.eq_of_lt_of_lt hmod (hlt ha) (hlt hb)

/-- A batch: eight identities from the cursor on, or all of them, and the cursor moves by the
step. -/
theorem nextClaudeScanBatch_spec (h : ordered ≠ []) (hstep : IsStep ordered step) :
    ∃ batch, nextClaudeScanBatch home ordered cursors = some (batch,
        touch maxClaudeTitleCursorHomes home
          (((held home cursors).getD 0 % ordered.length + step) % ordered.length) cursors) ∧
      (∀ id, ordered[(held home cursors).getD 0 % ordered.length]? = some id → id ∈ batch) ∧
      (ordered.Nodup → batch.size = min maxClaudeChangedTitles ordered.length) := by
  have hpos := List.length_pos_iff.mpr h
  have hcount : coprimeScanStep (min maxClaudeChangedTitles ordered.length) ordered.length =
      some step := hstep
  simp only [nextClaudeScanBatch, dif_neg h, hcount, Option.map_some]
  refine ⟨_, rfl, fun id hid => ?_, fun hnodup => ?_⟩
  · rw [ExtTreeSet.mem_ofList, List.contains_iff_mem, List.mem_map]
    refine ⟨0, List.mem_range.mpr (Nat.lt_min.mpr ⟨by decide, hpos⟩), ?_⟩
    obtain ⟨hlt, rfl⟩ := List.getElem?_eq_some_iff.mp hid
    simp [Nat.mod_eq_of_lt hlt]
  · have hplaces := nodup_places ((held home cursors).getD 0 % ordered.length)
      (Nat.min_le_right maxClaudeChangedTitles ordered.length)
    rw [ExtTreeSet.size_ofList, List.length_map, List.length_range]
    refine List.pairwise_map.mpr ((List.pairwise_map.mp hplaces).imp fun hne heq => hne ?_)
    have hsame := LawfulEqCmp.eq_of_compare heq
    rw [List.get_eq_getElem, List.get_eq_getElem] at hsame
    exact (hnodup.getElem_inj_iff).mp hsame

/-- Every call ends, and touches at most its own cursor. -/
theorem exists_nextClaudeScanBatch (home : Home) (ordered : List String) (cursors : Cursors Home) :
    ∃ batch after, nextClaudeScanBatch home ordered cursors = some (batch, after) ∧
      (after = cursors ∨ ∃ next, after = touch maxClaudeTitleCursorHomes home next cursors) := by
  by_cases h : ordered = []
  · exact ⟨∅, cursors, by rw [nextClaudeScanBatch, dif_pos h], .inl rfl⟩
  · obtain ⟨step, hstep, -⟩ := exists_step ordered
    obtain ⟨batch, hbatch, -⟩ := @nextClaudeScanBatch_spec _ _ home ordered cursors step h hstep
    exact ⟨batch, _, hbatch, .inr ⟨_, rfl⟩⟩

/-! ### Runs -/

variable {call : Call Home} {calls : List (Call Home)} {results : List (Selected Home)}
  {batch : ExtTreeSet String compare} {others : Finset Home} {first count : Nat}

theorem scanCalls_cons {mid after : Cursors Home}
    (h : nextClaudeScanBatch call.home call.ordered cursors = some (batch, mid))
    (hrest : scanCalls calls mid = some (results, after)) :
    scanCalls (call :: calls) cursors = some ({ call, batch } :: results, after) := by
  simp [scanCalls, h, hrest]

/-- The batches of a home: each of the right size, and among them one that starts at each of the
places the cursor comes to. -/
structure Served (home : Home) (ordered : List String) (step first count : Nat)
    (results : List (Selected Home)) : Prop where
  sizes : ∀ result ∈ results, result.call.home = home →
    result.batch.size = min maxClaudeChangedTitles ordered.length
  starts : ∀ k < count, ∃ result ∈ results, result.call.home = home ∧
    ∀ id, ordered[(first + k * step) % ordered.length]? = some id → id ∈ result.batch

omit [DecidableEq Home] in
theorem Served.other (h : Served home ordered step first count results) (hcall : call.home ≠ home) :
    Served home ordered step first count ({ call, batch } :: results) where
  sizes := List.forall_mem_cons.mpr ⟨fun hhome => absurd hhome hcall, h.sizes⟩
  starts := by
    intro k hk
    obtain ⟨result, hresult, hstart⟩ := h.starts k hk
    exact ⟨result, List.mem_cons_of_mem _ hresult, hstart⟩

omit [DecidableEq Home] in
theorem Served.own (h : Served home ordered step ((first % ordered.length + step) % ordered.length)
      count results) (hcall : call.home = home)
    (hsize : batch.size = min maxClaudeChangedTitles ordered.length)
    (hstart : ∀ id, ordered[first % ordered.length]? = some id → id ∈ batch) :
    Served home ordered step first (count + 1) ({ call, batch } :: results) where
  sizes := List.forall_mem_cons.mpr ⟨fun _ => hsize, h.sizes⟩
  starts := by
    intro k hk
    cases k with
    | zero => exact ⟨_, List.mem_cons_self, hcall, by simpa using hstart⟩
    | succ k =>
        obtain ⟨result, hresult, hhome, hlater⟩ := h.starts k (Nat.lt_of_succ_lt_succ hk)
        refine ⟨result, List.mem_cons_of_mem _ hresult, hhome, ?_⟩
        have hplace : (first + (k + 1) * step) % ordered.length =
            ((first % ordered.length + step) % ordered.length + k * step) % ordered.length := by
          rw [Nat.mod_add_mod, Nat.add_assoc, Nat.mod_add_mod, Nat.succ_mul, Nat.add_comm step]
        rwa [hplace]

/-- The calls of a run: of the home with its list, or of one of the others. -/
def Interleaved (home : Home) (ordered : List String) (others : Finset Home)
    (calls : List (Call Home)) : Prop :=
  ∀ call ∈ calls, call.home = home ∧ call.ordered = ordered ∨ call.home ∈ others

def ownCalls (home : Home) (calls : List (Call Home)) : Nat :=
  (calls.filter fun call => call.home = home).length

section Run

variable (hhome : home ∉ others) (hothers : others.card < maxClaudeTitleCursorHomes)
  (hordered : ordered ≠ []) (hnodup : ordered.Nodup) (hstep : IsStep ordered step)

include hhome hothers hordered hnodup hstep

/-- From a cursor that is kept, the batches of the home start where it says. -/
theorem scanCalls_kept (hcalls : Interleaved home ordered others calls)
    (hkept : Kept others home first cursors) :
    ∃ results after, scanCalls calls cursors = some (results, after) ∧
      Served home ordered step first (ownCalls home calls) results := by
  induction calls generalizing cursors first with
  | nil => exact ⟨[], cursors, rfl, by simp, by simp [ownCalls]⟩
  | cons call calls ih =>
      obtain ⟨hcall, hcalls⟩ := List.forall_mem_cons.mp hcalls
      by_cases hown : call.home = home
      · have hlist : call.ordered = ordered :=
          (hcall.resolve_right fun hin => hhome (hown ▸ hin)).2
        obtain ⟨batch, hbatch, hstart, hsize⟩ :=
          @nextClaudeScanBatch_spec _ _ home ordered cursors step hordered hstep
        rw [hkept.held, Option.getD_some] at hbatch hstart
        obtain ⟨results, after, hrest, hserved⟩ := ih hcalls (kept_touch hkept.1)
        refine ⟨_, after, scanCalls_cons (by rw [hown, hlist]; exact hbatch) hrest, ?_⟩
        rw [ownCalls, List.filter_cons_of_pos (by simpa using hown), List.length_cons]
        exact hserved.own hown (hsize hnodup) hstart
      · have hin := hcall.resolve_left fun h => hown h.1
        obtain ⟨batch, mid, hbatch, hmid⟩ :=
          exists_nextClaudeScanBatch call.home call.ordered cursors
        have hkept : Kept others home first mid := by
          rcases hmid with rfl | ⟨next, rfl⟩
          · exact hkept
          · exact hkept.touch hin hhome hothers
        obtain ⟨results, after, hrest, hserved⟩ := ih hcalls hkept
        refine ⟨_, after, scanCalls_cons hbatch hrest, ?_⟩
        rw [ownCalls, List.filter_cons_of_neg (by simpa using hown)]
        exact hserved.other hown

/-- Whatever is kept, the first batch of the home starts somewhere and the others follow it. -/
theorem scanCalls_any (hcalls : Interleaved home ordered others calls)
    (hcursors : (cursors.map Prod.fst).Nodup) :
    ∃ first results after, scanCalls calls cursors = some (results, after) ∧
      Served home ordered step first (ownCalls home calls) results := by
  induction calls generalizing cursors with
  | nil => exact ⟨0, [], cursors, rfl, by simp, by simp [ownCalls]⟩
  | cons call calls ih =>
      obtain ⟨hcall, hlater⟩ := List.forall_mem_cons.mp hcalls
      by_cases hown : call.home = home
      · have hlist : call.ordered = ordered :=
          (hcall.resolve_right fun hin => hhome (hown ▸ hin)).2
        obtain ⟨batch, hbatch, hstart, hsize⟩ :=
          @nextClaudeScanBatch_spec _ _ home ordered cursors step hordered hstep
        obtain ⟨results, after, hrest, hserved⟩ := scanCalls_kept hhome hothers hordered hnodup
          hstep hlater (kept_touch hcursors)
        refine ⟨(held home cursors).getD 0, _, after,
          scanCalls_cons (by rw [hown, hlist]; exact hbatch) hrest, ?_⟩
        rw [ownCalls, List.filter_cons_of_pos (by simpa using hown), List.length_cons]
        exact hserved.own hown (hsize hnodup) hstart
      · obtain ⟨batch, mid, hbatch, hmid⟩ :=
          exists_nextClaudeScanBatch call.home call.ordered cursors
        have hnext : (mid.map Prod.fst).Nodup := by
          rcases hmid with rfl | ⟨next, rfl⟩
          · exact hcursors
          · exact nodup_touch hcursors
        obtain ⟨first, results, after, hrest, hserved⟩ := ih hlater hnext
        refine ⟨first, _, after, scanCalls_cons hbatch hrest, ?_⟩
        rw [ownCalls, List.filter_cons_of_neg (by simpa using hown)]
        exact hserved.other hown

end Run

/-- Every run ends, with one cursor for each home. -/
theorem exists_scanCalls (calls : List (Call Home)) (hcursors : (cursors.map Prod.fst).Nodup) :
    ∃ results after, scanCalls calls cursors = some (results, after) ∧
      (after.map Prod.fst).Nodup := by
  induction calls generalizing cursors with
  | nil => exact ⟨[], cursors, rfl, hcursors⟩
  | cons call calls ih =>
      obtain ⟨batch, mid, hbatch, hmid⟩ :=
        exists_nextClaudeScanBatch call.home call.ordered cursors
      have hnext : (mid.map Prod.fst).Nodup := by
        rcases hmid with rfl | ⟨next, rfl⟩
        · exact hcursors
        · exact nodup_touch hcursors
      obtain ⟨results, after, hrest, hnodup⟩ := ih hnext
      exact ⟨_, after, scanCalls_cons hbatch hrest, hnodup⟩

/-- After any run, as many calls of a home as it has identities select each of them, and eight or
all of them at a time, whatever up to 63 other homes select in between.  The step is found for every
number of identities. -/
theorem scan_reaches (home : Home) (ordered : List String) (others : Finset Home)
    (earlier calls : List (Call Home)) (hordered : ordered ≠ []) (hnodup : ordered.Nodup)
    (hhome : home ∉ others) (hothers : others.card ≤ 63)
    (hcalls : Interleaved home ordered others calls)
    (hcount : ordered.length ≤ ownCalls home calls) :
    (∃ before cursors results after, scanCalls earlier [] = some (before, cursors) ∧
        scanCalls calls cursors = some (results, after) ∧
        (∀ result ∈ results, result.call.home = home → result.batch.size = min 8 ordered.length) ∧
        ∀ id ∈ ordered, ∃ result ∈ results, result.call.home = home ∧ id ∈ result.batch) ∧
      ∀ n, ∃ step, coprimeScanStep (min 8 n) n = some step ∧ step.Coprime n := by
  refine ⟨?_, fun n => coprimeScanStep_spec fun h => by rw [h]; decide⟩
  obtain ⟨before, cursors, hearlier, hcursors⟩ :=
    @exists_scanCalls Home _ [] earlier (by simp)
  obtain ⟨step, hstep, hcoprime⟩ := exists_step ordered
  obtain ⟨first, results, after, hrun, hserved⟩ := scanCalls_any hhome
    (Nat.lt_succ_of_le hothers) hordered hnodup hstep hcalls hcursors
  refine ⟨before, cursors, results, after, hearlier, hrun, hserved.sizes, fun id hid => ?_⟩
  obtain ⟨place, hplace, rfl⟩ := List.mem_iff_getElem.mp hid
  obtain ⟨k, hk, hmod⟩ := exists_start first hcoprime hplace
  obtain ⟨result, hresult, hown, hstart⟩ := hserved.starts k (Nat.lt_of_lt_of_le hk hcount)
  refine ⟨result, hresult, hown, hstart _ ?_⟩
  rw [hmod, List.getElem?_eq_getElem hplace]

end Batches

/-- Two calls of one home, and one of another between them. -/
def twoCalls : List (Call String) :=
  [{ home := "a", ordered := ["x", "y"] }, { home := "b", ordered := ["z"] },
    { home := "a", ordered := ["x", "y"] }]

theorem scan_reaches_two : ∃ before cursors results after,
    scanCalls ([] : List (Call String)) [] = some (before, cursors) ∧
      scanCalls twoCalls cursors = some (results, after) ∧
      (∀ result ∈ results, result.call.home = "a" → result.batch.size = min 8 2) ∧
      ∀ id ∈ ["x", "y"], ∃ result ∈ results, result.call.home = "a" ∧ id ∈ result.batch :=
  (scan_reaches "a" ["x", "y"] {"b"} [] twoCalls (by simp) (by decide) (by simp) (by simp)
    (by simp [Interleaved, twoCalls]) (by decide)).1

end Pikamux.Providers
