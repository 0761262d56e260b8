import Pikamux.Support.Lines
import Pikamux.Support.Utf8

/-!
# Providers — Tail

`reverse_lines_bounded` in `providers.rs`: the last lines of a file, the last one first, read in
chunks from its end up to a limit and a budget that several files share.

* `reverseLinesBounded_budget` — how much is read.
* `reverseLinesBounded_lines` — what is read, whatever the chunks are.
* `reverse_lines_behind` — these are the lines of the file that begin behind a newline of what is
  read, or with the file.
-/

namespace Pikamux.Providers

open Support

def newline : UInt8 := 10

/-- The file as it is read, none when it cannot be opened. -/
abbrev File := Option (List UInt8)

/-- The loop's variables. -/
structure Tail where
  position : Nat
  scanned : Nat := 0
  budget : Nat
  remainder : List UInt8 := []
  output : List String := []

/-- Lines that are not empty, as text. -/
def texts (lines : List (List UInt8)) : List String :=
  (lines.filter (· ≠ [])).map fromUtf8Lossy

/-- The bytes of the next chunk. -/
def Tail.size (tail : Tail) (limit : Nat) : Nat :=
  min (min (min tail.position 65536) (limit - tail.scanned)) tail.budget

/-- Read the chunk before what has been read. -/
def Tail.step (bytes : List UInt8) (limit : Nat) (tail : Tail) : Tail :=
  let size := tail.size limit
  let position := tail.position - size
  let chunk := (bytes.drop position).take size ++ tail.remainder
  { position
    scanned := tail.scanned + size
    budget := tail.budget - size
    remainder := (pieces newline chunk).1
    output := tail.output ++ texts (pieces newline chunk).2.reverse }

def Tail.continues (limit : Nat) (tail : Tail) : Bool :=
  0 < tail.position && tail.scanned < limit && 0 < tail.budget

/-- At most `n` turns of the loop. -/
def Tail.loop (bytes : List UInt8) (limit : Nat) : Nat → Tail → Tail
  | 0, tail => tail
  | n + 1, tail =>
      if tail.continues limit then loop bytes limit n (tail.step bytes limit) else tail

/-- The lines, and what is left of the budget.  Every chunk has a byte, so there are no more turns
than bytes. -/
def reverseLinesBounded (file : File) (limit budget : Nat) : List String × Nat :=
  if limit = 0 ∨ budget = 0 then ([], budget)
  else
    match file with
    | none => ([], budget)
    | some bytes =>
        let tail := Tail.loop bytes limit bytes.length { position := bytes.length, budget }
        -- a first line that is not complete is not interpreted
        (if tail.position = 0 then tail.output ++ texts [tail.remainder] else tail.output,
          tail.budget)

/-! ### What it reads -/

/-- The last `n` bytes. -/
def lastBytes (n : Nat) (bytes : List UInt8) : List UInt8 := bytes.drop (bytes.length - n)

/-- The complete lines of the last `n` bytes, the last one first. -/
def lastLines (n : Nat) (bytes : List UInt8) : List String :=
  texts (pieces newline (lastBytes n bytes)).2.reverse ++
    if bytes.length ≤ n then texts [(pieces newline bytes).1] else []

section Loop

variable {bytes : List UInt8} {limit budget : Nat} {tail : Tail}

/-- What the loop has read. -/
structure Reads (bytes : List UInt8) (limit budget : Nat) (tail : Tail) : Prop where
  position : tail.position + tail.scanned = bytes.length
  limit : tail.scanned ≤ limit
  budget : tail.budget + tail.scanned = budget
  remainder : tail.remainder = (pieces newline (lastBytes tail.scanned bytes)).1
  output : tail.output = texts (pieces newline (lastBytes tail.scanned bytes)).2.reverse

theorem texts_append (x y : List (List UInt8)) : texts (x ++ y) = texts x ++ texts y := by
  simp [texts]

theorem reads_start (bytes : List UInt8) (limit budget : Nat) :
    Reads bytes limit budget { position := bytes.length, budget } where
  position := rfl
  limit := Nat.zero_le limit
  budget := rfl
  remainder := by simp [lastBytes, pieces]
  output := by simp [lastBytes, pieces, texts]

theorem Tail.size_pos (h : tail.continues limit = true) : 0 < tail.size limit := by
  simp only [Tail.continues, Bool.and_eq_true, decide_eq_true_eq] at h
  rw [Tail.size]
  omega

/-- One more chunk. -/
theorem Reads.step (h : Reads bytes limit budget tail) :
    Reads bytes limit budget (tail.step bytes limit) := by
  obtain ⟨hposition, hlimit, hbudget, hremainder, houtput⟩ := h
  have hsize : tail.size limit ≤ tail.position ∧ tail.size limit ≤ limit - tail.scanned ∧
      tail.size limit ≤ tail.budget := by
    rw [Tail.size]
    omega
  have hlast : lastBytes (tail.scanned + tail.size limit) bytes =
      (bytes.drop (tail.position - tail.size limit)).take (tail.size limit) ++
        lastBytes tail.scanned bytes := by
    have hstart : bytes.length - (tail.scanned + tail.size limit) =
        tail.position - tail.size limit := by omega
    have hrest : bytes.length - tail.scanned = tail.position - tail.size limit +
        tail.size limit := by omega
    rw [lastBytes, lastBytes, hstart, hrest, ← List.drop_drop, List.take_append_drop]
  have hpieces := pieces_append newline
    ((bytes.drop (tail.position - tail.size limit)).take (tail.size limit))
    (lastBytes tail.scanned bytes)
  rw [← hlast, ← hremainder] at hpieces
  refine ⟨?_, ?_, ?_, ?_, ?_⟩
  · rw [Tail.step]
    dsimp only
    omega
  · rw [Tail.step]
    dsimp only
    omega
  · rw [Tail.step]
    dsimp only
    omega
  · rw [Tail.step]
    dsimp only
    rw [hpieces]
  · rw [Tail.step]
    dsimp only
    rw [hpieces, List.reverse_append, texts_append, houtput]

/-- The loop ends with as much as the file, the limit and the budget allow. -/
theorem Reads.loop {n : Nat} (h : Reads bytes limit budget tail) (hn : tail.position ≤ n) :
    Reads bytes limit budget (tail.loop bytes limit n) ∧
      (tail.loop bytes limit n).continues limit = false := by
  induction n generalizing tail with
  | zero =>
      refine ⟨h, ?_⟩
      rw [Tail.loop, Tail.continues, Nat.le_zero.mp hn]
      rfl
  | succ n ih =>
      rw [Tail.loop]
      split
      case isTrue hcontinues =>
        refine ih h.step ?_
        have hpos := Tail.size_pos hcontinues
        rw [Tail.step]
        dsimp only
        omega
      case isFalse hcontinues => exact ⟨h, by simpa using hcontinues⟩

theorem scanned_of_ended (h : Reads bytes limit budget tail) (hend : tail.continues limit = false) :
    tail.scanned = min (min bytes.length limit) budget := by
  obtain ⟨hposition, hlimit, hbudget, -, -⟩ := h
  simp only [Tail.continues, Bool.and_eq_false_iff, decide_eq_false_iff_not] at hend
  omega

end Loop

/-- How much is read of a file. -/
def readSize (file : File) (limit budget : Nat) : Nat :=
  file.elim 0 fun bytes => min (min bytes.length limit) budget

/-- The budget pays for what is read. -/
theorem reverseLinesBounded_budget (file : File) (limit budget : Nat) :
    (reverseLinesBounded file limit budget).2 = budget - readSize file limit budget := by
  unfold reverseLinesBounded
  split
  case isTrue h =>
    cases file with
    | none => simp [readSize]
    | some bytes =>
        simp only [readSize, Option.elim_some]
        omega
  case isFalse =>
    cases file with
    | none => simp [readSize]
    | some bytes =>
        obtain ⟨hreads, hend⟩ := (reads_start bytes limit budget).loop (n := bytes.length) (Nat.le_refl _)
        have hscanned := scanned_of_ended hreads hend
        have hbudget := hreads.budget
        simp only [readSize, Option.elim_some]
        omega

/-- What is read does not depend on the chunks. -/
theorem reverseLinesBounded_lines {bytes : List UInt8} {limit budget : Nat} (hlimit : limit ≠ 0)
    (hbudget : budget ≠ 0) :
    (reverseLinesBounded (some bytes) limit budget).1 =
      lastLines (readSize (some bytes) limit budget) bytes := by
  obtain ⟨hreads, hend⟩ := (reads_start bytes limit budget).loop (n := bytes.length) (Nat.le_refl _)
  have hscanned := scanned_of_ended hreads hend
  have hposition := hreads.position
  unfold reverseLinesBounded
  rw [if_neg (by simp [hlimit, hbudget])]
  dsimp only
  rw [hreads.output, hreads.remainder, hscanned, lastLines, readSize, Option.elim_some]
  by_cases hall : bytes.length ≤ min (min bytes.length limit) budget
  · rw [if_pos (by omega), if_pos hall, lastBytes, Nat.sub_eq_zero_of_le hall, List.drop_zero]
  · rw [if_neg (by omega), if_neg hall, List.append_nil]

/-! ### The lines of the file -/

/-- Lines with the offsets at which they begin, the first one at `start`. -/
def placedFrom : Nat → List (List UInt8) → List (Nat × List UInt8)
  | _, [] => []
  | start, line :: lines => (start, line) :: placedFrom (start + line.length + 1) lines

/-- The lines of a file, and where each of them begins. -/
def placedLines (bytes : List UInt8) : List (Nat × List UInt8) :=
  placedFrom 0 ((pieces newline bytes).1 :: (pieces newline bytes).2)

/-- The lines that begin at certain offsets, the last one first. -/
def linesAt (starts : Nat → Bool) (bytes : List UInt8) : List String :=
  texts (((placedLines bytes).filter fun line => starts line.1).map Prod.snd).reverse

/-- Where what is read begins. -/
def windowStart (bytes : List UInt8) (limit budget : Nat) : Nat :=
  bytes.length - readSize (some bytes) limit budget

theorem placedFrom_later {start bound : Nat} (h : bound < start) (lines : List (List UInt8)) :
    ((placedFrom start lines).filter fun line => bound < line.1).map Prod.snd = lines := by
  induction lines generalizing start with
  | nil => rfl
  | cons line lines ih =>
      have hlater : bound < start + line.length + 1 := by omega
      rw [placedFrom, List.filter_cons, if_pos (decide_eq_true h), List.map_cons, ih hlater]

/-- Of the lines of a file, those that begin behind some part of it are the lines of the rest, but
for what comes before the first newline of the rest. -/
theorem placedFrom_append (start : Nat) (front rest : List UInt8) :
    ((placedFrom start ((pieces newline (front ++ rest)).1 ::
        (pieces newline (front ++ rest)).2)).filter
          fun line => start + front.length < line.1).map Prod.snd =
      (pieces newline rest).2 := by
  induction front generalizing start with
  | nil =>
      rw [List.nil_append, List.length_nil, Nat.add_zero, placedFrom, List.filter_cons,
        if_neg (by simp)]
      exact placedFrom_later (by omega) _
  | cons a front ih =>
      have hbehind := ih (start + 1)
      have hbound : start + 1 + front.length = start + (front.length + 1) := by omega
      rw [hbound] at hbehind
      rw [List.cons_append, List.length_cons, pieces]
      -- the line that begins at `start` does not begin behind the front
      by_cases ha : a = newline
      · rw [if_pos ha, placedFrom, List.filter_cons, if_neg (by simp)]
        exact hbehind
      · rw [placedFrom, List.filter_cons, if_neg (by simp)] at hbehind
        have hnext : start + 1 + (pieces newline (front ++ rest)).1.length + 1 =
            start + (a :: (pieces newline (front ++ rest)).1).length + 1 := by
          rw [List.length_cons]
          omega
        rw [if_neg ha, placedFrom, List.filter_cons, if_neg (by simp), ← hnext]
        exact hbehind

theorem placedFrom_lines (start : Nat) (lines : List (List UInt8)) :
    (placedFrom start lines).map Prod.snd = lines := by
  induction lines generalizing start with
  | nil => rfl
  | cons line lines ih => rw [placedFrom, List.map_cons, ih]

/-- The complete lines of what is read are those of the file that begin behind a newline of it, and
the first line if the file is read from its beginning. -/
theorem lastLines_eq (bytes : List UInt8) (n : Nat) :
    lastLines n bytes =
      linesAt (fun start => bytes.length - n == 0 || decide (bytes.length - n < start)) bytes := by
  rw [lastLines, linesAt]
  by_cases hall : bytes.length ≤ n
  · have hzero : bytes.length - n = 0 := Nat.sub_eq_zero_of_le hall
    rw [if_pos hall, lastBytes, hzero, List.drop_zero, ← texts_append, ← List.reverse_cons,
      List.filter_eq_self.mpr (by simp), placedLines, placedFrom_lines]
  · have hpos : (bytes.length - n == 0) = false := by
      rw [beq_eq_false_iff_ne]
      omega
    have hsplit : bytes.take (bytes.length - n) ++ lastBytes n bytes = bytes :=
      List.take_append_drop _ bytes
    have hbehind := placedFrom_append 0 (bytes.take (bytes.length - n)) (lastBytes n bytes)
    rw [hsplit, List.length_take, Nat.min_eq_left (Nat.sub_le _ n), Nat.zero_add] at hbehind
    simp only [hpos, Bool.false_or]
    rw [if_neg hall, List.append_nil, placedLines, hbehind]

/-- Nothing is read of a file whose limit or budget is used up. -/
theorem reverseLinesBounded_nothing {bytes : List UInt8} {limit budget : Nat}
    (h : limit = 0 ∨ budget = 0) :
    (reverseLinesBounded (some bytes) limit budget).1 =
      lastLines (readSize (some bytes) limit budget) bytes := by
  have hsize : readSize (some bytes) limit budget = 0 := by
    rw [readSize, Option.elim_some]
    omega
  rw [reverseLinesBounded, if_pos h, hsize, lastLines, lastBytes, Nat.sub_zero, List.drop_length]
  split
  case isTrue hempty =>
    obtain rfl := List.length_eq_zero_iff.mp (Nat.le_zero.mp hempty)
    rfl
  case isFalse => rfl

/-- The lines that are read are those of the file, the last one first, that begin behind a newline
of what is read, or anywhere if the whole file is read; and the budget pays for what is read. -/
theorem reverse_lines_behind (bytes : List UInt8) (limit budget : Nat) :
    reverseLinesBounded (some bytes) limit budget =
      (linesAt (fun start => windowStart bytes limit budget == 0 ||
          decide (windowStart bytes limit budget < start)) bytes,
        budget - min (min bytes.length limit) budget) := by
  have hlines := lastLines_eq bytes (readSize (some bytes) limit budget)
  refine Prod.ext (Eq.trans ?_ hlines) (reverseLinesBounded_budget (some bytes) limit budget)
  by_cases hnothing : limit = 0 ∨ budget = 0
  · exact reverseLinesBounded_nothing hnothing
  · rw [not_or] at hnothing
    exact reverseLinesBounded_lines hnothing.1 hnothing.2

/-- A line that begins with what is read is left out, though none of it is missing. -/
theorem reverse_lines_touching : ¬ ∀ (bytes : List UInt8) (limit budget : Nat),
    (reverseLinesBounded (some bytes) limit budget).1 =
      linesAt (fun start => decide (windowStart bytes limit budget ≤ start)) bytes := by
  intro h
  have hlines := congrArg List.length (h [97, newline, 98, newline] 2 2)
  revert hlines
  decide +kernel

end Pikamux.Providers
