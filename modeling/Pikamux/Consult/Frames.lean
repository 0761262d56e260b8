import Mathlib.Data.List.DropRight
import Pikamux.Support.Lines

/-!
# Consult — Frames

`read_json_frames` of `consult.rs`: what a provider prints is read in pieces, and each line of it
that is a JSON object is sent on.

* `drain_frames` — the complete lines of what is pending, and what stays pending.
* `frames_chunked` — what is sent is what the lines of the whole stream are, however it is read.
-/

namespace Pikamux.Consult

open Support

/-- `MAX_FRAME` -/
def maxFrame : Nat := 16 * 1024 * 1024

def newline : UInt8 := 10

def carriageReturn : UInt8 := 13

/-- `serde_json::from_slice` and `Value::is_object`. -/
structure Decoder (V : Type) where
  fromSlice : List UInt8 → Option V
  isObject : V → Bool
  /-- No value stands in no bytes. -/
  empty : fromSlice [] = none

variable {V : Type} (decoder : Decoder V)

/-- What is sent: a value, or why there are no more. -/
inductive Frame (V : Type) where
  | value (value : V)
  | error (message : String)
  deriving DecidableEq

def limitError : Frame V := .error "provider side response exceeded the 16 MiB frame limit"

/-- `while matches!(bytes.last(), Some(b'\n' | b'\r'))` -/
def trimEnd (bytes : List UInt8) : List UInt8 :=
  bytes.rdropWhile fun byte => byte == newline || byte == carriageReturn

/-- The value to send, if the bytes are an object. -/
def object (bytes : List UInt8) : List (Frame V) :=
  match decoder.fromSlice bytes with
  | some value => if decoder.isObject value then [.value value] else []
  | none => []

/-- Take the complete lines of what is pending.  The result is what is sent, and what is still
pending unless a line is too long.  There are no more turns than bytes. -/
def drain : Nat → List UInt8 → List (Frame V) × Option (List UInt8)
  | 0, pending => ([], some pending)
  | turns + 1, pending =>
      match pending.idxOf? newline with
      | none => ([], some pending)
      | some index =>
          if maxFrame < index then ([limitError], none)
          else
            let rest := drain turns (pending.drop (index + 1))
            (object decoder (trimEnd (pending.take (index + 1))) ++ rest.1, rest.2)

/-- What is sent at the end of the stream. -/
def lastFrame (pending : List UInt8) : List (Frame V) :=
  let pending := trimEnd pending
  if !pending.isEmpty && pending.length ≤ maxFrame then object decoder pending else []

/-- What a read of the stream returns.  No bytes are its end. -/
abbrev Read := Except String (List UInt8)

/-- What is sent to a receiver that stays, from what is pending and the reads to come. -/
def readFrames (pending : List UInt8) : List Read → List (Frame V)
  | [] => []
  | .error error :: _ => [.error ("provider output read failed: " ++ error)]
  | .ok chunk :: reads =>
      if chunk.isEmpty then lastFrame decoder pending
      else
        match drain decoder ((pending ++ chunk).length + 1) (pending ++ chunk) with
        | (sent, none) => sent
        | (sent, some pending) =>
            if maxFrame < pending.length then sent ++ [limitError]
            else sent ++ readFrames pending reads

def readJsonFrames (reads : List Read) : List (Frame V) := readFrames decoder [] reads

/-! ### The lines of the stream -/

/-- The line without the carriage returns at its end. -/
def withoutReturns (line : List UInt8) : List UInt8 := line.rdropWhile (· == carriageReturn)

/-- The objects among lines, up to the first line that is too long. -/
def framesOfLines : List (List UInt8) → List (Frame V)
  | [] => []
  | line :: lines =>
      if maxFrame < line.length then [limitError]
      else object decoder (withoutReturns line) ++ framesOfLines lines

/-- The frames of a stream: those of its lines, and of what follows the last newline. -/
def framesOf (stream : List UInt8) : List (Frame V) :=
  framesOfLines decoder ((pieces newline stream).1 :: (pieces newline stream).2)

section Reading

variable {decoder} {pending line rest : List UInt8}

theorem framesOf_line (h : newline ∉ line) (rest : List UInt8) :
    framesOf decoder (line ++ newline :: rest) =
      if maxFrame < line.length then [limitError]
      else object decoder (withoutReturns line) ++ framesOf decoder rest := by
  rw [framesOf, pieces_cons h, framesOfLines, ← framesOf]

/-- A line that has become too long is too long, whatever follows. -/
theorem framesOf_long (h : newline ∉ pending) (hlong : maxFrame < pending.length)
    (rest : List UInt8) : framesOf decoder (pending ++ rest) = [limitError] := by
  have hpieces := pieces_append newline pending rest
  have hfirst : (pieces newline (pending ++ (pieces newline rest).1)).1 =
      pending ++ (pieces newline rest).1 := by
    rw [pieces_of_not_mem]
    rw [List.mem_append, not_or]
    exact ⟨h, not_mem_pieces_fst newline rest⟩
  rw [hfirst] at hpieces
  rw [framesOf, hpieces, framesOfLines, if_pos]
  rw [List.length_append]
  omega

/-- Where there is no newline, the returns at the end are all that is taken off. -/
theorem trimEnd_eq (h : newline ∉ line) : trimEnd line = withoutReturns line := by
  induction line using List.reverseRecOn with
  | nil => rfl
  | append_singleton line byte ih =>
      rw [List.mem_append, List.mem_singleton, not_or] at h
      have hbyte : (byte == newline) = false := beq_eq_false_iff_ne.mpr (Ne.symm h.2)
      rw [trimEnd, withoutReturns, List.rdropWhile_concat, List.rdropWhile_concat, hbyte,
        Bool.false_or]
      split
      · exact ih h.1
      · rfl

theorem trimEnd_line (h : newline ∉ line) : trimEnd (line ++ [newline]) = withoutReturns line := by
  rw [← trimEnd_eq h, trimEnd, List.rdropWhile_concat_pos _ _ _ (by rfl)]
  rfl

/-- The first newline cuts off a line. -/
theorem idxOf_newline {index : Nat} (h : pending.idxOf? newline = some index) :
    pending = pending.take index ++ newline :: pending.drop (index + 1) ∧
      newline ∉ pending.take index ∧ (pending.take index).length = index ∧
      index < pending.length := by
  obtain ⟨hlt, hat, hbefore⟩ := List.idxOf?_eq_some_iff.mp h
  refine ⟨?_, ?_, List.length_take_of_le hlt.le, hlt⟩
  · rw [← hat, ← List.drop_eq_getElem_cons, List.take_append_drop]
  · intro hmem
    obtain ⟨j, hj, heq⟩ := List.getElem_of_mem hmem
    rw [List.getElem_take] at heq
    rw [List.length_take] at hj
    exact hbefore j (by omega) heq

/-- What is drained are the complete lines, and what is pending is not a complete line. -/
theorem drain_frames (rest : List UInt8) {turns : Nat} (hturns : pending.length < turns)
    {sent : List (Frame V)} {left : Option (List UInt8)}
    (h : drain decoder turns pending = (sent, left)) :
    (left = none → framesOf decoder (pending ++ rest) = sent) ∧
      ∀ tail, left = some tail → newline ∉ tail ∧
        framesOf decoder (pending ++ rest) = sent ++ framesOf decoder (tail ++ rest) := by
  induction turns generalizing pending sent with
  | zero => exact absurd hturns (Nat.not_lt_zero _)
  | succ turns ih =>
      rw [drain] at h
      cases hindex : pending.idxOf? newline with
      | none =>
          rw [hindex] at h
          cases h
          refine ⟨nofun, ?_⟩
          intro tail htail
          cases htail
          exact ⟨List.idxOf?_eq_none_iff.mp hindex, rfl⟩
      | some index =>
          obtain ⟨hpending, hline, hlength, hlt⟩ := idxOf_newline hindex
          have hframes := @framesOf_line V decoder _ hline (pending.drop (index + 1) ++ rest)
          rw [← List.cons_append, ← List.append_assoc, ← hpending, hlength] at hframes
          rw [hindex] at h
          dsimp only at h
          rw [hframes]
          by_cases hlong : maxFrame < index
          · rw [if_pos hlong] at h
            cases h
            rw [if_pos hlong]
            exact ⟨fun _ => rfl, nofun⟩
          · -- the line is sent, and the rest is drained
            rw [if_neg hlong] at h
            have htrim : trimEnd (pending.take (index + 1)) =
                withoutReturns (pending.take index) := by
              rw [← trimEnd_line hline]
              congr 1
              conv_lhs => rw [hpending]
              rw [List.take_append, hlength, Nat.add_sub_cancel_left, List.take_succ_cons,
                List.take_zero, List.take_of_length_le (by omega)]
            have hshort : (pending.drop (index + 1)).length < turns := by
              rw [List.length_drop]
              omega
            obtain ⟨hsent, hleft⟩ := Prod.mk.inj h
            obtain ⟨hended, hkept⟩ := ih hshort (Prod.ext rfl hleft)
            rw [if_neg hlong, ← htrim, ← hsent]
            refine ⟨fun hnone => congrArg _ (hended hnone), ?_⟩
            intro tail htail
            obtain ⟨hnot, hrest⟩ := hkept tail htail
            rw [List.append_assoc, hrest]
            exact ⟨hnot, rfl⟩

theorem framesOf_last (h : newline ∉ pending) (hshort : pending.length ≤ maxFrame) :
    lastFrame decoder pending = framesOf decoder pending := by
  have hle : (withoutReturns pending).length ≤ pending.length :=
    (List.rdropWhile_prefix _ _).length_le
  rw [framesOf, pieces_of_not_mem h, framesOfLines, if_neg (Nat.not_lt_of_le hshort),
    framesOfLines, List.append_nil, lastFrame, trimEnd_eq h]
  cases hbytes : withoutReturns pending with
  | nil => simp [object, decoder.empty]
  | cons byte bytes =>
      rw [hbytes] at hle
      rw [if_pos]
      rw [Bool.and_eq_true, decide_eq_true_eq]
      exact ⟨rfl, hle.trans hshort⟩

/-- Between two reads, what is pending is part of a line that is not too long; what is sent from
then on is what it and the rest of the stream hold. -/
theorem readFrames_eq (h : newline ∉ pending) (hshort : pending.length ≤ maxFrame)
    {chunks : List (List UInt8)} (hchunks : ∀ chunk ∈ chunks, chunk ≠ []) :
    readFrames decoder pending (chunks.map .ok ++ [.ok []]) =
      framesOf decoder (pending ++ chunks.flatten) := by
  induction chunks generalizing pending with
  | nil =>
      rw [List.map_nil, List.nil_append, readFrames, List.flatten_nil, List.append_nil]
      exact framesOf_last h hshort
  | cons chunk chunks ih =>
      obtain ⟨hchunk, hrest⟩ := List.forall_mem_cons.mp hchunks
      rw [List.map_cons, List.cons_append, readFrames, List.isEmpty_eq_false_iff.mpr hchunk,
        if_neg Bool.false_ne_true, List.flatten_cons, ← List.append_assoc]
      cases hdrain : drain decoder ((pending ++ chunk).length + 1) (pending ++ chunk) with
      | mk sent left =>
          obtain ⟨hended, hkept⟩ := drain_frames chunks.flatten (Nat.lt_succ_self _) hdrain
          cases left with
          | none => exact (hended rfl).symm
          | some tail =>
              obtain ⟨hnot, hframes⟩ := hkept tail rfl
              rw [hframes]
              dsimp only
              by_cases hlong : maxFrame < tail.length
              · rw [if_pos hlong, framesOf_long hnot hlong]
              · rw [if_neg hlong, ih hnot (Nat.le_of_not_lt hlong) hrest]

/-- What is sent does not depend on how the stream is cut: it is one value for each line that is an
object, up to the first line that is too long, for which there is an error and nothing more. -/
theorem frames_chunked (decoder : Decoder V) {chunks chunks' : List (List UInt8)}
    (hchunks : ∀ chunk ∈ chunks, chunk ≠ []) (hchunks' : ∀ chunk ∈ chunks', chunk ≠ [])
    (hstream : chunks.flatten = chunks'.flatten) :
    readJsonFrames decoder (chunks.map .ok ++ [.ok []]) = framesOf decoder chunks.flatten ∧
      readJsonFrames decoder (chunks.map .ok ++ [.ok []]) =
        readJsonFrames decoder (chunks'.map .ok ++ [.ok []]) := by
  have h := @readFrames_eq V decoder [] List.not_mem_nil (Nat.zero_le _) _ hchunks
  have h' := @readFrames_eq V decoder [] List.not_mem_nil (Nat.zero_le _) _ hchunks'
  rw [List.nil_append] at h h'
  rw [readJsonFrames, readJsonFrames, h, h', hstream]
  exact ⟨rfl, rfl⟩

end Reading

/-! ### Two objects in three reads -/

/-- Every text between braces is an object. -/
def braces : Decoder (List UInt8) where
  fromSlice bytes := if bytes.head? = some 123 ∧ bytes.getLast? = some 125 then some bytes else none
  isObject _ := true
  empty := rfl

theorem frames_chunked_braces :
    readJsonFrames braces (([[123, 125], [13, 10, 123], [125]] : List (List UInt8)).map .ok ++
        [.ok []]) = framesOf braces [123, 125, 13, 10, 123, 125] ∧
      framesOf braces [123, 125, 13, 10, 123, 125] = [.value [123, 125], .value [123, 125]] := by
  have h := @frames_chunked _ braces [[123, 125], [13, 10, 123], [125]]
    [[123, 125, 13, 10, 123, 125]] (by decide) (by decide) (by decide)
  exact ⟨h.1, by decide⟩

end Pikamux.Consult
