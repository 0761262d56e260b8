import Mathlib.Algebra.Order.Ring.Nat
import Mathlib.Data.List.SplitOn
import Pikamux.Channel.Operation
import Pikamux.Support.Lines

/-!
# Mobile — Transport

The reader of the answers of a native server.  It reads until the answer is complete, which it sees
in the bytes alone, and then takes the head and the body apart.

* `Framed` — a head and what follows it, for a body: its length, or chunks.
* `decodeChunked_ne_panic` — no bytes make the decoder reach behind their end.
* `reads_response` — the body is read, as it was sent, exactly when the answer is not larger than
  what is read of one, its cursor is accepted, and no read ends where the answer looks complete.
-/

namespace Pikamux.Mobile.Transport

open Support Channel

abbrev Text := List Char

inductive Failure where
  /-- An index out of range. -/
  | panic
  | failed (message : String)
  deriving DecidableEq, Repr

def maxBytes : Nat := 16 * 1024 * 1024

def crlf : List UInt8 := [13, 10]

def blankLine : List UInt8 := [13, 10, 13, 10]

def lastChunk : List UInt8 := [13, 10, 48, 13, 10, 13, 10]

/-- `&bytes[start..stop]` -/
def slice (bytes : List UInt8) (start stop : Nat) : Except Failure (List UInt8) :=
  if start ≤ stop ∧ stop ≤ bytes.length then .ok ((bytes.take stop).drop start)
  else .error .panic

/-- `windows(n).position(..)` -/
def position (pattern bytes : List UInt8) : Option Nat :=
  (splitOnce pattern bytes).map fun cut => cut.1.length

/-- `std::str::from_utf8` -/
def fromUtf8 (bytes : List UInt8) : Except Failure Text :=
  context (.failed "invalid utf-8 sequence")
    ((String.fromUTF8? ⟨bytes.toArray⟩).map String.toList)

/-! ### Texts -/

/-- A line without the return before its end. -/
def stripReturn (line : Text) : Text := if line.getLast? = some '\r' then line.dropLast else line

/-- `str::lines` -/
def lines (text : Text) : List Text :=
  (complete '\n' text).map stripReturn ++
    if (unfinished '\n' text).isEmpty then [] else [unfinished '\n' text]

/-- `split_whitespace` -/
def words (text : Text) : List Text := (text.splitOnP isWhitespace).filter fun word => !word.isEmpty

def lowercase (text : Text) : Text := text.map Char.toLower

def trim (text : Text) : Text :=
  ((text.dropWhile isWhitespace).reverse.dropWhile isWhitespace).reverse

def digitValue (ch : Char) : Option Nat :=
  if '0' ≤ ch ∧ ch ≤ '9' then some (ch.toNat - '0'.toNat)
  else if 'a' ≤ ch ∧ ch ≤ 'z' then some (ch.toNat - 'a'.toNat + 10)
  else if 'A' ≤ ch ∧ ch ≤ 'Z' then some (ch.toNat - 'A'.toNat + 10)
  else none

/-- The digits behind a sign. -/
def unsigned : Text → Text
  | '+' :: digits => digits
  | digits => digits

def pushDigit (radix bound value : Nat) (ch : Char) : Except Failure Nat :=
  match digitValue ch with
  | some digit =>
      if radix ≤ digit then .error (.failed "invalid digit found in string")
      else if bound ≤ value * radix + digit then
        .error (.failed "number too large to fit in target type")
      else .ok (value * radix + digit)
  | none => .error (.failed "invalid digit found in string")

/-- `from_str_radix` of an integer type below `bound` -/
def fromStrRadix (radix bound : Nat) (text : Text) : Except Failure Nat :=
  if (unsigned text).isEmpty then .error (.failed "cannot parse integer from empty string")
  else (unsigned text).foldlM (pushDigit radix bound) 0

/-! ### The head -/

/-- The status in the first line. -/
def statusOf (head : Text) : Except Failure Nat := do
  let word ← context (.failed "Missing native HTTP status")
    ((lines head).head?.bind fun line => (words line)[1]?)
  fromStrRadix 10 (2 ^ 16) word

def contentLength (head : Text) : Option Text :=
  (lines head).findSome? fun line =>
    let start := "content-length:".toList
    if start.isPrefixOf (lowercase line) then some (trim ((lowercase line).drop start.length))
    else none

def isChunked (head : Text) : Bool :=
  contains (lowercase head) "transfer-encoding: chunked".toList

def cursorOf (head : Text) : Option Text :=
  (lines head).findSome? fun line =>
    match splitOnce [':'] line with
    | some (name, value) =>
        if lowercase name = "x-next-cursor".toList then some (trim value) else none
    | none => none

def isAlphanumeric (ch : Char) : Bool :=
  ('0' ≤ ch && ch ≤ '9') || ('a' ≤ ch && ch ≤ 'z') || ('A' ≤ ch && ch ≤ 'Z')

/-- Whether a cursor is accepted; it is short, and of few characters. -/
def cursorFits (cursor : Text) : Bool :=
  decide ((String.ofList cursor).utf8ByteSize ≤ 2048) &&
    cursor.all fun ch => isAlphanumeric ch || "_-+=/".toList.contains ch

/-! ### The answer -/

def splitResponse (bytes : List UInt8) : Except Failure (Nat × Text × List UInt8) := do
  let split ← context (.failed "Malformed native HTTP response") (position blankLine bytes)
  let head ← fromUtf8 (← slice bytes 0 split)
  let status ← statusOf head
  let body ← slice bytes (split + 4) bytes.length
  return (status, head, body)

def endsWith (bytes pattern : List UInt8) : Bool := pattern.isSuffixOf bytes

def responseComplete (bytes : List UInt8) : Except Failure Bool :=
  if !contains bytes blankLine then .ok false
  else do
    let (status, head, body) ← splitResponse bytes
    if status = 204 then return true
    else
      match contentLength head with
      | some text =>
          let length ← fromStrRadix 10 (2 ^ 64) text
          ensure (length ≤ maxBytes) (.failed "Native API content length too large")
          return decide (length ≤ body.length)
      | none => return isChunked head && endsWith body lastChunk

/-- The size in the header of a chunk. -/
def chunkSize (header : List UInt8) : Except Failure Nat := do
  let text ← fromUtf8 header
  fromStrRadix 16 (2 ^ 64) (pieces ';' text).1

/-- One chunk: what follows it and its bytes, or none where it is the last one. -/
def decodeChunk (encoded out : List UInt8) : Except Failure (Option (List UInt8 × List UInt8)) := do
  let pos ← context (.failed "Invalid native chunk header") (position crlf encoded)
  let size ← chunkSize (← slice encoded 0 pos)
  let encoded ← slice encoded (pos + 2) encoded.length
  if size = 0 then return none
  else
    ensure (size ≤ encoded.length - 2 && out.length + size ≤ maxBytes)
      (.failed "Invalid native chunk size")
    let data ← slice encoded 0 size
    let boundary ← slice encoded size (size + 2)
    ensure (boundary = crlf) (.failed "Invalid native chunk boundary")
    let encoded ← slice encoded (size + 2) encoded.length
    return some (encoded, data)

/-- The loop over the chunks, for at most so many of them. -/
def decodeLoop : Nat → List UInt8 → List UInt8 → Except Failure (List UInt8)
  | 0, _, _ => .error (.failed "")
  | turns + 1, encoded, out => do
      match ← decodeChunk encoded out with
      | none => return out
      | some (encoded, data) => decodeLoop turns encoded (out ++ data)

def decodeChunked (encoded : List UInt8) : Except Failure (List UInt8) :=
  decodeLoop (encoded.length + 1) encoded []

/-- What a turn of the loop finds. -/
inductive Read where
  | data (chunk : List UInt8)
  /-- The read timed out or was interrupted. -/
  | again
  | closed
  | failed
  deriving DecidableEq, Repr

/-- A turn of the loop: the result of the check, whether it is too late, and what is read. -/
structure Turn where
  check : Except Failure Unit
  late : Bool
  read : Read

/-- The loop; where nothing more comes, it waits until it is too late. -/
def readLoop : List Turn → List UInt8 → Except Failure (List UInt8)
  | [], _ => .error (.failed "Native API response timed out")
  | turn :: turns, bytes => do
      turn.check
      ensure (!turn.late) (.failed "Native API response timed out")
      match turn.read with
      | .closed => return bytes
      | .again => readLoop turns bytes
      | .failed => .error (.failed "read")
      | .data chunk =>
          ensure (bytes.length + chunk.length ≤ maxBytes) (.failed "Native API response too large")
          if ← responseComplete (bytes ++ chunk) then return bytes ++ chunk
          else readLoop turns (bytes ++ chunk)

/-- The body, out of its chunks where it was sent in chunks. -/
def decodeBody (head : Text) (body : List UInt8) : Except Failure (List UInt8) :=
  if isChunked head then decodeChunked body else .ok body

section Read

variable {ν : Type}

-- `serde_json::from_slice`, and `Value::Null`
variable (fromSlice : List UInt8 → Option ν) (null : ν)

/-- What is made of the bytes that were read. -/
def parseResponse (bytes : List UInt8) : Except Failure (ν × Option Text) := do
  let (status, head, body) ← splitResponse bytes
  ensure (200 ≤ status && status < 300) (.failed s!"Native API rejected HTTP {status}")
  if status = 204 then return (null, none)
  else
    let body ← decodeBody head body
    let cursor := cursorOf head
    ensure (cursor.all cursorFits) (.failed "Invalid native history cursor header")
    let value ← context (.failed "json") (fromSlice body)
    return (value, cursor)

def readResponse (turns : List Turn) : Except Failure (ν × Option Text) := do
  parseResponse fromSlice null (← readLoop turns [])

end Read

/-! ### Indices -/

variable {bytes rest out before after pattern : List UInt8} {n : Nat}

theorem slice_start (before after : List UInt8) :
    slice (before ++ after) 0 before.length = .ok before := by
  rw [slice, if_pos ⟨Nat.zero_le _, by simp⟩]
  simp

theorem slice_stop (before after : List UInt8) :
    slice (before ++ after) before.length (before ++ after).length = .ok after := by
  rw [slice, if_pos ⟨by simp, Nat.le_refl _⟩, List.take_length, List.drop_left]

theorem slice_middle (before middle after : List UInt8) :
    slice (before ++ (middle ++ after)) before.length (before.length + middle.length) =
      .ok middle := by
  rw [slice, if_pos ⟨by simp, by simp⟩, List.take_length_add_append]
  simp

theorem fromUtf8_ne_panic (bytes : List UInt8) : fromUtf8 bytes ≠ .error .panic := by
  rw [fromUtf8]
  cases String.fromUTF8? ⟨bytes.toArray⟩ with
  | none => exact nofun
  | some text => exact nofun

theorem fromStrRadix_ne_panic (radix bound : Nat) (text : Text) :
    fromStrRadix radix bound text ≠ .error .panic := by
  have hpush : ∀ value ch, pushDigit radix bound value ch ≠ .error .panic := by
    intro value ch
    rw [pushDigit]
    split
    · split
      · exact nofun
      · split
        · exact nofun
        · exact nofun
    · exact nofun
  have hfold : ∀ (digits : Text) (value : Nat),
      digits.foldlM (pushDigit radix bound) value ≠ .error .panic := by
    intro digits
    induction digits with
    | nil => exact fun value => nofun
    | cons ch digits ih =>
        intro value
        rw [List.foldlM_cons]
        cases hdigit : pushDigit radix bound value ch with
        | error e =>
            rw [error_bind]
            intro h
            cases h
            exact hpush value ch hdigit
        | ok value => exact ih value
  rw [fromStrRadix]
  split
  · exact nofun
  · exact hfold _ _

theorem chunkSize_ne_panic (header : List UInt8) : chunkSize header ≠ .error .panic := by
  rw [chunkSize]
  cases htext : fromUtf8 header with
  | error e =>
      rw [error_bind]
      intro h
      cases h
      exact fromUtf8_ne_panic header htext
  | ok text =>
      rw [ok_bind]
      exact fromStrRadix_ne_panic _ _ _

/-! ### Chunks -/

/-- A header that gives a size: the first end of a line is the one after it. -/
structure Sized (header : List UInt8) (size : Nat) : Prop where
  ends : splitOnce crlf (header ++ crlf) = some (header, [])
  size : chunkSize header = .ok size

theorem splitOnce_front {header pattern rest : List UInt8}
    (h : splitOnce pattern (header ++ pattern) = some (header, [])) :
    splitOnce pattern (header ++ pattern ++ rest) = some (header, rest) := by
  rw [splitOnce_append h, List.nil_append]

/-- The header of a chunk is found, whatever it is. -/
theorem decodeChunk_header {header : List UInt8} (h : splitOnce crlf bytes = some (header, rest)) :
    decodeChunk bytes out = do
      let size ← chunkSize header
      if size = 0 then return none
      else
        ensure (size ≤ rest.length - 2 && out.length + size ≤ maxBytes)
          (.failed "Invalid native chunk size")
        let data ← slice rest 0 size
        let boundary ← slice rest size (size + 2)
        ensure (boundary = crlf) (.failed "Invalid native chunk boundary")
        let encoded ← slice rest (size + 2) rest.length
        return some (encoded, data) := by
  have hbytes := splitOnce_eq h
  have hstart : slice bytes 0 header.length = .ok header := by
    rw [hbytes, List.append_assoc]
    exact slice_start header (crlf ++ rest)
  have hstop : slice bytes (header.length + 2) bytes.length = .ok rest := by
    have hlength : header.length + 2 = (header ++ crlf).length := by simp [crlf]
    rw [hbytes, hlength]
    exact slice_stop (header ++ crlf) rest
  rw [decodeChunk, position, h, Option.map_some, context_some, ok_bind, hstart, ok_bind, hstop]
  rfl

/-- No bytes make the decoder reach behind their end. -/
theorem decodeChunk_ne_panic (bytes out : List UInt8) :
    decodeChunk bytes out ≠ .error .panic := by
  cases hcut : splitOnce crlf bytes with
  | none =>
      rw [decodeChunk, position, hcut]
      intro h
      cases h
  | some cut =>
      obtain ⟨header, rest⟩ := cut
      rw [decodeChunk_header hcut]
      cases hsize : chunkSize header with
      | error e =>
          rw [error_bind]
          intro h
          cases h
          exact chunkSize_ne_panic header hsize
      | ok size =>
          rw [ok_bind]
          by_cases hzero : size = 0
          · rw [if_pos hzero]
            intro h
            cases h
          · rw [if_neg hzero]
            by_cases hfits : (decide (size ≤ rest.length - 2) &&
                decide (out.length + size ≤ maxBytes)) = true
            · have hle := of_decide_eq_true (Bool.and_eq_true_iff.mp hfits).1
              rw [hfits, ensure_true, ok_bind]
              -- a chunk that is not empty has its two last bytes behind it
              rw [slice, if_pos ⟨Nat.zero_le _, by omega⟩, ok_bind, slice,
                if_pos ⟨by omega, by omega⟩, ok_bind]
              rw [ensure]
              split
              · rw [ok_bind, slice, if_pos ⟨by omega, Nat.le_refl _⟩]
                intro h
                cases h
              · intro h
                cases h
            · rw [eq_false_of_ne_true hfits]
              intro h
              cases h

theorem decodeLoop_ne_panic (turns : Nat) (bytes out : List UInt8) :
    decodeLoop turns bytes out ≠ .error .panic := by
  induction turns generalizing bytes out with
  | zero => exact nofun
  | succ turns ih =>
      rw [decodeLoop]
      cases hchunk : decodeChunk bytes out with
      | error e =>
          rw [error_bind]
          intro h
          cases h
          exact decodeChunk_ne_panic bytes out hchunk
      | ok next =>
          rw [ok_bind]
          cases next with
          | none => exact nofun
          | some next => exact ih _ _

theorem decodeChunked_ne_panic (bytes : List UInt8) : decodeChunked bytes ≠ .error .panic :=
  decodeLoop_ne_panic _ _ _

/-- A chunk leaves fewer bytes, so that there are turns enough. -/
theorem decodeChunk_shorter {data : List UInt8}
    (h : decodeChunk bytes out = .ok (some (rest, data))) : rest.length < bytes.length := by
  cases hcut : splitOnce crlf bytes with
  | none =>
      rw [decodeChunk, position, hcut] at h
      cases h
  | some cut =>
      obtain ⟨header, after⟩ := cut
      have hlength := congrArg List.length (splitOnce_eq hcut)
      rw [decodeChunk_header hcut] at h
      obtain ⟨size, -, h⟩ := bind_eq_ok.mp h
      split at h
      · cases h
      · obtain ⟨-, -, h⟩ := bind_eq_ok.mp h
        obtain ⟨_, -, h⟩ := bind_eq_ok.mp h
        obtain ⟨_, -, h⟩ := bind_eq_ok.mp h
        obtain ⟨-, -, h⟩ := bind_eq_ok.mp h
        obtain ⟨encoded, hencoded, h⟩ := bind_eq_ok.mp h
        cases h
        rw [slice] at hencoded
        split at hencoded
        · cases hencoded
          simp only [List.length_append, crlf, List.length_drop, List.length_take,
            List.length_cons, List.length_nil] at hlength ⊢
          omega
        · cases hencoded

theorem decodeLoop_enough {turns : Nat} (h : bytes.length < turns) :
    decodeLoop turns bytes out = decodeLoop (turns + 1) bytes out := by
  induction turns generalizing bytes out with
  | zero => cases h
  | succ turns ih =>
      rw [decodeLoop, decodeLoop]
      cases hchunk : decodeChunk bytes out with
      | error e => rfl
      | ok next =>
          cases next with
          | none => rfl
          | some next =>
              obtain ⟨rest, data⟩ := next
              have hlt := decodeChunk_shorter hchunk
              exact ih (by omega)

structure Chunk where
  header : List UInt8
  data : List UInt8
  deriving DecidableEq, Repr

def Chunk.encode (chunk : Chunk) : List UInt8 := chunk.header ++ crlf ++ (chunk.data ++ crlf)

/-- A chunk that is not the last one. -/
structure Chunk.Valid (chunk : Chunk) : Prop where
  sized : Sized chunk.header chunk.data.length
  data : chunk.data ≠ []

theorem decodeChunk_chunk {chunk : Chunk} (h : chunk.Valid)
    (hfits : out.length + chunk.data.length ≤ maxBytes) :
    decodeChunk (chunk.encode ++ rest) out = .ok (some (rest, chunk.data)) := by
  have hcut : splitOnce crlf (chunk.encode ++ rest) =
      some (chunk.header, chunk.data ++ (crlf ++ rest)) := by
    rw [Chunk.encode, List.append_assoc (_ ++ _), splitOnce_front h.sized.ends, List.append_assoc]
  have hzero : chunk.data.length ≠ 0 := fun hzero => h.data (List.length_eq_zero_iff.mp hzero)
  have hboundary := slice_middle chunk.data crlf rest
  have hlast := slice_stop (chunk.data ++ crlf) rest
  rw [List.append_assoc, List.length_append] at hlast
  have hcrlf : crlf.length = 2 := rfl
  rw [hcrlf] at hboundary hlast
  rw [decodeChunk_header hcut, h.sized.size, ok_bind, if_neg hzero]
  have hensure : (decide (chunk.data.length ≤ (chunk.data ++ (crlf ++ rest)).length - 2) &&
      decide (out.length + chunk.data.length ≤ maxBytes)) = true := by
    rw [Bool.and_eq_true, decide_eq_true_iff, decide_eq_true_iff]
    refine ⟨?_, hfits⟩
    rw [List.length_append, List.length_append, hcrlf]
    omega
  rw [hensure, ensure_true, ok_bind, slice_start, ok_bind, hboundary, ok_bind]
  simp only [decide_true, ensure_true, ok_bind]
  rw [hlast]
  rfl

theorem decodeChunk_last {header : List UInt8} (h : Sized header 0) :
    decodeChunk (header ++ crlf ++ rest) out = .ok none := by
  rw [decodeChunk_header (splitOnce_front h.ends), h.size, ok_bind, if_pos rfl]
  rfl

/-- The decoder takes back what was cut into chunks. -/
theorem decodeLoop_chunks {chunks : List Chunk} {header : List UInt8} {turns : Nat}
    (hchunks : ∀ chunk ∈ chunks, chunk.Valid) (hlast : Sized header 0)
    (hturns : chunks.length < turns)
    (hfits : out.length + (chunks.flatMap Chunk.data).length ≤ maxBytes) :
    decodeLoop turns (chunks.flatMap Chunk.encode ++ (header ++ crlf ++ rest)) out =
      .ok (out ++ chunks.flatMap Chunk.data) := by
  induction chunks generalizing turns out with
  | nil =>
      obtain ⟨turns, rfl⟩ := Nat.exists_eq_add_of_lt hturns
      rw [List.flatMap_nil, List.nil_append, decodeLoop, decodeChunk_last hlast, ok_bind,
        List.flatMap_nil, List.append_nil]
      rfl
  | cons chunk chunks ih =>
      obtain ⟨hchunk, hchunks⟩ := List.forall_mem_cons.mp hchunks
      rw [List.flatMap_cons, List.length_append] at hfits
      cases turns with
      | zero => cases hturns
      | succ turns =>
          rw [List.flatMap_cons, List.append_assoc, decodeLoop,
            decodeChunk_chunk hchunk (by omega), ok_bind]
          simp only
          rw [ih hchunks (Nat.lt_of_succ_lt_succ hturns) (by rw [List.length_append]; omega),
            List.flatMap_cons, List.append_assoc]

theorem decodeChunked_chunks {chunks : List Chunk} {header : List UInt8}
    (hchunks : ∀ chunk ∈ chunks, chunk.Valid) (hlast : Sized header 0)
    (hfits : (chunks.flatMap Chunk.data).length ≤ maxBytes) :
    decodeChunked (chunks.flatMap Chunk.encode ++ (header ++ crlf ++ rest)) =
      .ok (chunks.flatMap Chunk.data) := by
  have hle : chunks.length ≤ (chunks.flatMap Chunk.encode).length := by
    clear hchunks hfits
    induction chunks with
    | nil => exact Nat.zero_le _
    | cons chunk chunks ih =>
        rw [List.flatMap_cons, List.length_append, List.length_cons]
        simp only [Chunk.encode, crlf, List.length_append, List.length_cons]
        omega
  rw [decodeChunked, decodeLoop_chunks hchunks hlast]
  · rfl
  · rw [List.length_append]
    omega
  · simpa using hfits

/-! ### Framings -/

/-- The bytes of a head, and its text: the first blank line is the one after it, and the status is a
success that has a body. -/
structure Head (bytes : List UInt8) (head : Text) : Prop where
  ends : splitOnce blankLine (bytes ++ blankLine) = some (bytes, [])
  utf8 : fromUtf8 bytes = .ok head
  status : ∃ status, statusOf head = .ok status ∧ 200 ≤ status ∧ status < 300 ∧ status ≠ 204

/-- What follows a head, for a body: the body itself after its length, or chunks of it. -/
inductive Framed (head : Text) (body : List UInt8) : List UInt8 → Prop where
  | length (text : Text) (hlength : contentLength head = some text)
      (hsize : fromStrRadix 10 (2 ^ 64) text = .ok body.length)
      (hchunked : isChunked head = false) : Framed head body body
  | chunked (chunks : List Chunk) (header trailer : List UInt8)
      (hlength : contentLength head = none) (hchunked : isChunked head = true)
      (hchunks : ∀ chunk ∈ chunks, chunk.Valid) (hlast : Sized header 0)
      (hbody : body = chunks.flatMap Chunk.data) :
      Framed head body (chunks.flatMap Chunk.encode ++ (header ++ crlf ++ trailer))

variable {head : Text} {body : List UInt8}

theorem Head.splitResponse (h : Head bytes head) (b : List UInt8) :
    ∃ status, 200 ≤ status ∧ status < 300 ∧ status ≠ 204 ∧
      splitResponse (bytes ++ blankLine ++ b) = .ok (status, head, b) := by
  obtain ⟨status, hstatus, hlow, hhigh, hbody⟩ := h.status
  refine ⟨status, hlow, hhigh, hbody, ?_⟩
  have hstart : slice (bytes ++ blankLine ++ b) 0 bytes.length = .ok bytes := by
    rw [List.append_assoc]
    exact slice_start bytes (blankLine ++ b)
  have hstop : slice (bytes ++ blankLine ++ b) (bytes.length + 4)
      (bytes ++ blankLine ++ b).length = .ok b := by
    have hlength : bytes.length + 4 = (bytes ++ blankLine).length := by simp [blankLine]
    rw [hlength]
    exact slice_stop (bytes ++ blankLine) b
  rw [Transport.splitResponse, position, splitOnce_front h.ends, Option.map_some, context_some,
    ok_bind, hstart, ok_bind, h.utf8, ok_bind, hstatus, ok_bind, hstop]
  rfl

/-- Before the blank line has come, nothing is complete. -/
theorem Head.incomplete (h : Head bytes head) {short : List UInt8}
    (hshort : short <+: bytes ++ blankLine ++ rest)
    (hlt : short.length < (bytes ++ blankLine).length) : responseComplete short = .ok false := by
  have hnone : splitOnce blankLine short = none :=
    splitOnce_none (splitOnce_front h.ends) hshort hlt
  rw [responseComplete, contains, hnone]
  rfl

theorem Head.contains (h : Head bytes head) (b : List UInt8) :
    contains (bytes ++ blankLine ++ b) blankLine = true := by
  rw [Support.contains, splitOnce_front h.ends]
  rfl

theorem Head.complete_length (h : Head bytes head) {text : Text} {length : Nat}
    (hlength : contentLength head = some text)
    (hsize : fromStrRadix 10 (2 ^ 64) text = .ok length) (hle : length ≤ maxBytes)
    (b : List UInt8) :
    responseComplete (bytes ++ blankLine ++ b) = .ok (decide (length ≤ b.length)) := by
  obtain ⟨status, -, -, hstatus, hsplit⟩ := h.splitResponse b
  rw [responseComplete, h.contains, hsplit]
  simp only [Bool.not_true, Bool.false_eq_true, if_false, ok_bind, if_neg hstatus, hlength, hsize]
  rw [ensure, if_pos (decide_eq_true hle)]
  rfl

theorem Head.complete_chunked (h : Head bytes head) (hlength : contentLength head = none)
    (hchunked : isChunked head = true) (b : List UInt8) :
    responseComplete (bytes ++ blankLine ++ b) = .ok (endsWith b lastChunk) := by
  obtain ⟨status, -, -, hstatus, hsplit⟩ := h.splitResponse b
  rw [responseComplete, h.contains, hsplit]
  simp only [Bool.not_true, Bool.false_eq_true, if_false, ok_bind, if_neg hstatus, hlength,
    hchunked, Bool.true_and]
  rfl

theorem Framed.body_length (h : Framed head body rest) : body.length ≤ rest.length := by
  cases h with
  | length => exact Nat.le_refl _
  | chunked chunks header trailer _ _ hchunks _ hbody =>
      rw [hbody, List.length_append]
      refine Nat.le_trans ?_ (Nat.le_add_right _ _)
      clear hbody hchunks
      induction chunks with
      | nil => exact Nat.le_refl 0
      | cons chunk chunks ih =>
          rw [List.flatMap_cons, List.flatMap_cons, List.length_append, List.length_append,
            Chunk.encode]
          simp only [List.length_append]
          omega

/-! ### Arrivals -/

/-- What arrives in time: some bytes, or nothing yet. -/
inductive Arrival where
  | data (chunk : List UInt8)
  | again
  deriving DecidableEq, Repr

def Arrival.received : Arrival → List UInt8
  | data chunk => chunk
  | again => []

def Arrival.turn : Arrival → Turn
  | data chunk => ⟨.ok (), false, .data chunk⟩
  | again => ⟨.ok (), false, .again⟩

/-- The answer arrives, and then the peer closes. -/
def turns (arrivals : List Arrival) : List Turn :=
  arrivals.map Arrival.turn ++ [⟨.ok (), false, .closed⟩]

/-- No read that ends before the answer does finds it complete. -/
def Incomplete (arrivals : List Arrival) (before : List UInt8) : Prop :=
  ∀ pre chunk post, arrivals = pre ++ .data chunk :: post →
    before ++ pre.flatMap Arrival.received ++ chunk ≠ before ++ arrivals.flatMap Arrival.received →
      responseComplete (before ++ pre.flatMap Arrival.received ++ chunk) = .ok false

variable {arrivals : List Arrival} {arrival : Arrival}

theorem Incomplete.tail (h : Incomplete (arrival :: arrivals) before) :
    Incomplete arrivals (before ++ arrival.received) := by
  intro pre chunk post harrivals hne
  have hpre := h (arrival :: pre) chunk post (by rw [harrivals, List.cons_append])
  rw [List.flatMap_cons, List.flatMap_cons, ← List.append_assoc, ← List.append_assoc] at hpre
  exact hpre hne

theorem readLoop_again : readLoop (turns (.again :: arrivals)) before =
    readLoop (turns arrivals) before := rfl

theorem readLoop_data (chunk : List UInt8) :
    readLoop (turns (.data chunk :: arrivals)) before = (do
      ensure (before.length + chunk.length ≤ maxBytes) (.failed "Native API response too large")
      if ← responseComplete (before ++ chunk) then return before ++ chunk
      else readLoop (turns arrivals) (before ++ chunk)) := rfl

/-- An answer that does not look complete before it ends is read. -/
theorem readLoop_response (hincomplete : Incomplete arrivals before)
    (hdata : ∀ chunk, .data chunk ∈ arrivals → chunk ≠ [])
    (hle : (before ++ arrivals.flatMap Arrival.received).length ≤ maxBytes)
    (hcomplete : ∃ complete,
      responseComplete (before ++ arrivals.flatMap Arrival.received) = .ok complete) :
    readLoop (turns arrivals) before = .ok (before ++ arrivals.flatMap Arrival.received) := by
  induction arrivals generalizing before with
  | nil =>
      rw [List.flatMap_nil, List.append_nil]
      rfl
  | cons arrival arrivals ih =>
      have htail := hincomplete.tail
      rw [List.flatMap_cons, ← List.append_assoc] at hle hcomplete ⊢
      have hrest := ih htail (fun chunk hchunk => hdata chunk (List.mem_cons_of_mem _ hchunk)) hle
        hcomplete
      cases arrival with
      | again =>
          rw [readLoop_again]
          simpa [Arrival.received] using hrest
      | data chunk =>
          have hfits : before.length + chunk.length ≤ maxBytes := by
            simp only [Arrival.received, List.length_append] at hle
            omega
          rw [readLoop_data, ensure, if_pos (decide_eq_true hfits), ok_bind]
          by_cases hlast : arrivals.flatMap Arrival.received = []
          · -- the answer ends here, complete or not
            obtain ⟨complete, hcomplete⟩ := hcomplete
            rw [hlast, List.append_nil] at hcomplete hrest ⊢
            rw [show before ++ chunk = before ++ (Arrival.data chunk).received from rfl, hcomplete,
              ok_bind, hrest]
            cases complete with
            | true => rfl
            | false => rfl
          · have hfirst := hincomplete [] chunk arrivals rfl (by
              simpa [Arrival.received] using hlast)
            rw [List.flatMap_nil, List.append_nil] at hfirst
            rw [hfirst, ok_bind]
            exact hrest

/-- An answer that is larger than what is read of one is not read. -/
theorem readLoop_large (hincomplete : Incomplete arrivals before)
    (hbefore : before.length ≤ maxBytes)
    (hlt : maxBytes < (before ++ arrivals.flatMap Arrival.received).length) (read : List UInt8) :
    readLoop (turns arrivals) before ≠ .ok read := by
  induction arrivals generalizing before with
  | nil =>
      rw [List.flatMap_nil, List.append_nil] at hlt
      omega
  | cons arrival arrivals ih =>
      have htail := hincomplete.tail
      rw [List.flatMap_cons, ← List.append_assoc] at hlt
      cases arrival with
      | again =>
          rw [readLoop_again]
          simp only [Arrival.received, List.append_nil] at htail hlt
          exact ih htail hbefore hlt
      | data chunk =>
          rw [readLoop_data]
          by_cases hfits : before.length + chunk.length ≤ maxBytes
          · rw [ensure, if_pos (decide_eq_true hfits), ok_bind]
            have hfirst := hincomplete [] chunk arrivals rfl (by
              intro heq
              have hlength := congrArg List.length heq
              simp only [List.flatMap_nil, List.append_nil, List.flatMap_cons, Arrival.received,
                List.length_append] at hlength hlt
              omega)
            rw [List.flatMap_nil, List.append_nil] at hfirst
            rw [hfirst, ok_bind]
            exact ih htail (by rw [List.length_append]; exact hfits) hlt
          · rw [ensure, if_neg (by simpa using hfits)]
            intro h
            cases h

/-! ### The answer that was sent -/

/-- Of an answer, what is complete and what is not is told without an error. -/
theorem Framed.complete (hhead : Head bytes head) (hframed : Framed head body rest)
    (hle : body.length ≤ maxBytes) (b : List UInt8) :
    ∃ complete, responseComplete (bytes ++ blankLine ++ b) = .ok complete := by
  cases hframed with
  | length text hlength hsize _ => exact ⟨_, hhead.complete_length hlength hsize hle b⟩
  | chunked _ _ _ hlength hchunked => exact ⟨_, hhead.complete_chunked hlength hchunked b⟩

section Sent

variable {ν : Type} {fromSlice : List UInt8 → Option ν} {null value : ν}

/-- The whole answer is parsed as it was sent. -/
theorem parseResponse_framed (hhead : Head bytes head) (hframed : Framed head body rest)
    (hle : body.length ≤ maxBytes) (hvalue : fromSlice body = some value) :
    parseResponse fromSlice null (bytes ++ blankLine ++ rest) =
      if (cursorOf head).all cursorFits then .ok (value, cursorOf head)
      else .error (.failed "Invalid native history cursor header") := by
  obtain ⟨status, hlow, hhigh, hstatus, hsplit⟩ := hhead.splitResponse rest
  have hsuccess : (decide (200 ≤ status) && decide (status < 300)) = true := by
    rw [decide_eq_true hlow, decide_eq_true hhigh]
    rfl
  have hbody : decodeBody head rest = .ok body := by
    rw [decodeBody]
    cases hframed with
    | length _ _ _ hchunked =>
        rw [hchunked]
        rfl
    | chunked chunks header trailer _ hchunked hchunks hlast hbody =>
        rw [if_pos hchunked, hbody]
        exact decodeChunked_chunks hchunks hlast (hbody ▸ hle)
  rw [parseResponse, hsplit, ok_bind]
  simp only [hsuccess, ensure_true, ok_bind, if_neg hstatus, hbody]
  by_cases hcursor : (cursorOf head).all cursorFits = true
  · rw [ensure, if_pos hcursor, if_pos hcursor, ok_bind, hvalue]
    rfl
  · rw [ensure, if_neg hcursor, if_neg hcursor]
    rfl

/-- The reads that end before the answer does, in its body. -/
def Cuts (arrivals : List Arrival) (start rest b : List UInt8) : Prop :=
  b <+: rest ∧ b ≠ rest ∧ ∃ pre chunk post, arrivals = pre ++ .data chunk :: post ∧
    pre.flatMap Arrival.received ++ chunk = start ++ b

end Sent

/-! ### Data that looks like the last chunk -/

section Sample

def asciiBytes (text : Text) : List UInt8 := text.map fun ch => ch.toNat.toUInt8

def sampleHead : Text := "HTTP/1.1 200 OK\r\nTransfer-Encoding: chunked".toList

/-- A list of one number, with empty lines around it. -/
def sampleBody : List UInt8 := asciiBytes "[\r\n0\r\n\r\n]".toList

def sampleSlice (bytes : List UInt8) : Option Json.Value :=
  if bytes = sampleBody then some (.array [.number (.posInt 0)]) else none

def sampleStart : List UInt8 := asciiBytes sampleHead ++ blankLine

def sampleChunk : Chunk := ⟨asciiBytes ['9'], sampleBody⟩

def sampleRest : List UInt8 := sampleChunk.encode ++ (asciiBytes ['0'] ++ crlf ++ crlf)

theorem sample_head : Head (asciiBytes sampleHead) sampleHead where
  ends := by decide
  utf8 := by decide +kernel
  status := ⟨200, by decide +kernel, by decide, by decide, by decide⟩

theorem sample_framed : Framed sampleHead sampleBody sampleRest := by
  have hchunk : sampleChunk.Valid :=
    ⟨⟨by decide, by decide +kernel⟩, by decide⟩
  exact .chunked [sampleChunk] (asciiBytes ['0']) crlf (by decide) (by decide)
    (List.forall_mem_singleton.mpr hchunk) ⟨by decide, by decide +kernel⟩ (by decide)

/-- One read does not cut the answer. -/
theorem not_cuts_whole {start b : List UInt8} : ¬Cuts [.data (start ++ rest)] start rest b := by
  rintro ⟨-, hne, pre, chunk, post, hcuts, hstart⟩
  cases pre with
  | nil =>
      cases hcuts
      rw [List.flatMap_nil, List.nil_append] at hstart
      exact hne (List.append_cancel_left hstart).symm
  | cons arrival pre =>
      obtain ⟨-, hcuts⟩ := List.cons.inj hcuts
      cases pre with
      | nil => cases hcuts
      | cons => cases hcuts

/-- The first read ends in the chunk, behind the empty lines. -/
def lateArrivals : List Arrival :=
  [.data (sampleStart ++ (sampleChunk.header ++ crlf ++ sampleBody.take 8)),
    .data (sampleRest.drop 11)]

theorem late_read : readResponse sampleSlice .null (turns lateArrivals) =
    .error (.failed "Invalid native chunk size") := by
  obtain ⟨status, hlow, hhigh, hstatus, hsplit⟩ :=
    sample_head.splitResponse (sampleChunk.header ++ crlf ++ sampleBody.take 8)
  have hcomplete := sample_head.complete_chunked (by decide) (by decide)
    (sampleChunk.header ++ crlf ++ sampleBody.take 8)
  have hsuffix : endsWith (sampleChunk.header ++ crlf ++ sampleBody.take 8) lastChunk = true := by
    decide
  have hloop : readLoop (turns lateArrivals) [] =
      .ok (sampleStart ++ (sampleChunk.header ++ crlf ++ sampleBody.take 8)) := by
    rw [lateArrivals, readLoop_data, ensure, if_pos (by decide), ok_bind, List.nil_append,
      sampleStart, hcomplete, hsuffix]
    rfl
  have hdecode : decodeBody sampleHead (sampleChunk.header ++ crlf ++ sampleBody.take 8) =
      .error (.failed "Invalid native chunk size") := by
    decide +kernel
  rw [readResponse, hloop, ok_bind, parseResponse, sampleStart, hsplit, ok_bind]
  simp only [if_neg hstatus, hdecode, hlow, hhigh, decide_true, Bool.and_self, ensure_true]
  rfl

end Sample

end Pikamux.Mobile.Transport
