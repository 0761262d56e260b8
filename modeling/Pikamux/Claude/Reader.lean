import Pikamux.Claude.Index
import Pikamux.Claude.Projection
import Pikamux.Support.Window

/-!
# Claude — Reader

`mobile_claude_reader.rs`: one page of a frozen history.  The first pass (`scanSource`) validates
and indexes the source, `reconstruct` orders the index, and the second pass (`projectWindow`) reads
the records again, projects all of them, and keeps the last items before the cursor that fit a
page.  The cursor carries digests of the source and of all items, and a later read checks both
(`checkFrozenHash`).

The digest function `hash`, the JSON parser `parse`, the parser of journal rows `decode` and the
allocator's `charge` are parameters.  Another program may write the file during a read, so the
passes see it separately (`View`).
-/

namespace Pikamux.Claude

open Std Support Json

/-- `PAGE`. -/
def pageItems : Nat := 40

/-- What one read sees: the file as it is scanned, as its records are read again, and as it is
digested at the end, and the journal. -/
structure View where
  scanned : Bytes
  reread : Bytes
  verified : Bytes
  journal : Option (ExtTreeMap String String compare)

/-- The fields of the cursor that reading Claude history uses. -/
structure Cursor where
  id : String
  snapshot : Nat
  claudeBefore : Option Nat := none
  claudeItemsHash : Option String := none
  claudeSourceHash : Option String := none

/-! ### Lines -/

def newline : UInt8 := 10

/-- The complete lines, each with its newline. -/
def completeLines : Bytes → List Bytes
  | [] => []
  | b :: source =>
      if b = newline then [b] :: completeLines source
      else
        match completeLines source with
        | [] => []
        | line :: lines => (b :: line) :: lines

/-- Up to the first newline and with it. -/
def takeLine : Bytes → Bytes
  | [] => []
  | b :: source => if b = newline then [b] else b :: takeLine source

section Reader

variable (hash : Bytes → String) (parse : Bytes → Except String Value)
  (decode : String → Except String Channel.Operation) (charge : Value → Except String Nat)

/-! ### The first pass -/

def validateRecord (line : Bytes) : Except String Line :=
  if line.length > 1 then
    match parse line with
    | .ok tree => .ok ⟨some tree, line.length, hash line⟩
    | .error _ => .error "Malformed durable Claude history record"
  else .ok ⟨none, line.length, hash line⟩

/-- Scan the first `snapshot` bytes; a last line that is not complete is digested and no more. -/
def scanSource (file : Bytes) (snapshot : Nat) (identity : String) :
    Except String (List Value × String) := do
  let source := file.take snapshot
  let state ← loopM (completeLines source) {} fun state line => do
    scanLine charge identity state (← validateRecord hash parse line)
  return (state.records, hash source)

def sourceDigest (file : Bytes) (snapshot : Nat) : Except String String := do
  let source := file.take snapshot
  ensure (source.length = snapshot) "Claude frozen history was truncated; reopen it"
  return hash source

/-! ### The second pass -/

def extractRecord (file : Bytes) (offset length : Nat) (projection : Bool) (expected : String) :
    Except String Value := do
  let line := takeLine ((file.drop offset).take length)
  let record ← Stream.extract projection (← parse line)
  ensure (line.length = length && hash line = expected)
    "Claude frozen record changed during read; reopen it"
  return record

def asNat : Value → Option Nat
  | .number (.posInt n) => some n
  | _ => none

def readRecord (file : Bytes) (metadata : Value) : Except String Value := do
  let offset ← context "Claude record offset missing" (asNat metadata["_pikaOffset"])
  let length ← context "Claude record length missing" (asNat metadata["_pikaLength"])
  ensure (offset + length ≤ file.length) "Invalid Claude record read bound"
  let digest ← context "Claude validated record digest missing" metadata["_pikaDigest"].asStr
  extractRecord hash parse file offset length true digest

/-- Register the preserved call of `part` with the projector. -/
def prepareFetchPart (needed : List String) (state : List String × Projector) (part : Value) :
    Except String (List String × Projector) := do
  if typeOf part ≠ some "tool_use" then return state
  match part["id"].asStr.filter needed.contains with
  | none => return state
  | some id =>
      ensure (!state.1.contains id) "Repeated preserved Claude source call identity"
      return (id :: state.1, ← state.2.prepareFetch hash decode part)

/-- Compaction may keep a result and remove the call that proves its channel identity: register
the calls of retained results that are only in the source. -/
def preparePreservedFetches (file : Bytes) (sourceCalls ordered : List Value)
    (projector : Projector) : Except String Projector := do
  let retained := ordered.flatMap (blocks · "tool_use" "id")
  let needed := (ordered.flatMap (blocks · "tool_result" "tool_use_id"))
    |>.filter fun id => !retained.contains id
  let (_, projector) ← loopM sourceCalls ([], projector) fun state source => do
    if !(blocks source "tool_use" "id").any needed.contains then return state
    let original ← readRecord hash parse file source
    loopM original["message"]["content"].items state (prepareFetchPart hash decode needed)
  return projector

/-- The page so far with the encoded sizes of its items, how many items there were, what the page
takes, and what was digested. -/
structure Window where
  page : List (Value × Nat) := []
  count : Nat := 0
  pageBytes : Nat := 2
  digested : List Char := ['[']

/-- Drop items from the front until the page is within its bounds. -/
def shrink : List (Value × Nat) → Nat → Except String (List (Value × Nat) × Nat)
  | [], pageBytes =>
      if pageBytes > claudePageBytes then .error "Claude history item exceeds page bounds"
      else .ok ([], pageBytes)
  | (entry, size) :: page, pageBytes =>
      if page.length + 1 > pageItems ∨ pageBytes > claudePageBytes then
        shrink page (pageBytes - size)
      else .ok ((entry, size) :: page, pageBytes)

/-- Project one entry; those after `target` are only counted and digested. -/
def addEntry (target : Option Nat) (window : Window) (entry : Value) : Except String Window := do
  let encoded := entry.chars
  let size := encodedLength entry + 1
  ensure (size + 2 ≤ claudePageBytes)
    "Claude visible message exceeds the 8 MiB encoded mobile history page size"
  let digested :=
    window.digested ++ (if window.count > 0 then ',' :: encoded else encoded)
  let count := window.count + 1
  if target.all (count ≤ ·) then
    let (page, pageBytes) ← shrink (window.page ++ [(entry, size)]) (window.pageBytes + size)
    return ⟨page, count, pageBytes, digested⟩
  else return { window with count, digested }

/-- Read a record again and project it. -/
def projectRecord (file : Bytes) (projector : Projector) (metadata : Value) :
    Except String (List Value × Projector) := do
  projector.entries hash decode (← readRecord hash parse file metadata)

def projectWindow (file : Bytes) (ordered : List Value) (projector : Projector)
    (target : Option Nat) : Except String (List Value × Nat × String) := do
  let (window, _) ← loopM ordered ({}, projector) fun state metadata => do
    let (entries, projector) ← projectRecord hash parse decode file state.2 metadata
    return (← loopM entries state.1 (addEntry target), projector)
  return (window.page.map (·.1), window.count,
    hash (utf8 (String.ofList (window.digested ++ [']']))))

/-! ### One page -/

def checkFrozenHash (initial : Bool) (expected : Option String) (actual reason : String) :
    Except String Unit :=
  ensure (initial || expected = some actual) reason

/-- The assistant records of the index that call tools. -/
def sourceCallsOf (metadata : List Value) : List Value :=
  metadata.filter fun record =>
    typeOf record = some "assistant" && blocks record "tool_use" "id" ≠ []

/-- Where the page ends, none for the end of the history. -/
def targetOf (state : Cursor) (initial : Bool) : Except String (Option Nat) :=
  if initial then .ok none
  else do
    return some (← context "Claude history cursor predates native reconstruction; reopen it"
      state.claudeBefore)

/-- Read a page; the result is the page, whether there is more before it, and the cursor. -/
def page (view : View) (state : Cursor) (initial : Bool) :
    Except String (List Value × Bool × Cursor) := do
  let (metadata, sourceHash) ← scanSource hash parse charge view.scanned state.snapshot state.id
  checkFrozenHash initial state.claudeSourceHash sourceHash
    "Claude frozen history changed; reopen it"
  let sourceCalls := sourceCallsOf metadata
  let ordered ← reconstruct metadata state.id
  let proofs ← HistoricalSnapshot.open view.journal state.id
  let projector ←
    preparePreservedFetches hash parse decode view.reread sourceCalls ordered ⟨proofs, ∅, ∅⟩
  let target ← targetOf state initial
  let (page, count, canonical) ←
    projectWindow hash parse decode view.reread ordered projector target
  checkFrozenHash initial state.claudeItemsHash canonical
    "Claude native projection changed; reopen it"
  ensure (target.all (· ≤ count)) "Claude logical history boundary changed; reopen it"
  ensure ((← sourceDigest hash view.verified state.snapshot) = sourceHash)
    "Claude frozen history changed during read; reopen it"
  let start := target.getD count - page.length
  return (page, decide (start > 0), { state with
    claudeBefore := some start
    claudeItemsHash := some canonical
    claudeSourceHash := some sourceHash })

end Reader

end Pikamux.Claude
