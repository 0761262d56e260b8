import Pikamux.Claude.Ancestry
import Pikamux.Claude.Stream

/-!
# Claude — Index

The first pass of `mobile_claude_reader.rs`: `scan` reads every validated line of a frozen
history, reduces it with `Stream.extract`, drops what is foreign, a side conversation or metadata,
and keeps a compact ancestry index.  A `last-prompt` pointer is discarded when a later transcript
record arrives, since only pointers after the last one can select a branch.

The index is bounded by what its values occupy in memory.  That depends on the allocator and
stands here as the parameter `charge`; `metadataCharge` is that of buffers as long as what they
hold, which clones are.
-/

namespace Pikamux.Claude

open Support Json

/-- `INDEX_BYTES`. -/
def indexBytes : Nat := 128 * 1024 * 1024

/-- `NODE_OVERHEAD`. -/
def nodeOverhead : Nat := 1024

mutual

def retainedCharge : Value → Nat
  | .string s => Stream.valueBytes + s.utf8ByteSize
  | .array items => Stream.valueBytes + chargeItems items
  | .object fields => Stream.valueBytes + chargeFields fields
  | _ => Stream.valueBytes

def chargeItems : List Value → Nat
  | [] => 0
  | v :: vs => Stream.valueBytes + retainedCharge v + chargeItems vs

def chargeFields : List (String × Value) → Nat
  | [] => 0
  | (key, v) :: fields => key.utf8ByteSize + 256 + retainedCharge v + chargeFields fields

end

def metadataCharge (v : Value) : Except String Nat := .ok (retainedCharge v * 4 + nodeOverhead)

/-- A complete line that validation accepted: its syntax tree, none for an empty line, its length
and its digest. -/
structure Line where
  tree : Option Value
  length : Nat
  digest : String

/-- The records `serde_json` reads from the lines. -/
def recordsOf (lines : List Line) : List Value := lines.filterMap fun line => line.tree.map .ofTree

/-- The record is owned, and part of the transcript or a pointer. -/
def selectedRecord (record : Value) (identity : String) : Except String Bool :=
  if owned identity record then do
    return (← transcript record) || typeOf record = some "last-prompt"
  else .ok false

def metadataKeys : List String :=
  ["type", "uuid", "parentUuid", "sessionId", "isSidechain", "isMeta", "agentId", "leafUuid",
    "message", "subtype", "compactMetadata"]

def copyField (record result : Value) (key : String) : Value :=
  match record.get? key with
  | some v => result.set key v
  | none => result

/-- The index entry of a record: its ancestry fields and where it was read. -/
def metadata (record : Value) (offset length : Nat) : Value :=
  loop metadataKeys
    (.object [("_pikaLength", .number (.posInt length)), ("_pikaOffset", .number (.posInt offset))])
    (copyField record)

/-- The entry with the digest of its line. -/
def entry (record : Value) (offset : Nat) (line : Line) : Value :=
  (metadata record offset line.length).set "_pikaDigest" (.string line.digest)

/-- What the scan has read: the index, its charge, and the offset. -/
structure Scan where
  records : List Value := []
  used : Nat := 0
  offset : Nat := 0

section Scan

variable (charge : Value → Except String Nat)

def isPointer (record : Value) : Bool := typeOf record = some "last-prompt"

/-- Pop pointers off the end of the index; `reversed` is the index from its end. -/
def popPointers : List Value → Nat → Except String (List Value × Nat)
  | [], used => .ok ([], used)
  | stale :: reversed, used =>
      if isPointer stale then do
        let n ← charge stale
        popPointers reversed (used - n)
      else .ok (stale :: reversed, used)

def discardStaleSelectors (record : Value) (records : List Value) (used : Nat) :
    Except String (List Value × Nat) :=
  if isPointer record then .ok (records, used)
  else do
    let (reversed, used) ← popPointers charge records.reverse used
    return (reversed.reverse, used)

def chargedMetadata (record : Value) (offset : Nat) (line : Line) (used : Nat) :
    Except String (Value × Nat) := do
  let compact := entry record offset line
  let used := used + (← charge compact)
  ensure (used ≤ indexBytes)
    "Claude ancestry metadata exceeds its bounded memory budget; total transcript bytes are not the limit"
  return (compact, used)

def scanLine (identity : String) (state : Scan) (line : Line) : Except String Scan :=
  let offset := state.offset + line.length
  match line.tree with
  | none => .ok { state with offset := offset }
  | some tree => do
      let record ← Stream.extract false tree
      if ← selectedRecord record identity then
        let (records, used) ← discardStaleSelectors charge record state.records state.used
        let (compact, used) ← chargedMetadata charge record state.offset line used
        return ⟨records ++ [compact], used, offset⟩
      else return { state with offset := offset }

def scan (lines : List Line) (identity : String) : Except String (List Value) := do
  return (← loopM lines {} (scanLine charge identity)).records

end Scan

end Pikamux.Claude
