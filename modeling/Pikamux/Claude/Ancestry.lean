import Pikamux.Claude.Batches

/-!
# Claude — Ancestry

`mobile_claude_ancestry.rs`: the owned transcript records of one session are collected by uuid,
relinked across the last compaction boundary (`compact`), checked for missing ancestors and
cycles, relieved of attachment leaves (`pruneAttachments`), and put in one line by `chain`.

The provider's own leaf (`providerSelector`) is read from the `last-prompt` records that follow
the last transcript record; it is used only where the batches alone are ambiguous.
-/

namespace Pikamux.Claude

open Std Support Json

/-! ### The provider's leaf -/

/-- The last transcript record seen, the last pointer with the transcript position it was
written at, and whether two pointers of one position differ. -/
structure ProviderSelector where
  main : Option (String × Nat) := none
  pointer : Option (Value × Nat × Option Nat) := none
  conflict : Bool := false

/-- The record types that carry the conversation. -/
def mainType (kind : Option String) : Bool :=
  kind ∈ [some "user", some "assistant", some "system", some "attachment"]

namespace ProviderSelector

def observe (self : ProviderSelector) (record : Value) (index : Nat) : ProviderSelector :=
  if mainType (typeOf record) then
    { self with main := record["uuid"].asStr.map (·, index), conflict := false }
  else if typeOf record = some "last-prompt" then
    match record.get? "leafUuid" with
    | some pointer =>
        let generation := self.main.map (·.2)
        let differs := match self.pointer with
          | some (previous, _, previousGeneration) =>
              previousGeneration = generation && !previous.eq pointer
          | none => false
        { self with
          conflict := self.conflict || differs
          pointer := some (pointer, index, generation) }
    | none => self
  else self

def finish (self : ProviderSelector) : Except String (Option String) :=
  match self.pointer with
  | none => .ok none
  | some (pointer, index, _) => do
      let pointer ← context "Invalid Claude authoritative leaf selector" pointer.asStr
      ensure (!self.conflict) "Conflicting Claude authoritative leaf selectors"
      let (main, mainIndex) ←
        context "Claude authoritative leaf has no owned transcript" self.main
      ensure (pointer = main && index > mainIndex)
        "Claude authoritative leaf selector is stale or mismatched"
      return some pointer

end ProviderSelector

/-- The record belongs to the session and is not a side conversation's. -/
def owned (identity : String) (record : Value) : Bool :=
  record["sessionId"].asStr = some identity && record["isSidechain"].asBool ≠ some true

def observeAll (records : List Value) (identity : String) : ProviderSelector :=
  loop records.zipIdx {} fun selector (record, index) =>
    if owned identity record then selector.observe record index else selector

def providerSelector (records : List Value) (identity : String) :
    Except String (Option String) :=
  (observeAll records identity).finish

/-- From the leaf up through attachments to the first record that is none. -/
def conversationalLeaf (records : Records) (seen : ExtTreeSet String compare) (id : String) :
    Except String String :=
  if _hseen : seen.contains id = true then .error "Claude authoritative leaf ancestry cycles"
  else if _hmem : id ∈ records then
    if typeOf records[id]! ≠ some "attachment" then .ok id
    else
      match parentOf records[id]! with
      | some parent => conversationalLeaf records (seen.insert id) parent
      | none => .error "Claude authoritative leaf lacks conversational ancestry"
  else .error "Claude authoritative leaf is missing after compaction"
termination_by remaining records fun id => !seen.contains id
decreasing_by exact remaining_insert_lt _hmem (Bool.eq_false_iff.mpr _hseen)

def conversationalSelector (selector : Option String) (records : Records) :
    Except String (Option String) :=
  match selector with
  | none => .ok none
  | some id => do return some (← conversationalLeaf records ∅ id)

/-! ### Record kinds -/

def boundary (record : Value) : Bool :=
  typeOf record = some "system" && record["subtype"].asStr = some "compact_boundary"

/-- The record types that are metadata, not parent-chain records. -/
def metadataTypes : List String :=
  ["progress", "file-history-snapshot", "file-history-delta", "last-prompt", "continued-in",
    "summary", "custom-title", "ended-by-model", "ai-title", "tag", "relocated", "agent-name",
    "agent-color", "agent-setting", "pr-link", "bridge-session", "history-suppression",
    "attribution-snapshot", "mode", "permission-mode", "isolation-latch", "atis-latch",
    "worktree-state", "cost-state", "queue-operation", "observer-ref", "frame-link",
    "artifact-comment-monitor", "artifact-autoreact-ledger"]

/-- Whether a record is part of the transcript. -/
def transcript (record : Value) : Except String Bool := do
  let kind ← context "Claude record type missing" (typeOf record)
  if mainType (some kind) then
    ensure ((record.get? "compactMetadata").isNone || boundary record)
      "Unknown Claude compaction schema"
    return true
  ensure (metadataTypes.contains kind) "Unsupported Claude history record schema"
  return false

/-! ### Compaction -/

/-- `record["parentUuid"] = parent`. -/
def setParent (record : Value) (parent : String) : Value :=
  record.set "parentUuid" (.string parent)

/-- From the tail of a preserved segment up to its head. -/
def preservedWalk (records : Records) (head : String) (seen : ExtTreeSet String compare)
    (ids : List String) (current : String) : Except String (List String) :=
  if _hseen : seen.contains current = true then .error "Claude preservation walk cycles"
  else if _hmem : current ∈ records then
    let ids := ids ++ [current]
    if current = head then .ok ids
    else
      match parentOf records[current]! with
      | some parent => preservedWalk records head (seen.insert current) ids parent
      | none => .error "Claude preservation walk does not reach its head"
  else .error "Claude preservation walk has a missing ancestor"
termination_by remaining records fun id => !seen.contains id
decreasing_by exact remaining_insert_lt _hmem (Bool.eq_false_iff.mpr _hseen)

/-- The fields of an object, or the failure `message`. -/
def fieldsOf (v : Value) (message : String) : Except String (List (String × Value)) :=
  context message v.asObject

def preservedSegment (segment : Value) (records : Records) :
    Except String (Option String × List String) := do
  let fields ← fieldsOf segment "Unknown Claude preservedSegment schema"
  ensure (fields.all fun (key, _) => ["headUuid", "tailUuid", "anchorUuid"].contains key)
    "Unknown Claude preservedSegment schema"
  let head ← context "Claude preserved head missing" segment["headUuid"].asStr
  let tail ← context "Claude preserved tail missing" segment["tailUuid"].asStr
  let anchor ← context "Claude preserved anchor missing" segment["anchorUuid"].asStr
  let ids ← preservedWalk records head ∅ [] tail
  return (some anchor, ids.reverse)

/-- The anchor and the identities a compaction boundary preserves. -/
def preserved (metadata : Value) (records : Records) :
    Except String (Option String × List String) := do
  match metadata.get? "preservedMessages" with
  | some list =>
      let fields ← fieldsOf list
        "Unknown Claude preservedMessages schema; native relinking unavailable"
      ensure (fields.all fun (key, _) => ["anchorUuid", "uuids", "allUuids"].contains key)
        "Unknown Claude preservedMessages schema"
      let ids ← context "Claude preserved UUID list missing"
        ((list.get? "uuids").bind Value.asArray)
      let ids ← ids.mapM fun id => context "Invalid Claude preserved identity" id.asStr
      let anchor ← context "Claude preserved anchor missing"
        ((list.get? "anchorUuid").bind Value.asStr)
      ensure (ids ≠ []) "Empty Claude preservation schema unsupported"
      return (some anchor, ids)
  | none =>
      match metadata.get? "preservedSegment" with
      | some segment => preservedSegment segment records
      | none =>
          let fields := metadata.asObject.getD []
          ensure (fields.all fun (key, _) => !key.startsWith "preserved")
            "Unknown Claude preservation schema"
          return (none, [])

/-- String the preserved records together below the anchor, and hang the anchor's other
children below the last of them. -/
def rethread (records : Records) (anchor : String) (ids : List String) : Records :=
  let (records, parent) := loop ids (records, anchor) fun (records, parent) id =>
    (records.modify id fun record => setParent record parent, id)
  records.map fun id record =>
    if parentOf record = some anchor ∧ id ≠ ids[0]! then setParent record parent else record

def compactMetadataKeys : List String :=
  ["trigger", "preTokens", "postTokens", "cumulativeDroppedTokens", "durationMs", "userContext",
    "messagesSummarized", "precomputed", "preCompactDiscoveredTools", "preservedMessages",
    "preservedSegment"]

/-- `order.iter().rposition(|id| boundary(&map[id]))`. -/
def lastBoundary (order : List String) (records : Records) : Option Nat :=
  (order.reverse.findIdx? fun id => boundary records[id]!).map fun i => order.length - 1 - i

/-- Hang the preserved records below their anchor, which stands at or after the boundary. -/
def anchorPreserved (order : List String) (index : Nat) (records : Records)
    (keep : ExtTreeSet String compare) (anchor : Option String) (preserved : List String) :
    Except String Records :=
  match anchor with
  | none => .ok records
  | some anchor => do
      ensure (records.contains anchor && !keep.contains anchor)
        "Claude preserved anchor is missing or cyclic"
      ensure ((order.drop index).contains anchor)
        "Claude preserved anchor predates its boundary"
      return rethread records anchor preserved

/-- Drop what precedes the last compaction boundary, except what it preserves. -/
def compact (order : List String) (records : Records) : Except String Records :=
  match lastBoundary order records with
  | none => .ok records
  | some index => do
      let metadata := (records[order[index]!]!)["compactMetadata"]
      let fields ← fieldsOf metadata
        "Unknown Claude compaction schema; native relinking requires metadata"
      ensure (fields.all fun (key, _) => compactMetadataKeys.contains key)
        "Unknown Claude compaction metadata schema"
      let (anchor, preserved) ← preserved metadata records
      let keep := addCalls ∅ preserved
      ensure (keep.size = preserved.length) "Claude preserved identities repeat"
      ensure (preserved.all fun id => records.contains id) "Claude preserved message is missing"
      let records ← anchorPreserved order index records keep anchor preserved
      let removed := (order.take index).filter fun id => !keep.contains id
      let records := loop removed records fun records id => records.erase id
      match preserved.getLast? with
      | none => return records
      | some tail =>
          return records.map fun _ record =>
            if (typeOf record = some "user" ∨ typeOf record = some "assistant") ∧
                (parentOf record).any (removed.contains ·) then
              setParent record tail
            else record

/-! ### Ancestry checks and attachment leaves -/

def validateParents (records : Records) : Except String Unit :=
  forM records.toList fun (_, record) =>
    match parentOf record with
    | some parent =>
        ensure (records.contains parent)
          "Claude history has a missing native ancestor; read it in the original terminal"
    | none => .ok ()

/-- From `current` up to a root or a record already done: the records passed. -/
def cyclePath (records : Records) (done path : ExtTreeSet String compare)
    (current : Option String) : Except String (ExtTreeSet String compare) :=
  match current with
  | none => .ok path
  | some id =>
      if done.contains id then .ok path
      else if _hpath : path.contains id = true then
        .error "Claude native ancestry contains a cycle"
      else if _hmem : id ∈ records then
        cyclePath records done (path.insert id) (parentOf records[id]!)
      -- `validateParents` has run: every parent is a record.
      else .ok (path.insert id)
termination_by remaining records fun id => !path.contains id
decreasing_by exact remaining_insert_lt _hmem (Bool.eq_false_iff.mpr _hpath)

def validateCycles (records : Records) : Except String Unit := do
  let _ ← loopM records.keys (∅ : ExtTreeSet String compare) fun done id => do
    let path ← cyclePath records done ∅ (some id)
    return path.toList.foldl .insert done
  return ()

/-- Remove attachment leaves until none is left.  `counts` is the number of children. -/
def pruneLoop (records : Records) (counts : ExtTreeMap String Nat compare) :
    List String → Records
  | [] => records
  | id :: leaves =>
      match _h : records[id]? with
      | none => pruneLoop records counts leaves
      | some record =>
          match (parentOf record).filter (counts.contains ·) with
          | none => pruneLoop (records.erase id) counts leaves
          | some parent =>
              let count := counts[parent]! - 1
              if count = 0 ∧ typeOf (records.erase id)[parent]! = some "attachment" then
                pruneLoop (records.erase id) (counts.insert parent count) (parent :: leaves)
              else pruneLoop (records.erase id) (counts.insert parent count) leaves
termination_by leaves => records.size + leaves.length
decreasing_by
  all_goals have := @size_erase_lt _ records id
  all_goals grind

def pruneAttachments (records : Records) : Records :=
  let counts := childCounts records
  let leaves := (records.toList.filter fun (id, record) =>
    typeOf record = some "attachment" && !counts.contains id).map (·.1)
  pruneLoop records counts leaves.reverse

/-! ### Reconstruction -/

/-- Take in one record of the session. -/
def collectRecord (identity : String) (state : List String × Records) (record : Value) :
    Except String (List String × Records) := do
  let (order, records) := state
  if !owned identity record then return state
  if !(← transcript record) then return state
  let id ← context "Claude message UUID missing" record["uuid"].asStr
  ensure (id ≠ "" && id.utf8ByteSize ≤ 512) "Invalid Claude message identity"
  let parent ← context "Claude native parent identity is missing" (record.get? "parentUuid")
  ensure (parent.isNull || parent.isString) "Invalid Claude native parent identity"
  ensure (!records.contains id)
    "Claude repeated message identity needs native reconstruction; read it in the original terminal"
  return (order ++ [id], records.insert id record)

def collect (records : List Value) (identity : String) : Except String (List String × Records) :=
  loopM records ([], ∅) (collectRecord identity)

def reconstruct (records : List Value) (identity : String) : Except String (List Value) := do
  let selector := providerSelector records identity
  let (order, records) ← collect records identity
  let sources := resultSources records
  let records ← compact order records
  validateParents records
  validateCycles records
  let selector := do conversationalSelector (← selector) records
  let records := pruneAttachments records
  chain records order sources selector

end Pikamux.Claude
