import Pikamux.Fleet.Refresh
import Pikamux.Json.Printed
import Pikamux.Support.Packing
import Pikamux.Support.Table

/-!
# Fleet — Board

`store.rs`: what the board shows of a remote machine is read from a cache of its snapshot.  The
sessions are printed one by one, each with its profile and card, and packed into chunks that are
JSON arrays of at most 64 KiB; a header counts the bytes and rows of each.  A reader takes whole
chunks while they fit its budget of bytes, and as many of their rows as it may have.

* `chunkCacheRows_eq` — the chunks are the greedy packing of the rows, and the header's counts are
  theirs.
* `readChunks_take` — a reader gets a prefix of the rows, within its budgets.
* `board_projection_faithful` — so the board has the first sessions of the snapshot that was stored,
  whatever else was stored since.

`serde_json` reads what it printed, if it reads it at all: it refuses what is nested too deeply
(`Codec.Faithful`).
-/

namespace Pikamux.Fleet

open Support Json

/-! ### The cache of a snapshot -/

structure RemoteBoardCacheChunk where
  bytes : Nat
  rows : Nat
  deriving DecidableEq

structure RemoteBoardCacheHeader (τ : Type) where
  schema : Nat
  nodeId : String
  protocol : String
  version : Int
  sourceCapturedAt : τ
  remoteCapturedAt : τ
  sourceEncodedBytes : Nat
  sourceSessions : Nat
  chunks : List RemoteBoardCacheChunk
  directoryNotices : List Value

structure PreparedRemoteBoardCache where
  header : String
  chunks : List String

def remoteBoardCacheSchema : Nat := 1

def remoteCacheChunkBytes : Nat := 64 * 1024

def maxRemoteCacheHeaderBytes : Nat := 64 * 1024

def maxRemoteBoardCacheBytes : Nat := maxRemoteSnapshotBytes + 512 * 1024

def maxRemoteCacheChunks : Nat := 128

/-- The parts of `serde_json` that are used beside its printer of values. -/
structure Codec (τ : Type) where
  /-- The texts that finite doubles have. -/
  double : String → Prop
  asF64 : Number → τ
  printHeader : RemoteBoardCacheHeader τ → String
  parseHeader : String → Option (RemoteBoardCacheHeader τ)
  parseRows : String → Option (List Value)

structure Codec.Faithful {τ : Type} (codec : Codec τ) : Prop where
  header : ∀ header header', (∀ notice ∈ header.directoryNotices, notice.Proper codec.double) →
    codec.parseHeader (codec.printHeader header) = some header' → header' = header
  rows : ∀ values values', (∀ value ∈ values, value.Proper codec.double) →
    codec.parseRows (Value.array values).toText = some values' → values' = values

/-! ### Chunks -/

/-- `[String]::join(",")` -/
def joinRows : List String → String
  | [] => ""
  | [row] => row
  | row :: next :: rows => row ++ "," ++ joinRows (next :: rows)

def encodeChunk (rows : List String) : String := "[" ++ joinRows rows ++ "]"

/-- The state of the loop over the rows. -/
structure Chunking where
  pending : List String := []
  contentBytes : Nat := 0
  chunks : List String := []
  metadata : List RemoteBoardCacheChunk := []

/-- `flush` -/
def Chunking.flush (c : Chunking) : Chunking :=
  if c.pending.isEmpty then c
  else
    let encoded := encodeChunk c.pending
    { c with
      metadata := c.metadata ++ [⟨encoded.utf8ByteSize, c.pending.length⟩]
      chunks := c.chunks ++ [encoded]
      pending := [] }

/-- `usize::checked_add` -/
def checkedAdd (a b : Nat) : Except String Nat :=
  if a + b < 2 ^ 64 then .ok (a + b) else .error "remote cache size overflowed"

def Chunking.addRow (c : Chunking) (row : String) : Except String Chunking := do
  let nextBytes := 2 + c.contentBytes + c.pending.length + row.utf8ByteSize
  let c := if !c.pending.isEmpty && remoteCacheChunkBytes < nextBytes then
      { c.flush with contentBytes := 0 }
    else c
  let contentBytes ← checkedAdd c.contentBytes row.utf8ByteSize
  return { c with contentBytes, pending := c.pending ++ [row] }

def chunkCacheRows (encodedRows : List String) :
    Except String (List String × List RemoteBoardCacheChunk) := do
  let c ← encodedRows.foldlM Chunking.addRow {}
  let c := c.flush
  return (c.chunks, c.metadata)

/-! ### Rows -/

/-- `(provider, session_id)` of an object that has both. -/
def rowKey (value : Value) : Option (String × String) := do
  let provider ← (← value.get? "provider").asStr
  let sessionId ← (← value.get? "session_id").asStr
  return (provider, sessionId)

/-- The values of a field. -/
def fieldItems (object : Value) (field : String) : List Value :=
  ((object.get? field).bind Value.asArray).getD []

/-- The values of a field by their key; of several with one key the last. -/
def keyed (object : Value) (field : String) (key : String × String) : Option Value :=
  (fieldItems object field).reverse.find? fun value => rowKey value = key

/-- One row of the board; objects print their fields in order. -/
def boardRow (object session : Value) (key : String × String) : Value :=
  .object [("card", (keyed object "cards" key).getD .null),
    ("profile", (keyed object "profiles" key).getD .null), ("session", session)]

/-- `Value::as_i64` -/
def asI64 : Value → Option Int
  | .number (.posInt n) => if n < 2 ^ 63 then some n else none
  | .number (.negInt magnitude) => some (-magnitude)
  | _ => none

/-- `Value::as_f64` -/
def Codec.asF64? {τ : Type} (codec : Codec τ) : Value → Option τ
  | .number n => some (codec.asF64 n)
  | _ => none

variable {τ : Type} (codec : Codec τ)

/-- The rows of the sessions, unless one has no key. -/
def boardRows (object : Value) (sessions : List Value) : Option (List Value) :=
  sessions.mapM fun session => (rowKey session).map (boardRow object session)

def totalBytes (chunks : List String) : Nat := (chunks.map String.utf8ByteSize).sum

def prepareRemoteBoardCache (nodeId : String) (object : Value) (capturedAt : τ)
    (sourceEncodedBytes : Nat) : Except String (Option PreparedRemoteBoardCache) := do
  let some sourceNodeId := (object.get? "node_id").bind Value.asStr | return none
  let some protocol := (object.get? "protocol").bind Value.asStr | return none
  let some version := (object.get? "version").bind asI64 | return none
  let some remoteCapturedAt := (object.get? "captured_at").bind codec.asF64? | return none
  let some sessions := (object.get? "sessions").bind Value.asArray | return none
  if sourceNodeId ≠ nodeId || 2000 < sessions.length then return none
  let some rows := boardRows object sessions | return none
  let (chunks, chunkMetadata) ← chunkCacheRows (rows.map Value.toText)
  if maxRemoteCacheChunks < chunkMetadata.length ||
      maxRemoteBoardCacheBytes < totalBytes chunks then return none
  let directoryNotices := fieldItems object "directory_notices"
  let header := codec.printHeader {
    schema := remoteBoardCacheSchema
    nodeId
    protocol
    version
    sourceCapturedAt := capturedAt
    remoteCapturedAt
    sourceEncodedBytes
    sourceSessions := sessions.length
    chunks := chunkMetadata
    directoryNotices }
  if maxRemoteCacheHeaderBytes < header.utf8ByteSize ||
      maxRemoteBoardCacheBytes < header.utf8ByteSize + totalBytes chunks then return none
  return some ⟨header, chunks⟩

/-! ### The store -/

/-- The adopted machines, their snapshots, the `meta` rows with a revision or with a cache from
before there were revisions, and the cache database. -/
structure BoardStore (τ : Type) where
  nodes : List String := []
  snapshots : Table String (String × τ) := ∅
  revisions : Table String String := ∅
  formerHeaders : Table String String := ∅
  formerChunks : Table (String × Nat) String := ∅
  projections : Table (String × String) String := ∅
  projectionChunks : Table (String × String × Nat) String := ∅

/-- The rows of the chunks from an index on. -/
def chunkRows (nodeId revision : String) :
    Nat → List String → List ((String × String × Nat) × String)
  | _, [] => []
  | index, chunk :: chunks =>
      ((nodeId, revision, index), chunk) :: chunkRows nodeId revision (index + 1) chunks

def stageRemoteCache (nodeId revision : String) (cache : Option PreparedRemoteBoardCache)
    (store : BoardStore τ) : Except String (BoardStore τ) :=
  match cache with
  | none => .ok store
  | some cache =>
      context "UNIQUE constraint failed" do
        let projections ← store.projections.insert? (nodeId, revision) cache.header
        let projectionChunks ← store.projectionChunks.insertAll?
          (chunkRows nodeId revision 0 cache.chunks)
        return { store with projections, projectionChunks }

def discardRemoteCacheRevision (nodeId revision : String) (store : BoardStore τ) : BoardStore τ :=
  { store with
    projections := store.projections.delete fun key _ => key = (nodeId, revision)
    projectionChunks := store.projectionChunks.delete fun key _ =>
      key.1 = nodeId && key.2.1 = revision }

/-- What preparing and staging the projection for experts came to is `expert`. -/
def putRemoteSnapshot (nodeId : String) (payload : Value) (capturedAt : τ) (revision : String)
    (expert : Except String Unit) (store : BoardStore τ) :
    Except String (BoardStore τ) := do
  ensure payload.asObject.isSome "remote snapshot must be a JSON object"
  let encoded := payload.toText
  ensure (encoded.utf8ByteSize ≤ maxRemoteSnapshotBytes)
    "remote snapshot exceeds the 4 MiB safety limit"
  let boardCache ← prepareRemoteBoardCache codec nodeId payload capturedAt encoded.utf8ByteSize
  expert
  let store ← stageRemoteCache nodeId revision boardCache store
  ensure (store.nodes.contains nodeId) "remote snapshot requires an adopted fleet node"
  let previous := store.revisions.get? nodeId
  let store := { store with
    snapshots := store.snapshots.upsert nodeId (encoded, capturedAt)
    revisions := store.revisions.upsert nodeId revision }
  match previous with
  | some previous =>
      if previous ≠ revision then return discardRemoteCacheRevision nodeId previous store
      else return store
  | none => return store

/-! ### Reading the cache -/

structure RemoteBoardProjection (τ : Type) where
  rows : List Value
  protocol : String
  version : Int
  sourceSessions : Nat
  sourceCapturedAt : τ
  remoteCapturedAt : τ
  sourceEncodedBytes : Nat
  inputBytes : Nat
  directoryNotices : List Value

/-- The loop over the chunks from an index on, with the bytes and rows that were read. -/
def readChunks (fetch : Nat → Option String) (maxBytes maxRows : Nat) :
    List RemoteBoardCacheChunk → Nat → Nat → List Value → Except String (Nat × List Value)
  | [], _, inputBytes, rows => .ok (inputBytes, rows)
  | chunk :: chunks, index, inputBytes, rows =>
      if chunk.bytes = 0 ∨ maxRemoteBoardCacheBytes < chunk.bytes ∨ chunk.rows = 0 ∨
          2000 < chunk.rows then
        .error "stored remote board cache chunk metadata is invalid"
      else if maxRows ≤ rows.length ∨ maxBytes - inputBytes < chunk.bytes then
        .ok (inputBytes, rows)
      else match (fetch index).filter fun value => value.utf8ByteSize = chunk.bytes with
        | none => .error "stored remote board cache chunk is missing or changed"
        | some encoded => match codec.parseRows encoded with
          | none => .error "stored remote board cache chunk is malformed"
          | some values =>
              if values.length ≠ chunk.rows then
                .error "stored remote board cache chunk row count changed"
              else readChunks fetch maxBytes maxRows chunks (index + 1) (inputBytes + chunk.bytes)
                (rows ++ values.take (maxRows - rows.length))

/-- What both places of a cache have in common. -/
def readBoard [DecidableEq τ] (nodeId : String) (maxBytes maxRows : Nat)
    (source : String × τ) (encodedHeader : Option String) (fetch : Nat → Option String) :
    Except String (Option (RemoteBoardProjection τ)) :=
  match encodedHeader.filter fun header => header.utf8ByteSize ≤ maxRemoteCacheHeaderBytes with
  | none => .ok none
  | some encodedHeader => do
      let headerBytes := encodedHeader.utf8ByteSize
      ensure (headerBytes ≤ maxBytes)
        "stored remote board cache header exceeds its per-node input budget"
      let header ← context "stored remote board cache header is malformed"
        (codec.parseHeader encodedHeader)
      ensure (header.schema = remoteBoardCacheSchema ∧ header.nodeId = nodeId ∧
        header.sourceCapturedAt = source.2 ∧ header.sourceEncodedBytes = source.1.utf8ByteSize ∧
        header.chunks.length ≤ maxRemoteCacheChunks ∧ header.sourceSessions ≤ 2000)
        "stored remote board cache does not match its source snapshot"
      let (inputBytes, rows) ←
        readChunks codec fetch maxBytes maxRows header.chunks 0 headerBytes []
      return some {
        rows
        protocol := header.protocol
        version := header.version
        sourceSessions := header.sourceSessions
        sourceCapturedAt := source.2
        remoteCapturedAt := header.remoteCapturedAt
        sourceEncodedBytes := source.1.utf8ByteSize
        inputBytes
        directoryNotices := header.directoryNotices }

def getRemoteBoardProjection [DecidableEq τ] (nodeId : String) (maxBytes maxRows : Nat)
    (store : BoardStore τ) : Except String (Option (RemoteBoardProjection τ)) :=
  match store.snapshots.get? nodeId with
  | none => .ok none
  | some source => match store.revisions.get? nodeId with
    | some revision => readBoard codec nodeId maxBytes maxRows source
        (store.projections.get? (nodeId, revision)) fun index =>
          store.projectionChunks.get? (nodeId, revision, index)
    | none => readBoard codec nodeId maxBytes maxRows source (store.formerHeaders.get? nodeId)
        fun index => store.formerChunks.get? (nodeId, index)

/-! ### Packing -/

/-- A chunk of these rows may be closed with them. -/
def chunkFits (rows : List String) : Bool :=
  (encodeChunk rows).utf8ByteSize ≤ remoteCacheChunkBytes

def RemoteBoardCacheChunk.of (rows : List String) : RemoteBoardCacheChunk :=
  ⟨(encodeChunk rows).utf8ByteSize, rows.length⟩

theorem utf8ByteSize_joinRows {rows : List String} (h : rows ≠ []) :
    (joinRows rows).utf8ByteSize + 1 = totalBytes rows + rows.length := by
  induction rows with
  | nil => exact absurd rfl h
  | cons row rows ih =>
      cases rows with
      | nil => simp [joinRows, totalBytes]
      | cons next rows =>
          have hcomma : ",".utf8ByteSize = 1 := by decide
          have hrest := ih (List.cons_ne_nil next rows)
          simp only [joinRows, String.utf8ByteSize_append, totalBytes, List.map_cons, List.sum_cons,
            List.length_cons] at hrest ⊢
          omega

/-- The code's prediction of the next size is exact. -/
theorem utf8ByteSize_encodeChunk_concat (rows : List String) (row : String) :
    (encodeChunk (rows ++ [row])).utf8ByteSize =
      2 + totalBytes rows + rows.length + row.utf8ByteSize := by
  have hopen : "[".utf8ByteSize = 1 := by decide
  have hclose : "]".utf8ByteSize = 1 := by decide
  have hrows : (joinRows (rows ++ [row])).utf8ByteSize + 1 =
      totalBytes (rows ++ [row]) + (rows ++ [row]).length :=
    utf8ByteSize_joinRows (by simp)
  simp only [totalBytes, List.map_append, List.sum_append, List.map_cons, List.map_nil,
    List.sum_singleton, List.length_append, List.length_singleton] at hrows
  simp only [encodeChunk, String.utf8ByteSize_append, totalBytes]
  omega

/-- The loop's state, and the packing it stands for. -/
structure Chunking.Of (c : Chunking) (p : Packing String) : Prop where
  pending : c.pending = p.opened
  contentBytes : c.contentBytes = totalBytes p.opened
  chunks : c.chunks = p.closed.map encodeChunk
  metadata : c.metadata = p.closed.map .of

variable {c c' : Chunking} {p : Packing String}

theorem Chunking.Of.flush (h : c.Of p) :
    c.flush.chunks = p.groups.map encodeChunk ∧ c.flush.metadata = p.groups.map .of := by
  rw [Chunking.flush, Packing.groups, h.pending]
  split
  · exact ⟨h.chunks, h.metadata⟩
  · simp [h.chunks, h.metadata, RemoteBoardCacheChunk.of]

theorem checkedAdd_eq_ok {a b n : Nat} (h : checkedAdd a b = .ok n) : n = a + b := by
  rw [checkedAdd] at h
  split at h
  · exact (Except.ok.inj h).symm
  · cases h

theorem Chunking.Of.addRow {row : String} (h : c.Of p) (hrow : c.addRow row = .ok c') :
    c'.Of (p.add chunkFits row) := by
  have hbytes : 2 + c.contentBytes + c.pending.length + row.utf8ByteSize =
      (encodeChunk (p.opened ++ [row])).utf8ByteSize := by
    rw [utf8ByteSize_encodeChunk_concat, h.contentBytes, h.pending]
  have hfull : (!c.pending.isEmpty && decide (remoteCacheChunkBytes < 2 + c.contentBytes +
      c.pending.length + row.utf8ByteSize)) =
        (!p.opened.isEmpty && !chunkFits (p.opened ++ [row])) := by
    rw [hbytes, h.pending, chunkFits, ← decide_not]
    simp only [Nat.not_le]
  simp only [Chunking.addRow, hfull] at hrow
  obtain ⟨contentBytes, hsum, hrow⟩ := bind_eq_ok.mp hrow
  cases hrow
  have hsum := checkedAdd_eq_ok hsum
  rw [Packing.add]
  by_cases hnew : (!p.opened.isEmpty && !chunkFits (p.opened ++ [row])) = true
  · simp only [hnew, if_true] at hsum ⊢
    have hne : p.opened.isEmpty = false := by simpa using (Bool.and_eq_true_iff.mp hnew).1
    simp only [Chunking.flush, h.pending, hne, Bool.false_eq_true, if_false] at hsum ⊢
    refine ⟨rfl, ?_, ?_, ?_⟩
    · simp [hsum, totalBytes]
    · simp [h.chunks]
    · simp [h.metadata, RemoteBoardCacheChunk.of]
  · simp only [hnew, if_false, Bool.false_eq_true] at hsum ⊢
    refine ⟨?_, ?_, h.chunks, h.metadata⟩
    · rw [h.pending]
    · simp [hsum, h.contentBytes, totalBytes]

theorem chunkCacheRows_eq {rows : List String} {result : List String × List RemoteBoardCacheChunk}
    (h : chunkCacheRows rows = .ok result) :
    result = ((pack chunkFits rows).map encodeChunk, (pack chunkFits rows).map .of) := by
  have hfold : ∀ (rows : List String) (c c' : Chunking) (p : Packing String), c.Of p →
      rows.foldlM Chunking.addRow c = .ok c' → c'.Of (rows.foldl (Packing.add chunkFits) p) := by
    intro rows
    induction rows with
    | nil =>
        intro c c' p hc hok
        cases hok
        exact hc
    | cons row rows ih =>
        intro c c' p hc hok
        rw [List.foldlM_cons] at hok
        obtain ⟨next, hnext, hok⟩ := bind_eq_ok.mp hok
        exact ih next c' _ (hc.addRow hnext) hok
  obtain ⟨c, hc, hresult⟩ := bind_eq_ok.mp h
  cases hresult
  have hof := (hfold rows {} c {} ⟨rfl, rfl, rfl, rfl⟩ hc).flush
  exact Prod.ext hof.1 hof.2

/-! ### What a reader gets -/

/-- The text of a chunk is the text of the array of its rows. -/
theorem encodeChunk_toText (values : List Value) :
    encodeChunk (values.map Value.toText) = (Value.array values).toText := by
  have hjoin : (joinRows (values.map Value.toText)).toList = commaSep (values.map Value.chars) := by
    induction values with
    | nil => rfl
    | cons value values ih =>
        cases values with
        | nil => simp [joinRows, commaSep, Value.toText]
        | cons next values =>
            simp only [List.map_cons] at ih ⊢
            rw [joinRows, String.toList_append, String.toList_append, ih, commaSep]
            simp [Value.toText]
  refine String.toList_injective ?_
  simp [encodeChunk, hjoin, Value.toText, Value.chars, Value.charsItems_eq]

section Read

variable {fetch : Nat → Option String} {maxBytes maxRows : Nat}

/-- Nothing is read when there are rows enough. -/
theorem readChunks_full {chunks : List RemoteBoardCacheChunk} {index inputBytes : Nat}
    {rows : List Value} {result : Nat × List Value} (hfull : maxRows ≤ rows.length)
    (h : readChunks codec fetch maxBytes maxRows chunks index inputBytes rows = .ok result) :
    result = (inputBytes, rows) := by
  cases chunks with
  | nil => exact (Except.ok.inj h).symm
  | cons chunk chunks =>
      rw [readChunks] at h
      split at h
      · cases h
      · rw [if_pos (.inl hfull)] at h
        exact (Except.ok.inj h).symm

/-- What is read is a prefix of the rows of the chunks, whole where the budgets are large enough. -/
theorem readChunks_take (hcodec : codec.Faithful) {groups : List (List Value)}
    {index inputBytes : Nat} {rows : List Value} {result : Nat × List Value} (hne : ∀ group ∈ groups, group ≠ [])
    (hproper : ∀ group ∈ groups, ∀ value ∈ group, value.Proper codec.double)
    (hfetch : ∀ i group text, groups[i]? = some group → fetch (index + i) = some text →
      text = encodeChunk (group.map Value.toText))
    (hle : inputBytes ≤ maxBytes)
    (h : readChunks codec fetch maxBytes maxRows
      (groups.map fun group => .of (group.map Value.toText)) index inputBytes rows = .ok result) :
    result.1 ≤ maxBytes ∧ (∃ k, result.2 = rows ++ groups.flatten.take k) ∧
      (rows.length + groups.flatten.length ≤ maxRows →
        inputBytes + totalBytes (groups.map fun group => encodeChunk (group.map Value.toText)) ≤
          maxBytes → result.2 = rows ++ groups.flatten) := by
  induction groups generalizing index inputBytes rows with
  | nil =>
      cases h
      exact ⟨hle, ⟨0, by simp⟩, fun _ _ => by simp⟩
  | cons group groups ih =>
      rw [List.map_cons, readChunks] at h
      split at h
      · cases h
      split at h
      case isTrue hstop =>
        cases h
        refine ⟨hle, ⟨0, by simp⟩, fun hrows hbytes => ?_⟩
        -- a chunk that budgets for everything allow is not refused
        have hpos := List.length_pos_of_ne_nil (hne group List.mem_cons_self)
        simp only [RemoteBoardCacheChunk.of, totalBytes, List.map_cons, List.sum_cons,
          List.flatten_cons, List.length_append] at hstop hbytes hrows
        omega
      case isFalse hgo =>
        split at h
        · cases h
        case h_2 encoded hencoded =>
          obtain ⟨hfound, -⟩ := Option.filter_eq_some_iff.mp hencoded
          have htext := hfetch 0 group encoded rfl hfound
          split at h
          · cases h
          case h_2 values hvalues =>
            rw [htext, encodeChunk_toText] at hvalues
            have hvalues := hcodec.rows _ _ (hproper group List.mem_cons_self) hvalues
            subst hvalues
            rw [if_neg (by simp [RemoteBoardCacheChunk.of])] at h
            have hbytes : inputBytes +
                (RemoteBoardCacheChunk.of (values.map Value.toText)).bytes ≤ maxBytes := by omega
            have hfetch' : ∀ i group text, groups[i]? = some group →
                fetch (index + 1 + i) = some text →
                  text = encodeChunk (group.map Value.toText) := by
              intro i group text hgroup htext
              refine hfetch (i + 1) group text (by simpa using hgroup) ?_
              rwa [Nat.add_assoc, Nat.add_comm 1 i] at htext
            have hrest := ih (fun g hg => hne g (List.mem_cons_of_mem _ hg))
              (fun g hg => hproper g (List.mem_cons_of_mem _ hg)) hfetch' hbytes h
            obtain ⟨hle', ⟨k, hk⟩, hall⟩ := hrest
            refine ⟨hle', ?_, fun hrows htotal => ?_⟩
            · by_cases hcut : values.length ≤ maxRows - rows.length
              · rw [List.take_of_length_le hcut] at hk
                refine ⟨values.length + k, ?_⟩
                rw [hk, List.flatten_cons, List.take_length_add_append, List.append_assoc]
              · -- the rows are cut here, and no more are read
                have hfull : maxRows ≤
                    (rows ++ values.take (maxRows - rows.length)).length := by
                  simp only [List.length_append, List.length_take]
                  omega
                refine ⟨maxRows - rows.length, ?_⟩
                rw [readChunks_full codec hfull h, List.flatten_cons,
                  List.take_append_of_le_length (by omega)]
            · simp only [List.flatten_cons, List.length_append, totalBytes, List.map_cons,
                List.sum_cons] at hrows htotal
              have hcut : values.length ≤ maxRows - rows.length := by omega
              rw [List.take_of_length_le hcut] at hall
              rw [hall (by simp only [List.length_append]; omega)
                (by simp only [RemoteBoardCacheChunk.of, totalBytes]; omega),
                List.flatten_cons, List.append_assoc]

end Read

/-! ### The board of a stored snapshot -/

/-- The value is one of the field's with this key, or null when there is none. -/
def Own (object : Value) (field : String) (key : String × String) (value : Value) : Prop :=
  (value ∈ fieldItems object field ∧ rowKey value = some key) ∨
    (value = .null ∧ ∀ other ∈ fieldItems object field, rowKey other ≠ some key)

/-- A session with the profile and the card of its own. -/
def OwnRow (object session row : Value) : Prop :=
  ∃ key profile card, rowKey session = some key ∧ Own object "profiles" key profile ∧
    Own object "cards" key card ∧
    row = .object [("card", card), ("profile", profile), ("session", session)]

theorem own_keyed (object : Value) (field : String) (key : String × String) :
    Own object field key ((keyed object field key).getD .null) := by
  cases h : keyed object field key with
  | some value =>
      have hmem := List.mem_of_find?_eq_some h
      have hkey := List.find?_some h
      exact .inl ⟨List.mem_reverse.mp hmem, by simpa using hkey⟩
  | none =>
      refine .inr ⟨rfl, fun other hother => ?_⟩
      have hnone := List.find?_eq_none.mp h other (List.mem_reverse.mpr hother)
      simpa using hnone

theorem boardRows_own {object : Value} {sessions rows : List Value}
    (h : boardRows object sessions = some rows) : List.Forall₂ (OwnRow object) sessions rows := by
  induction sessions generalizing rows with
  | nil =>
      cases h
      exact .nil
  | cons session sessions ih =>
      rw [boardRows, List.mapM_cons] at h
      obtain ⟨row, hrow, h⟩ := Option.bind_eq_some_iff.mp h
      obtain ⟨rest, hrest, h⟩ := Option.bind_eq_some_iff.mp h
      cases h
      obtain ⟨key, hkey, rfl⟩ := Option.map_eq_some_iff.mp hrow
      exact .cons ⟨key, _, _, hkey, own_keyed object "profiles" key, own_keyed object "cards" key,
        rfl⟩ (ih hrest)

section Proper

variable {double : String → Prop} {object value : Value}

theorem proper_get? {field : String} (h : object.Proper double)
    (hget : object.get? field = some value) : value.Proper double := by
  cases h with
  | object _ hfields =>
      obtain ⟨before, after, hsplit, -⟩ := List.lookup_eq_some_iff.mp hget
      exact hfields (field, value) (hsplit ▸ by simp)
  | _ => cases hget

theorem proper_fieldItems {field : String} (h : object.Proper double) :
    ∀ value ∈ fieldItems object field, value.Proper double := by
  intro value hvalue
  cases hfield : object.get? field with
  | none => simp [fieldItems, hfield] at hvalue
  | some items =>
      cases proper_get? h hfield with
      | array hitems =>
          exact hitems value (by simpa [fieldItems, hfield, Value.asArray] using hvalue)
      | _ => simp [fieldItems, hfield, Value.asArray] at hvalue

theorem proper_own {field : String} {key : String × String} (h : object.Proper double)
    (hown : Own object field key value) : value.Proper double := by
  rcases hown with ⟨hmem, -⟩ | ⟨rfl, -⟩
  · exact proper_fieldItems h value hmem
  · exact .null

theorem proper_ownRow {session row : Value} (h : object.Proper double)
    (hsession : session.Proper double) (hrow : OwnRow object session row) :
    row.Proper double := by
  obtain ⟨key, profile, card, -, hprofile, hcard, rfl⟩ := hrow
  have hkeys : ["card", "profile", "session"].Pairwise (· < ·) := by decide
  refine .object (List.pairwise_map.mp hkeys) ?_
  simp only [List.forall_mem_cons, List.not_mem_nil, false_imp_iff, implies_true, and_true]
  exact ⟨proper_own h hcard, proper_own h hprofile, hsession⟩

theorem proper_rows {sessions rows : List Value} (h : object.Proper double)
    (hsessions : ∀ session ∈ sessions, session.Proper double)
    (hown : List.Forall₂ (OwnRow object) sessions rows) : ∀ row ∈ rows, row.Proper double := by
  induction hown with
  | nil => simp
  | cons hrow _ ih =>
      rw [List.forall_mem_cons] at hsessions ⊢
      exact ⟨proper_ownRow h hsessions.1 hrow, ih hsessions.2⟩

/-- The rows of a proper object's sessions. -/
theorem proper_boardRows {sessions rows : List Value} (h : object.Proper double)
    (hsessions : (object.get? "sessions").bind Value.asArray = some sessions)
    (hrows : boardRows object sessions = some rows) : ∀ row ∈ rows, row.Proper double := by
  refine proper_rows h ?_ (boardRows_own hrows)
  have hitems := @proper_fieldItems double object "sessions" h
  rwa [fieldItems, hsessions, Option.getD_some] at hitems

end Proper

/-- What a prepared cache is. -/
theorem prepareRemoteBoardCache_eq {nodeId : String} {object : Value} {capturedAt : τ}
    {sourceEncodedBytes : Nat} {cache : PreparedRemoteBoardCache}
    (h : prepareRemoteBoardCache codec nodeId object capturedAt sourceEncodedBytes =
      .ok (some cache)) :
    ∃ sessions rows header, (object.get? "sessions").bind Value.asArray = some sessions ∧
      boardRows object sessions = some rows ∧ cache.header = codec.printHeader header ∧
      header.directoryNotices = fieldItems object "directory_notices" ∧
      header.chunks = (pack chunkFits (rows.map Value.toText)).map .of ∧
      cache.chunks = (pack chunkFits (rows.map Value.toText)).map encodeChunk := by
  simp only [prepareRemoteBoardCache] at h
  split at h
  case h_2 => cases h
  split at h
  case h_2 => cases h
  split at h
  case h_2 => cases h
  split at h
  case h_2 => cases h
  split at h
  case h_2 => cases h
  case h_1 sessions hsessions =>
    split at h
    · cases h
    split at h
    case h_2 => cases h
    case h_1 rows hrows =>
      obtain ⟨chunked, hchunked, h⟩ := bind_eq_ok.mp h
      have hchunks := chunkCacheRows_eq hchunked
      subst hchunks
      simp only at h
      split at h
      · cases h
      split at h
      · cases h
      cases h
      exact ⟨sessions, rows, _, hsessions, hrows, rfl, rfl, rfl, rfl⟩

/-- The snapshot's row and the cache's, as far as that is still there. -/
structure Stored (nodeId revision : String) (source : String × τ)
    (cache : PreparedRemoteBoardCache) (store : BoardStore τ) : Prop where
  snapshot : store.snapshots.get? nodeId = some source
  current : store.revisions.get? nodeId = some revision
  header : ∀ header, store.projections.get? (nodeId, revision) = some header →
    header = cache.header
  chunks : ∀ i chunk text, cache.chunks[i]? = some chunk →
    store.projectionChunks.get? (nodeId, revision, i) = some text → text = chunk

/-- What may happen to a store while the machine has this revision: the machine's rows stay, or go
from the cache database. -/
structure Untouched (nodeId revision : String) (store store' : BoardStore τ) : Prop where
  snapshot : store'.snapshots.get? nodeId = store.snapshots.get? nodeId
  current : store'.revisions.get? nodeId = store.revisions.get? nodeId
  header : ∀ header, store'.projections.get? (nodeId, revision) = some header →
    store.projections.get? (nodeId, revision) = some header
  chunks : ∀ i text, store'.projectionChunks.get? (nodeId, revision, i) = some text →
    store.projectionChunks.get? (nodeId, revision, i) = some text

section Store

variable {nodeId revision : String} {source : String × τ} {cache : PreparedRemoteBoardCache}
  {store store' : BoardStore τ}

theorem Stored.untouched (h : Stored nodeId revision source cache store)
    (hlater : Untouched nodeId revision store store') :
    Stored nodeId revision source cache store' where
  snapshot := hlater.snapshot.trans h.snapshot
  current := hlater.current.trans h.current
  header := fun header hheader => h.header header (hlater.header header hheader)
  chunks := fun i chunk text hchunk htext =>
    h.chunks i chunk text hchunk (hlater.chunks i text htext)

theorem mem_chunkRows {chunks : List String} {chunk : String} {index i : Nat}
    (h : chunks[i]? = some chunk) :
    ((nodeId, revision, index + i), chunk) ∈ chunkRows nodeId revision index chunks := by
  induction chunks generalizing index i with
  | nil => simp at h
  | cons first chunks ih =>
      rw [chunkRows, List.mem_cons]
      cases i with
      | zero =>
          left
          simpa using h.symm
      | succ i =>
          right
          have hrest := @ih (index + 1) i (by simpa using h)
          rwa [Nat.add_assoc, Nat.add_comm 1 i] at hrest

theorem stageRemoteCache_eq (h : stageRemoteCache nodeId revision (some cache) store = .ok store') :
    store'.projections.get? (nodeId, revision) = some cache.header ∧
      (∀ i chunk, cache.chunks[i]? = some chunk →
        store'.projectionChunks.get? (nodeId, revision, i) = some chunk) ∧
      ∃ projections projectionChunks, store' = { store with projections, projectionChunks } := by
  simp only [stageRemoteCache, context_eq_ok] at h
  obtain ⟨projections, hprojections, h⟩ := Option.bind_eq_some_iff.mp h
  obtain ⟨projectionChunks, hchunks, h⟩ := Option.bind_eq_some_iff.mp h
  cases h
  refine ⟨?_, fun i chunk hchunk => ?_, projections, projectionChunks, rfl⟩
  · rw [Table.get?_insert? hprojections, if_pos rfl]
  · have hmem := @mem_chunkRows nodeId revision cache.chunks chunk 0 i hchunk
    rw [Nat.zero_add] at hmem
    exact (Table.get?_insertAll? hchunks).2 _ _ hmem

/-- A snapshot that was put is stored, and so is its cache. -/
theorem putRemoteSnapshot_stored {payload : Value} {capturedAt : τ} {expert : Except String Unit}
    (hput : putRemoteSnapshot codec nodeId payload capturedAt revision expert store = .ok store')
    (hcache : prepareRemoteBoardCache codec nodeId payload capturedAt
      payload.toText.utf8ByteSize = .ok (some cache)) :
    Stored nodeId revision (payload.toText, capturedAt) cache store' := by
  simp only [putRemoteSnapshot, hcache] at hput
  obtain ⟨_, -, hput⟩ := bind_eq_ok.mp hput
  obtain ⟨_, -, hput⟩ := bind_eq_ok.mp hput
  simp only [ok_bind] at hput
  obtain ⟨_, -, hput⟩ := bind_eq_ok.mp hput
  obtain ⟨staged, hstaged, hput⟩ := bind_eq_ok.mp hput
  obtain ⟨_, -, hput⟩ := bind_eq_ok.mp hput
  obtain ⟨hheader, hchunks, projections, projectionChunks, -⟩ := stageRemoteCache_eq hstaged
  have hwritten : Stored nodeId revision (payload.toText, capturedAt) cache
      { staged with
        snapshots := staged.snapshots.upsert nodeId (payload.toText, capturedAt)
        revisions := staged.revisions.upsert nodeId revision } := by
    refine ⟨?_, ?_, ?_, ?_⟩
    · exact (Table.get?_upsert ..).trans (if_pos rfl)
    · exact (Table.get?_upsert ..).trans (if_pos rfl)
    · exact fun header h => Option.some.inj (h.symm.trans hheader)
    · exact fun i chunk text hchunk h => Option.some.inj (h.symm.trans (hchunks i chunk hchunk))
  split at hput
  case h_1 previous hprevious =>
    split at hput
    case isTrue hne =>
      cases hput
      refine hwritten.untouched ⟨rfl, rfl, ?_, ?_⟩
      · exact fun header h => (Table.get?_delete.mp h).1
      · exact fun i text h => (Table.get?_delete.mp h).1
    case isFalse =>
      cases hput
      exact hwritten
  case h_2 =>
    cases hput
    exact hwritten

/-- The board of a machine whose snapshot is stored. -/
theorem Stored.projection [DecidableEq τ] (hcodec : codec.Faithful) {payload : Value}
    {capturedAt : τ} (hpayload : payload.Proper codec.double)
    (hstored : Stored nodeId revision source cache store)
    {n maxBytes maxRows : Nat} {projection : RemoteBoardProjection τ}
    (hcache : prepareRemoteBoardCache codec nodeId payload capturedAt n = .ok (some cache))
    (hget : getRemoteBoardProjection codec nodeId maxBytes maxRows store = .ok (some projection)) :
    ∃ sessions rows, (payload.get? "sessions").bind Value.asArray = some sessions ∧
      boardRows payload sessions = some rows ∧ projection.inputBytes ≤ maxBytes ∧
      (∃ k, projection.rows = rows.take k) ∧
      (rows.length ≤ maxRows → cache.header.utf8ByteSize + totalBytes cache.chunks ≤ maxBytes →
        projection.rows = rows) := by
  obtain ⟨sessions, rows, header, hsessions, hrows, hheader, hnotices, hmetadata, hchunks⟩ :=
    prepareRemoteBoardCache_eq codec hcache
  -- the groups of rows that the chunks print
  generalize hgroups : pack (fun group => chunkFits (group.map Value.toText)) rows = groups
  have hflatten : groups.flatten = rows := hgroups ▸ flatten_pack rows
  have hne : ∀ group ∈ groups, group ≠ [] := fun group hgroup =>
    pack_ne_nil rows (hgroups.symm ▸ hgroup)
  rw [pack_map, hgroups, List.map_map] at hmetadata hchunks
  rw [getRemoteBoardProjection, hstored.snapshot] at hget
  simp only [hstored.current, readBoard] at hget
  split at hget
  case h_1 => cases hget
  case h_2 encoded hencoded =>
    obtain ⟨hfound, -⟩ := Option.filter_eq_some_iff.mp hencoded
    have htext := hstored.header encoded hfound
    obtain ⟨_, hfits, hget⟩ := bind_eq_ok.mp hget
    obtain ⟨read, hread, hget⟩ := bind_eq_ok.mp hget
    obtain ⟨_, -, hget⟩ := bind_eq_ok.mp hget
    obtain ⟨result, hresult, hget⟩ := bind_eq_ok.mp hget
    cases hget
    rw [context_eq_ok, htext, hheader] at hread
    have hread := hcodec.header _ _ (hnotices ▸ proper_fieldItems hpayload) hread
    subst hread
    rw [hmetadata] at hresult
    have hfetch : ∀ i group text, groups[i]? = some group →
        store.projectionChunks.get? (nodeId, revision, 0 + i) = some text →
          text = encodeChunk (group.map Value.toText) := by
      intro i group text hgroup htext
      rw [Nat.zero_add] at htext
      exact hstored.chunks i _ text (by simp [hchunks, hgroup]) htext
    have hproper : ∀ group ∈ groups, ∀ value ∈ group, value.Proper codec.double := by
      intro group hgroup value hvalue
      refine proper_boardRows hpayload hsessions hrows value ?_
      rw [← hflatten]
      exact List.mem_flatten.mpr ⟨group, hgroup, hvalue⟩
    have hle : encoded.utf8ByteSize ≤ maxBytes := by simpa using hfits
    obtain ⟨hbytes, ⟨k, hk⟩, hall⟩ :=
      readChunks_take codec hcodec hne hproper hfetch hle hresult
    rw [hflatten, List.nil_append] at hk hall
    refine ⟨sessions, rows, hsessions, hrows, hbytes, ⟨k, hk⟩, fun hrows htotal => ?_⟩
    refine hall (by simpa using hrows) ?_
    rw [htext]
    rw [hchunks] at htotal
    exact htotal

end Store

/-- The board of a machine has the first sessions of its snapshot, each with its own profile and
card, and all of them within large enough budgets; and no chunk of several rows is over 64 KiB. -/
theorem board_projection_faithful [DecidableEq τ] (hcodec : codec.Faithful)
    {nodeId revision : String} {payload : Value} {capturedAt : τ} {expert : Except String Unit}
    {cache : PreparedRemoteBoardCache} {store store' store'' : BoardStore τ}
    (hpayload : payload.Proper codec.double)
    (hput : putRemoteSnapshot codec nodeId payload capturedAt revision expert store = .ok store')
    (hcache : prepareRemoteBoardCache codec nodeId payload capturedAt
      payload.toText.utf8ByteSize = .ok (some cache))
    (hlater : Untouched nodeId revision store' store'') :
    (∀ maxBytes maxRows projection,
      getRemoteBoardProjection codec nodeId maxBytes maxRows store'' = .ok (some projection) →
        ∃ sessions, (payload.get? "sessions").bind Value.asArray = some sessions ∧
          (∃ k, List.Forall₂ (OwnRow payload) (sessions.take k) projection.rows) ∧
          (sessions.length ≤ maxRows →
            cache.header.utf8ByteSize + totalBytes cache.chunks ≤ maxBytes →
              List.Forall₂ (OwnRow payload) sessions projection.rows) ∧
          projection.inputBytes ≤ maxBytes) ∧
    ∀ chunk ∈ cache.chunks, ∀ values, codec.parseRows chunk = some values → 1 < values.length →
      chunk.utf8ByteSize ≤ 64 * 1024 := by
  constructor
  · intro maxBytes maxRows projection hget
    have hstored := (putRemoteSnapshot_stored codec hput hcache).untouched hlater
    obtain ⟨sessions, rows, hsessions, hrows, hbytes, ⟨k, hk⟩, hall⟩ :=
      hstored.projection codec hcodec hpayload hcache hget
    have hown := boardRows_own hrows
    refine ⟨sessions, hsessions, ⟨k, ?_⟩, fun hlength htotal => ?_, hbytes⟩
    · rw [hk]
      exact List.forall₂_take k hown
    · rwa [hall (hown.length_eq ▸ hlength) htotal]
  · obtain ⟨sessions, rows, -, hsessions, hrows, -, -, -, hchunks⟩ :=
      prepareRemoteBoardCache_eq codec hcache
    rw [hchunks, pack_map, List.map_map]
    intro chunk hchunk values hvalues hlt
    obtain ⟨group, hgroup, rfl⟩ := List.mem_map.mp hchunk
    rw [Function.comp_apply, encodeChunk_toText] at hvalues
    have hproper : ∀ value ∈ group, value.Proper codec.double := by
      intro value hvalue
      refine proper_boardRows hpayload hsessions hrows value ?_
      rw [← flatten_pack rows]
      exact List.mem_flatten.mpr ⟨group, hgroup, hvalue⟩
    have hvalues := hcodec.rows _ _ hproper hvalues
    subst hvalues
    have hfits := pack_fits rows hgroup hlt
    exact of_decide_eq_true hfits

/-! ### One session with a profile -/

def sampleSession : Value :=
  .object [("provider", .string "claude"), ("session_id", .string "s")]

def sampleProfile : Value :=
  .object [("provider", .string "claude"), ("session_id", .string "s"), ("summary", .string "x")]

def sampleBoard : Value :=
  .object [("captured_at", .number (.posInt 5)), ("node_id", .string "n"),
    ("profiles", .array [sampleProfile]), ("protocol", .string "pika"),
    ("sessions", .array [sampleSession]), ("version", .number (.posInt 1))]

def sampleRow : Value :=
  .object [("card", .null), ("profile", sampleProfile), ("session", sampleSession)]

def sampleHeader : RemoteBoardCacheHeader Nat where
  schema := 1
  nodeId := "n"
  protocol := "pika"
  version := 1
  sourceCapturedAt := 7
  remoteCapturedAt := 5
  sourceEncodedBytes := 179
  sourceSessions := 1
  chunks := [⟨127, 1⟩]
  directoryNotices := []

def sampleHeaderText : String :=
  "\x7b\"schema\":1,\"node_id\":\"n\",\"protocol\":\"pika\",\"version\":1," ++
  "\"source_captured_at\":7.0," ++
  "\"remote_captured_at\":5.0,\"source_encoded_bytes\":179,\"source_sessions\":1," ++
  "\"chunks\":[\x7b\"bytes\":127,\"rows\":1\x7d],\"directory_notices\":[]\x7d"

def RemoteBoardCacheHeader.isSample (header : RemoteBoardCacheHeader Nat) : Bool :=
  header.schema = 1 && header.nodeId = "n" && header.protocol = "pika" && header.version = 1 &&
    header.sourceCapturedAt = 7 && header.remoteCapturedAt = 5 &&
    header.sourceEncodedBytes = 179 && header.sourceSessions = 1 &&
    header.chunks = [⟨127, 1⟩] && header.directoryNotices.isEmpty

/-- `serde_json` on the sample, with whole seconds for times. -/
def sampleCodec : Codec Nat where
  double _ := False
  asF64
    | .posInt n => n
    | _ => 0
  printHeader header := if header.isSample then sampleHeaderText else ""
  parseHeader text := if text = sampleHeaderText then some sampleHeader else none
  parseRows text := if text = (Value.array [sampleRow]).toText then some [sampleRow] else none

theorem sampleSession_proper : sampleSession.Proper sampleCodec.double := by
  have hkeys : ["provider", "session_id"].Pairwise (· < ·) := by decide
  refine .object (List.pairwise_map.mp hkeys) ?_
  simp [Value.Proper.string]

theorem sampleProfile_proper : sampleProfile.Proper sampleCodec.double := by
  have hkeys : ["provider", "session_id", "summary"].Pairwise (· < ·) := by decide
  refine .object (List.pairwise_map.mp hkeys) ?_
  simp [Value.Proper.string]

theorem sampleBoard_proper : sampleBoard.Proper sampleCodec.double := by
  have hkeys : ["captured_at", "node_id", "profiles", "protocol", "sessions", "version"].Pairwise
      (· < ·) := by decide
  refine .object (List.pairwise_map.mp hkeys) ?_
  have hprofiles : (Value.array [sampleProfile]).Proper sampleCodec.double :=
    .array (by simpa using sampleProfile_proper)
  have hsessions : (Value.array [sampleSession]).Proper sampleCodec.double :=
    .array (by simpa using sampleSession_proper)
  have hnumber : ∀ n < 10, (Value.number (.posInt n)).Proper sampleCodec.double :=
    fun n hn => .number (Nat.lt_trans hn (by decide))
  simp [Value.Proper.string, hprofiles, hsessions, hnumber]

theorem sampleCodec_faithful : sampleCodec.Faithful where
  header := by
    intro header header' _ hparse
    by_cases hsample : header.isSample = true
    · have heq : header = sampleHeader := by
        obtain ⟨schema, nodeId, protocol, version, source, remote, bytes, sessions, chunks,
          notices⟩ := header
        simp [RemoteBoardCacheHeader.isSample] at hsample
        simp [sampleHeader, hsample]
      simp only [sampleCodec, hsample, if_true, Option.some.injEq] at hparse
      rw [heq, hparse]
    · have hne : "" ≠ sampleHeaderText := by decide
      simp [sampleCodec, hsample, hne] at hparse
  rows := by
    intro values values' hvalues hparse
    have hprofiles : fieldItems sampleBoard "profiles" = [sampleProfile] := rfl
    have hcards : fieldItems sampleBoard "cards" = [] := rfl
    have hrow : sampleRow.Proper sampleCodec.double :=
      proper_ownRow sampleBoard_proper sampleSession_proper ⟨("claude", "s"), _, _, rfl,
        .inl ⟨by simp [hprofiles], rfl⟩, .inr ⟨rfl, by simp [hcards]⟩, rfl⟩
    simp only [sampleCodec, Option.ite_some_none_eq_some] at hparse
    have hinj := Value.toText_inj ⟨fun _ h => h.elim, fun _ h => h.elim⟩ (.array hvalues)
      (.array (by simpa using hrow)) hparse.1
    rw [← hparse.2]
    exact (Value.array.inj hinj).symm

set_option maxRecDepth 40000 in
theorem board_projection_sample : ∃ store' projection,
    getRemoteBoardProjection sampleCodec "n" 1000 10 store' = .ok (some projection) ∧
      List.Forall₂ (OwnRow sampleBoard) [sampleSession] projection.rows := by
  have hput : ∃ store', putRemoteSnapshot sampleCodec "n" sampleBoard 7 "r" (.ok ())
      { nodes := ["n"] } = .ok store' ∧ ∃ projection,
        getRemoteBoardProjection sampleCodec "n" 1000 10 store' = .ok (some projection) :=
    ⟨_, rfl, _, rfl⟩
  obtain ⟨store', hput, projection, hget⟩ := hput
  have hcache : prepareRemoteBoardCache sampleCodec "n" sampleBoard 7
      sampleBoard.toText.utf8ByteSize =
        .ok (some ⟨sampleHeaderText, [encodeChunk [sampleRow.toText]]⟩) := rfl
  obtain ⟨sessions, hsessions, -, hall, -⟩ := (board_projection_faithful sampleCodec
    sampleCodec_faithful sampleBoard_proper hput hcache ⟨rfl, rfl, fun _ h => h, fun _ _ h => h⟩).1
      1000 10 projection hget
  cases hsessions
  exact ⟨store', projection, hget, hall (by decide) (by decide)⟩

end Pikamux.Fleet
