import Pikamux.Assistant.Appends
import Pikamux.Support.History

/-!
# Assistant — Fence

Runs of a memory database under any order of its operations.  Whatever was forgotten stays
forgotten: later appends neither name it, nor bring it back with a request that was made before.

* `Step` — all that an operation can do to the store.
* `Kept` — the invariant of a run: the lineage is closed, and receipts belong to requests that were
  made.
* `Kept.accepted` — what an append that succeeds has named, retried and carried.
* `forgetting_permanent` — the law of a run.
-/

namespace Pikamux.Memory

open Support

/-! ### Calls -/

/-- An operation on the database, with the identifiers that are new in it. -/
inductive Call where
  | append (id : String) (input : NewRecord)
  | appendAtEpoch (id : String) (input : NewRecord) (expectedEpoch : Nat)
  | appendIdempotent (requestId id : String) (input : NewRecord)
  | appendRevisionIdempotent (requestId id : String) (input : NewRecord)
  | appendConversationInput (requestId id : String) (input : NewRecord) (preference : Option Nat)
      (expectedEpoch : Nat)
  | commitTurn (requestId answerId : String) (payload : TurnPayload)
      (updates : Except MemoryError (List (NewRecord × String)))
  | forget (id : String)
  | forgetWorkerScope (scope : Scope)

inductive Reply where
  | record (record : Record)
  | records (records : List Record)
  | removed (count : Nat)
  deriving DecidableEq, Repr

/-- The transaction of a call. -/
def Call.run (lib : Library) (store : Store) : Call → Except MemoryError (Reply × Store)
  | append id input => (Memory.append id input store).map fun r => (.record r.1, r.2)
  | appendAtEpoch id input expectedEpoch =>
      (Memory.appendAtEpoch id input expectedEpoch store).map fun r => (.record r.1, r.2)
  | appendIdempotent requestId id input =>
      (Memory.appendIdempotent lib requestId id input store).map fun r => (.record r.1, r.2)
  | appendRevisionIdempotent requestId id input =>
      (Memory.appendRevisionIdempotent lib requestId id input store).map fun r => (.record r.1, r.2)
  | appendConversationInput requestId id input preference expectedEpoch =>
      (Memory.appendConversationInput lib requestId id input preference expectedEpoch store).map
        fun r => (.record r.1, r.2)
  | commitTurn requestId answerId payload updates =>
      (Memory.commitTurn lib requestId answerId payload updates store).map
        fun r => (.records r.1, r.2)
  | forget id => (Memory.forget lib id store).map fun r => (.removed r.1, r.2)
  | forgetWorkerScope scope => (Memory.forgetWorkerScope scope store).map
      fun r => (.removed r.1, r.2)

def Call.perform (lib : Library) (c : Call) (store : Store) : Except MemoryError Reply × Store :=
  atomically (fun store => c.run lib store) store

/-- A call that was made. -/
abbrev Made := Entry Store Call (Except MemoryError Reply)

/-- The identifiers made for a call. -/
def Call.newIds : Call → List String
  | append id _ => [id]
  | appendAtEpoch id _ _ => [id]
  | appendIdempotent _ id _ => [id]
  | appendRevisionIdempotent _ id _ => [id]
  | appendConversationInput _ id _ _ _ => [id]
  | commitTurn _ answerId _ (.ok updates) => answerId :: updates.map Prod.snd
  | commitTurn _ answerId _ (.error _) => [answerId]
  | forget _ => []
  | forgetWorkerScope _ => []

/-- The record whose digest a call takes. -/
def Call.hashed : Call → List NewRecord
  | appendIdempotent _ _ input => [input]
  | appendRevisionIdempotent _ _ input => [input]
  | appendConversationInput _ _ input _ _ => [input]
  | _ => []

/-- The turn whose digest a call takes. -/
def Call.turns : Call → List TurnPayload
  | commitTurn _ _ payload _ => [payload]
  | _ => []

/-- The epoch a call carries. -/
def Call.epoch : Call → Option Nat
  | appendAtEpoch _ _ expectedEpoch => some expectedEpoch
  | appendConversationInput _ _ _ _ expectedEpoch => some expectedEpoch
  | commitTurn _ _ payload _ => some payload.epoch
  | _ => none

def TurnPayload.names (payload : TurnPayload) : List String :=
  payload.answer.names ++ payload.sources.map SourceVersion.id ++
    payload.candidates.flatMap fun candidate => candidate.sources.map SourceVersion.id

/-- The records that an append names. -/
def Call.names : Call → List String
  | append _ input => input.names
  | appendAtEpoch _ input _ => input.names
  | appendIdempotent _ _ input => input.names
  | appendRevisionIdempotent _ _ input => input.names
  | appendConversationInput _ _ input _ _ => input.names
  | commitTurn _ _ payload _ => payload.names
  | forget _ => []
  | forgetWorkerScope _ => []

def Store.receiptOf (store : Store) (requestId : String) : List String :=
  ((store.receipts.get? requestId).map Receipt.recordId).toList

def Store.turnReceiptOf (store : Store) (requestId : String) : List String :=
  ((store.turnReceipts.get? requestId).map TurnReceipt.recordIds).getD []

/-- The records that were appended for the request id of a call. -/
def Call.retried (store : Store) : Call → List String
  | appendIdempotent requestId _ _ => store.receiptOf requestId
  | appendRevisionIdempotent requestId _ _ => store.receiptOf requestId
  | appendConversationInput requestId _ _ _ _ => store.receiptOf requestId
  | commitTurn requestId _ _ _ => store.turnReceiptOf requestId
  | _ => []

/-! ### What an operation can do -/

section Steps

variable {lib : Library} {store store' mid : Store} {id requestId hash : String}
  {input : NewRecord} {record : Record}

/-- Records are stored one after the other. -/
inductive StoresAll : List (NewRecord × String) → Store → Store → Prop where
  | nil {store : Store} : StoresAll [] store store
  | cons {input : NewRecord} {id : String} {rest : List (NewRecord × String)}
      {store mid store' : Store} (h : Stores id input store mid) (hrest : StoresAll rest mid store') :
      StoresAll ((input, id) :: rest) store store'

/-- All that an operation can do to the store. -/
inductive Step (lib : Library) (c : Call) (store : Store) : Store → Prop where
  /-- It fails, or it was made before. -/
  | same : Step lib c store store
  | stored {id : String} {input : NewRecord} {store' : Store} (hids : c.newIds = [id])
      (h : Stores id input store store') : Step lib c store store'
  | requested {requestId id : String} {x input : NewRecord} {mid : Store}
      {receipts : Table String Receipt} (hids : c.newIds = [id]) (hx : c.hashed = [x])
      (hnames : ∀ j ∈ x.names, j ∈ input.names) (h : Stores id input store mid)
      (hreceipt : mid.receipts.insert? requestId ⟨lib.hash x, id⟩ = some receipts) :
      Step lib c store { mid with receipts }
  | turned {requestId : String} {payload : TurnPayload} {items : List (NewRecord × String)}
      {mid : Store} {turnReceipts : Table String TurnReceipt}
      (hids : c.newIds = items.map Prod.snd) (hturn : c.turns = [payload])
      (hepoch : payload.epoch = store.forgetEpoch)
      (hnames : ∀ j ∈ payload.names, store.records.contains j = true)
      (h : StoresAll items store mid)
      (hreceipt : mid.turnReceipts.insert? requestId
        ⟨lib.turnHash payload, items.map Prod.snd⟩ = some turnReceipts) :
      Step lib c store { mid with turnReceipts }
  | removed {roots : List String} {n : Nat} {store' : Store} (h : Removes store roots n store') :
      Step lib c store store'

/-- What a request that succeeds does: `revised` is stored for `input`, or it was made before. -/
inductive Requested (requestId hash id : String) (input : NewRecord) (store : Store) :
    Store → Prop where
  | fresh {revised : NewRecord} {mid : Store} {receipts : Table String Receipt}
      (hnames : ∀ j ∈ input.names, j ∈ revised.names) (h : Stores id revised store mid)
      (hreceipt : mid.receipts.insert? requestId ⟨hash, id⟩ = some receipts) :
      Requested requestId hash id input store { mid with receipts }
  | again {receipt : Receipt} (hreceipt : store.receipts.get? requestId = some receipt)
      (hhash : receipt.payloadHash = hash)
      (hstored : store.records.contains receipt.recordId = true) :
      Requested requestId hash id input store store

/-- A request has a receipt for its digest and what it appended is stored, or it is new. -/
theorem idempotently_eq_ok {fresh : Store → Except MemoryError (Record × Store)}
    (h : idempotently requestId hash fresh store = .ok (record, store'))
    (hfresh : ∀ r, fresh store = .ok r → ∃ revised, (∀ j ∈ input.names, j ∈ revised.names) ∧
      appendRequested requestId hash id revised store = .ok r) :
    Requested requestId hash id input store store' := by
  rcases idempotently_cases h with ⟨-, h⟩ | ⟨rfl, receipt, row, hreceipt, hhash, hrow, -⟩
  · obtain ⟨revised, hnames, happend⟩ := hfresh _ h
    obtain ⟨-, mid, receipts, hstores, hinsert, rfl⟩ := appendRequested_eq_ok happend
    exact .fresh hnames hstores hinsert
  · refine .again hreceipt hhash ?_
    simp [Table.contains, hrow]

theorem appendIdempotentChecked_eq_ok {active : Bool}
    (h : appendIdempotentChecked lib requestId id input active store = .ok (record, store')) :
    Requested requestId (lib.hash input) id input store store' := by
  obtain ⟨_, -, h⟩ := bind_eq_ok.mp h
  obtain ⟨_, -, h⟩ := bind_eq_ok.mp h
  refine idempotently_eq_ok h fun r hr => ?_
  obtain ⟨_, -, hr⟩ := bind_eq_ok.mp hr
  exact ⟨input, fun _ hj => hj, hr⟩

theorem appendRevisionIdempotent_eq_ok
    (h : appendRevisionIdempotent lib requestId id input store = .ok (record, store')) :
    Requested requestId (lib.hash input) id input store store' := by
  obtain ⟨_, -, h⟩ := bind_eq_ok.mp h
  obtain ⟨_, -, h⟩ := bind_eq_ok.mp h
  exact appendIdempotentChecked_eq_ok h

/-- A conversation input names nothing; the preference it revises is found in the store. -/
theorem appendConversationInput_eq_ok {preference : Option Nat} {expectedEpoch : Nat}
    (h : appendConversationInput lib requestId id input preference expectedEpoch store =
      .ok (record, store')) :
    store.forgetEpoch = expectedEpoch ∧
      Requested requestId (lib.hash input) id input store store' := by
  obtain ⟨_, -, h⟩ := bind_eq_ok.mp h
  obtain ⟨_, hvalid, h⟩ := bind_eq_ok.mp h
  obtain ⟨_, hepoch, h⟩ := bind_eq_ok.mp h
  refine ⟨of_decide_eq_true (ensure_eq_ok.mp hepoch), ?_⟩
  have hnames : input.names = [] := by
    obtain ⟨_, -, hvalid⟩ := bind_eq_ok.mp hvalid
    obtain ⟨_, hraw, -⟩ := bind_eq_ok.mp hvalid
    rw [ensure_eq_ok] at hraw
    simp only [Bool.and_eq_true, Option.isNone_iff_eq_none, List.isEmpty_iff] at hraw
    obtain ⟨⟨⟨-, hsup⟩, hdeps⟩, -⟩ := hraw
    rw [NewRecord.names, hdeps, hsup]
    rfl
  refine idempotently_eq_ok h fun r hr => ?_
  obtain ⟨revised, -, hr⟩ := bind_eq_ok.mp hr
  exact ⟨revised, by simp [hnames], hr⟩

theorem appendAtEpoch_eq_ok {expectedEpoch : Nat}
    (h : appendAtEpoch id input expectedEpoch store = .ok (record, store')) :
    store.forgetEpoch = expectedEpoch ∧ Stores id input store store' := by
  obtain ⟨_, hepoch, h⟩ := bind_eq_ok.mp h
  exact ⟨of_decide_eq_true (ensure_eq_ok.mp hepoch), (appendInTx_eq_ok h).2⟩

/-! ### Turns -/

theorem appendTurnRecords_eq_ok {items : List (NewRecord × String)} {store store' : Store}
    {records : List Record} (h : appendTurnRecords items store = .ok (records, store')) :
    StoresAll items store store' ∧ records.map (·.id) = items.map Prod.snd := by
  induction items generalizing store records with
  | nil =>
      cases h
      exact ⟨.nil, rfl⟩
  | cons item rest ih =>
      obtain ⟨input, id⟩ := item
      obtain ⟨⟨record, mid⟩, happend, h⟩ := bind_eq_ok.mp h
      obtain ⟨⟨others, last⟩, hrest, h⟩ := bind_eq_ok.mp h
      cases h
      obtain ⟨rfl, hstores⟩ := appendInTx_eq_ok happend
      obtain ⟨hall, hids⟩ := ih hrest
      exact ⟨.cons hstores hall, by rw [List.map_cons, List.map_cons, hids]⟩

theorem validateSourcesInTx_eq_ok {scope : Scope} {sources : List SourceVersion} {epoch : Nat}
    {u : Unit} (h : validateSourcesInTx store scope sources epoch = .ok u) :
    epoch = store.forgetEpoch ∧
      ∀ j ∈ sources.map SourceVersion.id, store.records.contains j = true := by
  obtain ⟨_, hepoch, h⟩ := bind_eq_ok.mp h
  refine ⟨(of_decide_eq_true (ensure_eq_ok.mp hepoch)).symm, fun j hj => ?_⟩
  obtain ⟨source, hsource, rfl⟩ := List.mem_map.mp hj
  have hcheck := ensure_eq_ok.mp (forM_eq_ok.mp h source hsource)
  cases hrow : store.records.get? source.id with
  | none =>
      rw [hrow] at hcheck
      cases hcheck
  | some row => simp [Table.contains, hrow]

/-- What a turn that succeeds does: its records are stored, or it was made before. -/
inductive Turned (requestId hash : String) (items : List (NewRecord × String)) (store : Store) :
    Store → Prop where
  | fresh {mid : Store} {turnReceipts : Table String TurnReceipt} (h : StoresAll items store mid)
      (hreceipt : mid.turnReceipts.insert? requestId ⟨hash, items.map Prod.snd⟩ =
        some turnReceipts) : Turned requestId hash items store { mid with turnReceipts }
  | again {receipt : TurnReceipt} (hreceipt : store.turnReceipts.get? requestId = some receipt)
      (hhash : receipt.payloadHash = hash) : Turned requestId hash items store store

theorem commitTurn_eq_ok {answerId : String} {payload : TurnPayload} {records : List Record}
    {updates : Except MemoryError (List (NewRecord × String))}
    (h : commitTurn lib requestId answerId payload updates store = .ok (records, store')) :
    payload.epoch = store.forgetEpoch ∧
      (∀ j ∈ payload.sources.map SourceVersion.id ++
        payload.candidates.flatMap (fun candidate => candidate.sources.map SourceVersion.id),
        store.records.contains j = true) ∧
      ∃ learned, updates = .ok learned ∧ Turned requestId (lib.turnHash payload)
        ((payload.answer, answerId) :: learned) store store' := by
  obtain ⟨learned, hlearned, h⟩ := bind_eq_ok.mp h
  obtain ⟨_, hsources, h⟩ := bind_eq_ok.mp h
  obtain ⟨_, hcandidates, h⟩ := bind_eq_ok.mp h
  obtain ⟨existing, hexisting, h⟩ := bind_eq_ok.mp h
  obtain ⟨hepoch, hsources⟩ := validateSourcesInTx_eq_ok hsources
  refine ⟨hepoch, fun j hj => ?_, learned, hlearned, ?_⟩
  · rcases List.mem_append.mp hj with hj | hj
    · exact hsources j hj
    · obtain ⟨candidate, hcandidate, hj⟩ := List.mem_flatMap.mp hj
      obtain ⟨_, hcheck, -⟩ := bind_eq_ok.mp (forM_eq_ok.mp hcandidates candidate hcandidate)
      exact (validateSourcesInTx_eq_ok hcheck).2 j hj
  · unfold existingTurn at hexisting
    cases hreceipt : store.turnReceipts.get? requestId with
    | none =>
        rw [hreceipt] at hexisting
        cases hexisting
        obtain ⟨⟨records', mid⟩, happend, h⟩ := bind_eq_ok.mp h
        obtain ⟨turnReceipts, hinsert, h⟩ := bind_eq_ok.mp h
        cases h
        obtain ⟨hall, hids⟩ := appendTurnRecords_eq_ok happend
        rw [context_eq_ok, hids] at hinsert
        exact .fresh hall hinsert
    | some receipt =>
        rw [hreceipt] at hexisting
        obtain ⟨_, hhash, hexisting⟩ := bind_eq_ok.mp hexisting
        cases hexisting
        cases h
        exact .again hreceipt (of_decide_eq_true (ensure_eq_ok.mp hhash))

/-- Forgetting the worker records of a scope. -/
theorem forgetWorkerScope_eq_ok (h : Lineage store) {scope : Scope} {n : Nat}
    (hrun : forgetWorkerScope scope store = .ok (n, store')) :
    ∃ roots, Removes store roots n store' := by
  obtain ⟨_, -, hrun⟩ := bind_eq_ok.mp hrun
  obtain ⟨epoch, hepoch, hrun⟩ := bind_eq_ok.mp hrun
  obtain ⟨n', store'', hsweep, hremoves⟩ := h.sweep
    ((store.records.rows.filter fun r =>
      r.2.record.origin = .worker && r.2.record.scope = scope).map Prod.fst).reverse
  rw [← checkedSucc_eq_some (context_eq_ok.mp hepoch)] at hsweep
  cases hsweep.symm.trans hrun
  exact ⟨_, hremoves⟩

/-- A forget that succeeds. -/
theorem forget_removes (h : Lineage store) {n : Nat}
    (hrun : forget lib id store = .ok (n, store')) :
    ∃ root, IsPreferenceRoot lib store id root ∧ Removes store [root] n store' := by
  by_cases hok : store.forgetEpoch < maxNat ∧ store.records.contains id = true
  · obtain ⟨root, n', store'', hroot, hrun', hremoves⟩ := forget_eq_ok lib h hok.1 hok.2
    cases hrun'.symm.trans hrun
    exact ⟨root, hroot, hremoves⟩
  · obtain ⟨e, he⟩ := forget_eq_error lib hok
    rw [he] at hrun
    cases hrun

/-- A requested record is stored, or the request was made before. -/
theorem Requested.step {c : Call} (hids : c.newIds = [id]) (hhashed : c.hashed = [input])
    (h : Requested requestId (lib.hash input) id input store store') : Step lib c store store' := by
  cases h with
  | fresh hnames hstores hreceipt => exact .requested hids hhashed hnames hstores hreceipt
  | again => exact .same

/-- The records of a turn keep what was stored. -/
theorem StoresAll.kept {items : List (NewRecord × String)} {store mid : Store}
    (h : StoresAll items store mid) {j : String} (hj : store.records.contains j = true) :
    mid.records.contains j = true := by
  induction h with
  | nil => exact hj
  | cons h _ ih => exact ih (h.kept hj)

theorem StoresAll.contains {items : List (NewRecord × String)} {store mid : Store}
    (h : StoresAll items store mid) {j : String} (hj : mid.records.contains j = true) :
    store.records.contains j = true ∨ j ∈ items.map Prod.snd := by
  induction h with
  | nil => exact .inl hj
  | cons h _ ih =>
      rw [List.map_cons, List.mem_cons]
      rcases ih hj with hj | hj
      · exact (h.contains hj).imp_right .inl
      · exact .inr (.inr hj)

/-- The records of a turn change nothing else. -/
theorem StoresAll.rest {items : List (NewRecord × String)} {store mid : Store}
    (h : StoresAll items store mid) : mid.forgetEpoch = store.forgetEpoch ∧
      mid.receipts = store.receipts ∧ mid.turnReceipts = store.turnReceipts := by
  induction h with
  | nil => exact ⟨rfl, rfl, rfl⟩
  | cons h _ ih =>
      obtain ⟨records, -, rfl⟩ := h.insert
      exact ih

theorem Call.step (h : Lineage store) (c : Call) : Step lib c store (c.perform lib store).2 := by
  rcases atomically_eq (fun store => c.run lib store) store with
    ⟨reply, store', hrun, heq⟩ | ⟨e, -, heq⟩
  · rw [Call.perform, heq]
    cases c with
    | append id input =>
        obtain ⟨⟨record, _⟩, hop, h'⟩ := map_eq_ok.mp hrun
        cases h'
        exact .stored rfl (appendInTx_eq_ok hop).2
    | appendAtEpoch id input expectedEpoch =>
        obtain ⟨⟨record, _⟩, hop, h'⟩ := map_eq_ok.mp hrun
        cases h'
        exact .stored rfl (appendAtEpoch_eq_ok hop).2
    | appendIdempotent requestId id input =>
        obtain ⟨⟨record, _⟩, hop, h'⟩ := map_eq_ok.mp hrun
        cases h'
        exact (appendIdempotentChecked_eq_ok hop).step rfl rfl
    | appendRevisionIdempotent requestId id input =>
        obtain ⟨⟨record, _⟩, hop, h'⟩ := map_eq_ok.mp hrun
        cases h'
        exact (appendRevisionIdempotent_eq_ok hop).step rfl rfl
    | appendConversationInput requestId id input preference expectedEpoch =>
        obtain ⟨⟨record, _⟩, hop, h'⟩ := map_eq_ok.mp hrun
        cases h'
        exact (appendConversationInput_eq_ok hop).2.step rfl rfl
    | commitTurn requestId answerId payload updates =>
        obtain ⟨⟨records, _⟩, hop, h'⟩ := map_eq_ok.mp hrun
        cases h'
        obtain ⟨hepoch, hnames, learned, rfl, hturned⟩ := commitTurn_eq_ok hop
        cases hturned with
        | again => exact .same
        | fresh hall hreceipt =>
            refine .turned rfl rfl hepoch (fun j hj => ?_) hall hreceipt
            rw [TurnPayload.names, List.append_assoc] at hj
            rcases List.mem_append.mp hj with hj | hj
            · -- the answer is the first record of the turn
              cases hall with
              | cons hanswer _ => exact hanswer.names j hj
            · exact hnames j hj
    | forget id =>
        obtain ⟨⟨n, _⟩, hop, h'⟩ := map_eq_ok.mp hrun
        cases h'
        obtain ⟨root, -, hremoves⟩ := forget_removes h hop
        exact .removed hremoves
    | forgetWorkerScope scope =>
        obtain ⟨⟨n, _⟩, hop, h'⟩ := map_eq_ok.mp hrun
        cases h'
        obtain ⟨roots, hremoves⟩ := forgetWorkerScope_eq_ok h hop
        exact .removed hremoves
  · rw [Call.perform, heq]
    exact .same

end Steps

/-! ### What every operation keeps -/

section Kept

variable {lib : Library} {store store' mid : Store} {ids : List String} {inputs : List NewRecord}
  {turns : List TurnPayload}

/-- The invariant of a run in which the identifiers `ids` were made and digests of `inputs` and
`turns` were taken. -/
structure Kept (lib : Library) (ids : List String) (inputs : List NewRecord)
    (turns : List TurnPayload) (store : Store) : Prop where
  lineage : Lineage store
  made : ∀ k, store.records.contains k = true → k ∈ ids
  requests : ∀ r receipt, store.receipts.get? r = some receipt → receipt.recordId ∈ ids ∧
    ∃ input ∈ inputs, receipt.payloadHash = lib.hash input ∧
      ∀ row, store.records.get? receipt.recordId = some row →
        ∀ j ∈ input.names, j ∈ row.record.names
  /-- What belongs to a turn of this epoch is stored. -/
  turns : ∀ r receipt, store.turnReceipts.get? r = some receipt →
    ∃ payload ∈ turns, receipt.payloadHash = lib.turnHash payload ∧
      payload.epoch ≤ store.forgetEpoch ∧
      (payload.epoch = store.forgetEpoch →
        ∀ j ∈ receipt.recordIds ++ payload.names, store.records.contains j = true)

theorem Kept.empty : Kept lib [] [] [] {} where
  lineage := .empty
  made _ h := by cases h
  requests _ _ h := by cases h
  turns _ _ h := by cases h

theorem Kept.mono (h : Kept lib ids inputs turns store) (ids' : List String)
    (inputs' : List NewRecord) (turns' : List TurnPayload) :
    Kept lib (ids ++ ids') (inputs ++ inputs') (turns ++ turns') store where
  lineage := h.lineage
  made k hk := List.mem_append_left _ (h.made k hk)
  requests r receipt hr := by
    obtain ⟨hid, input, hinput, hrest⟩ := h.requests r receipt hr
    exact ⟨List.mem_append_left _ hid, input, List.mem_append_left _ hinput, hrest⟩
  turns r receipt hr := by
    obtain ⟨payload, hpayload, hrest⟩ := h.turns r receipt hr
    exact ⟨payload, List.mem_append_left _ hpayload, hrest⟩

theorem Kept.stores (h : Kept lib ids inputs turns store) {id : String} {input : NewRecord}
    (hstores : Stores id input store mid) (hid : Printed id) (hnew : id ∉ ids) :
    Kept lib (ids ++ [id]) inputs turns mid := by
  have hkept := fun j => hstores.kept (j := j)
  obtain ⟨records, hinsert, rfl⟩ := hstores.insert
  have hget := Table.get?_insert? hinsert
  refine ⟨h.lineage.insert hinsert hid hstores.names, ?_, ?_, ?_⟩
  · intro k hk
    rw [Table.contains, hget] at hk
    split at hk
    case isTrue e => exact List.mem_append_right _ (List.mem_singleton.mpr e)
    case isFalse => exact List.mem_append_left _ (h.made k hk)
  · intro r receipt hr
    obtain ⟨hmade, input', hinput, hhash, hnames⟩ := h.requests r receipt hr
    refine ⟨List.mem_append_left _ hmade, input', hinput, hhash, fun row hrow => ?_⟩
    rw [hget, if_neg] at hrow
    · exact hnames row hrow
    · intro e
      exact hnew (e ▸ hmade)
  · intro r receipt hr
    obtain ⟨payload, hpayload, hhash, hepoch, hstored⟩ := h.turns r receipt hr
    exact ⟨payload, hpayload, hhash, hepoch, fun e j hj => hkept j (hstored e j hj)⟩

theorem Kept.storesAll {items : List (NewRecord × String)} {store mid : Store}
    (hall : StoresAll items store mid) {ids : List String}
    (h : Kept lib ids inputs turns store) (hids : ∀ id ∈ items.map Prod.snd, Printed id)
    (hnew : (ids ++ items.map Prod.snd).Nodup) :
    Kept lib (ids ++ items.map Prod.snd) inputs turns mid ∧
      ∀ id ∈ items.map Prod.snd, mid.records.contains id = true := by
  induction hall generalizing ids with
  | nil => exact ⟨by simpa using h, by simp⟩
  | @cons input id rest store mid store' hstores hrest ih =>
      rw [List.map_cons] at hids hnew
      have hfresh : id ∉ ids := by
        intro hm
        exact (List.nodup_append.mp hnew).2.2 id hm id List.mem_cons_self rfl
      obtain ⟨hkept, hstored⟩ :=
        ih (h.stores hstores (hids id List.mem_cons_self) hfresh)
          (fun j hj => hids j (List.mem_cons_of_mem _ hj)) (by simpa using hnew)
      refine ⟨by simpa using hkept, fun j hj => ?_⟩
      rcases List.mem_cons.mp hj with rfl | hj
      · exact hrest.kept (by simp [Table.contains, hstores.stored])
      · exact hstored j hj

theorem Kept.removes (h : Kept lib ids inputs turns store) {roots : List String} {n : Nat}
    (hremoves : Removes store roots n store') : Kept lib ids inputs turns store' := by
  have hrest := hremoves.rest
  refine ⟨h.lineage.removes hremoves, ?_, ?_, ?_⟩
  · intro k hk
    obtain ⟨row, hrow⟩ := Option.isSome_iff_exists.mp hk
    exact h.made k (by simp [Table.contains, ((hremoves.records k row).mp hrow).1])
  · intro r receipt hr
    rw [hrest] at hr
    obtain ⟨hmade, input, hinput, hhash, hnames⟩ := h.requests r receipt hr
    refine ⟨hmade, input, hinput, hhash, fun row hrow => ?_⟩
    exact hnames row ((hremoves.records _ row).mp hrow).1
  · intro r receipt hr
    rw [hrest] at hr
    obtain ⟨payload, hpayload, hhash, hepoch, -⟩ := h.turns r receipt hr
    have hnext : store'.forgetEpoch = store.forgetEpoch + 1 := by rw [hrest]
    refine ⟨payload, hpayload, hhash, by omega, fun e => ?_⟩
    omega

/-- Every operation keeps the invariant. -/
theorem Kept.step (h : Kept lib ids inputs turns store) {c : Call}
    (hids : ∀ id ∈ c.newIds, Printed id) (hnew : (ids ++ c.newIds).Nodup)
    (hstep : Step lib c store store') :
    Kept lib (ids ++ c.newIds) (inputs ++ c.hashed) (turns ++ c.turns) store' := by
  cases hstep with
  | same => exact h.mono _ _ _
  | @stored id input _ hc hstores =>
      rw [hc] at hids hnew ⊢
      have hfresh : id ∉ ids := fun hm =>
        (List.nodup_append.mp hnew).2.2 id hm id List.mem_cons_self rfl
      have hkept := h.stores hstores (hids id List.mem_cons_self) hfresh
      simpa using hkept.mono [] c.hashed c.turns
  | @requested requestId id x input mid receipts hc hx hnames hstores hreceipt =>
      rw [hc] at hids hnew ⊢
      have hfresh : id ∉ ids := fun hm =>
        (List.nodup_append.mp hnew).2.2 id hm id List.mem_cons_self rfl
      have hkept := (h.stores hstores (hids id List.mem_cons_self) hfresh).mono [] c.hashed c.turns
      rw [List.append_nil] at hkept
      refine ⟨hkept.lineage.withReceipts _ _, hkept.made, fun r receipt hr => ?_, hkept.turns⟩
      rw [Table.get?_insert? hreceipt] at hr
      split at hr
      case isTrue =>
        cases hr
        refine ⟨by simp, x, by simp [hx], rfl, fun row hrow j hj => ?_⟩
        rw [hstores.stored] at hrow
        cases hrow
        exact hnames j hj
      case isFalse => exact hkept.requests r receipt hr
  | @turned requestId payload items mid turnReceipts hc hturn hepoch hnames hall hreceipt =>
      rw [hc] at hids hnew ⊢
      obtain ⟨hkept, hstored⟩ := Kept.storesAll hall h hids hnew
      have hkept := hkept.mono [] c.hashed c.turns
      rw [List.append_nil] at hkept
      refine ⟨hkept.lineage.withReceipts _ _, hkept.made, hkept.requests, fun r receipt hr => ?_⟩
      rw [Table.get?_insert? hreceipt] at hr
      split at hr
      case isTrue =>
        cases hr
        refine ⟨payload, by simp [hturn], rfl, ?_, fun _ j hj => ?_⟩
        · exact (hepoch.trans hall.rest.1.symm).le
        · rcases List.mem_append.mp hj with hj | hj
          · exact hstored j hj
          · exact hall.kept (hnames j hj)
      case isFalse => exact hkept.turns r receipt hr
  | removed hremoves => exact (h.mono _ _ _).removes hremoves

/-! ### What an append that succeeds names -/

theorem Kept.contains_names (h : Kept lib ids inputs turns store) {k : String} {row : Row}
    (hk : store.records.get? k = some row) : ∀ j ∈ row.record.names,
    store.records.contains j = true := by
  intro j hj
  obtain ⟨parent, hparent, -⟩ := h.lineage.closed k row hk j hj
  simp [Table.contains, hparent]

/-- What a request names and what was appended for it is stored. -/
theorem Kept.requested (h : Kept lib ids inputs turns store) {requestId id : String}
    {input : NewRecord} (hdigests : ∀ x ∈ inputs, lib.hash x = lib.hash input → x = input)
    (hrun : Requested requestId (lib.hash input) id input store store') :
    ∀ j ∈ input.names ++ store.receiptOf requestId, store.records.contains j = true := by
  intro j hj
  cases hrun with
  | @fresh revised mid receipts hnames hstores hreceipt =>
      obtain ⟨records, -, rfl⟩ := hstores.insert
      rcases List.mem_append.mp hj with hj | hj
      · exact hstores.names j (hnames j hj)
      · have hnone : store.receipts.get? requestId = none :=
          (Table.insert?_eq_some.mp hreceipt).1
        rw [Store.receiptOf, hnone] at hj
        cases hj
  | @again receipt hreceipt hhash hstored =>
      obtain ⟨-, x, hx, hdigest, hnames⟩ := h.requests requestId receipt hreceipt
      obtain ⟨row, hrow⟩ := Option.isSome_iff_exists.mp hstored
      rcases List.mem_append.mp hj with hj | hj
      · obtain rfl := hdigests x hx (hdigest.symm.trans hhash)
        exact h.contains_names hrow j (hnames row hrow j hj)
      · rw [Store.receiptOf, hreceipt] at hj
        rw [List.mem_singleton.mp hj]
        exact hstored

/-- What a turn names and what was appended for it is stored. -/
theorem Kept.turned (h : Kept lib ids inputs turns store) {requestId answerId : String}
    {payload : TurnPayload} {learned : List (NewRecord × String)}
    (hdigests : ∀ x ∈ turns, lib.turnHash x = lib.turnHash payload → x = payload)
    (hepoch : payload.epoch = store.forgetEpoch)
    (hnames : ∀ j ∈ payload.sources.map SourceVersion.id ++
      payload.candidates.flatMap (fun candidate => candidate.sources.map SourceVersion.id),
      store.records.contains j = true)
    (hrun : Turned requestId (lib.turnHash payload) ((payload.answer, answerId) :: learned) store
      store') :
    ∀ j ∈ payload.names ++ store.turnReceiptOf requestId, store.records.contains j = true := by
  intro j hj
  cases hrun with
  | @fresh mid turnReceipts hall hreceipt =>
      rcases List.mem_append.mp hj with hj | hj
      · rw [TurnPayload.names, List.append_assoc] at hj
        rcases List.mem_append.mp hj with hj | hj
        · cases hall with
          | cons hanswer _ => exact hanswer.names j hj
        · exact hnames j hj
      · have hnone : store.turnReceipts.get? requestId = none := by
          rw [← hall.rest.2.2]
          exact (Table.insert?_eq_some.mp hreceipt).1
        rw [Store.turnReceiptOf, hnone] at hj
        cases hj
  | @again receipt hreceipt hhash =>
      obtain ⟨x, hx, hdigest, -, hstored⟩ := h.turns requestId receipt hreceipt
      obtain rfl := hdigests x hx (hdigest.symm.trans hhash)
      refine hstored hepoch j ?_
      rw [Store.turnReceiptOf, hreceipt] at hj
      exact List.mem_append.mpr (List.mem_append.mp hj).symm

/-- **Accepted.**  An append that succeeds carries the epoch of the store, and what it names and
what was appended for its request id is stored. -/
theorem Kept.accepted (h : Kept lib ids inputs turns store) {c : Call} {reply : Reply}
    (hdigests : ∀ x ∈ inputs, ∀ y ∈ c.hashed, lib.hash x = lib.hash y → x = y)
    (hturnDigests : ∀ x ∈ turns, ∀ y ∈ c.turns, lib.turnHash x = lib.turnHash y → x = y)
    (hrun : c.run lib store = .ok (reply, store')) :
    (∀ n, c.epoch = some n → n = store.forgetEpoch) ∧
      ∀ j ∈ c.names ++ c.retried store, store.records.contains j = true := by
  cases c with
  | append id input =>
      obtain ⟨⟨record, _⟩, hop, -⟩ := map_eq_ok.mp hrun
      refine ⟨by simp [Call.epoch], fun j hj => (appendInTx_eq_ok hop).2.names j ?_⟩
      simpa [Call.names, Call.retried] using hj
  | appendAtEpoch id input expectedEpoch =>
      obtain ⟨⟨record, _⟩, hop, -⟩ := map_eq_ok.mp hrun
      obtain ⟨hepoch, hstores⟩ := appendAtEpoch_eq_ok hop
      refine ⟨fun n hn => (Option.some.inj hn).symm.trans hepoch.symm, fun j hj => ?_⟩
      refine hstores.names j ?_
      simpa [Call.names, Call.retried] using hj
  | appendIdempotent requestId id input =>
      obtain ⟨⟨record, _⟩, hop, -⟩ := map_eq_ok.mp hrun
      have hx := fun x hx => hdigests x hx input List.mem_cons_self
      exact ⟨by simp [Call.epoch], h.requested hx (appendIdempotentChecked_eq_ok hop)⟩
  | appendRevisionIdempotent requestId id input =>
      obtain ⟨⟨record, _⟩, hop, -⟩ := map_eq_ok.mp hrun
      have hx := fun x hx => hdigests x hx input List.mem_cons_self
      exact ⟨by simp [Call.epoch], h.requested hx (appendRevisionIdempotent_eq_ok hop)⟩
  | appendConversationInput requestId id input preference expectedEpoch =>
      obtain ⟨⟨record, _⟩, hop, -⟩ := map_eq_ok.mp hrun
      have hx := fun x hx => hdigests x hx input List.mem_cons_self
      obtain ⟨hepoch, hrequested⟩ := appendConversationInput_eq_ok hop
      exact ⟨fun n hn => (Option.some.inj hn).symm.trans hepoch.symm, h.requested hx hrequested⟩
  | commitTurn requestId answerId payload updates =>
      obtain ⟨⟨records, _⟩, hop, -⟩ := map_eq_ok.mp hrun
      have hx := fun x hx => hturnDigests x hx payload List.mem_cons_self
      obtain ⟨hepoch, hnames, learned, -, hturned⟩ := commitTurn_eq_ok hop
      refine ⟨fun n hn => (Option.some.inj hn).symm.trans hepoch, ?_⟩
      exact h.turned hx hepoch hnames hturned
  | forget id => exact ⟨by simp [Call.epoch], by simp [Call.names, Call.retried]⟩
  | forgetWorkerScope scope => exact ⟨by simp [Call.epoch], by simp [Call.names, Call.retried]⟩

end Kept

/-! ### Runs -/

section Runs

variable {lib : Library} {store store' : Store} {entries : List Made}

/-- What runs rest on: new identifiers are printed UUIDs and differ, and no two of the requests of
the run have one digest. -/
structure Identified (lib : Library) (calls : List Call) : Prop where
  printed : ∀ id ∈ calls.flatMap Call.newIds, Printed id
  distinct : (calls.flatMap Call.newIds).Nodup
  digests : ∀ x ∈ calls.flatMap Call.hashed, ∀ y ∈ calls.flatMap Call.hashed,
    lib.hash x = lib.hash y → x = y
  turnDigests : ∀ x ∈ calls.flatMap Call.turns, ∀ y ∈ calls.flatMap Call.turns,
    lib.turnHash x = lib.turnHash y → x = y

theorem Identified.left {calls rest : List Call} (h : Identified lib (calls ++ rest)) :
    Identified lib calls where
  printed id hid := h.printed id (by simp [hid])
  distinct := by
    have hd := h.distinct
    rw [List.flatMap_append] at hd
    exact (List.nodup_append.mp hd).1
  digests x hx y hy := h.digests x (by simp [hx]) y (by simp [hy])
  turnDigests x hx y hy := h.turnDigests x (by simp [hx]) y (by simp [hy])

/-- The epoch only grows. -/
theorem Step.epoch_le {c : Call} (h : Step lib c store store') :
    store.forgetEpoch ≤ store'.forgetEpoch := by
  cases h with
  | same => exact Nat.le_refl _
  | stored _ h =>
      obtain ⟨records, -, rfl⟩ := h.insert
      exact Nat.le_refl _
  | requested _ _ _ h _ =>
      obtain ⟨records, -, rfl⟩ := h.insert
      exact Nat.le_refl _
  | turned _ _ _ _ h _ => exact h.rest.1.ge
  | removed h =>
      rw [h.rest]
      exact Nat.le_succ _

/-- What is stored was stored before, or is new. -/
theorem Step.contains {c : Call} (h : Step lib c store store') {k : String}
    (hk : store'.records.contains k = true) : store.records.contains k = true ∨ k ∈ c.newIds := by
  cases h with
  | same => exact .inl hk
  | stored hids h =>
      rw [hids, List.mem_singleton]
      exact h.contains hk
  | requested hids _ _ h _ =>
      rw [hids, List.mem_singleton]
      exact h.contains hk
  | turned hids _ _ _ h _ =>
      rw [hids]
      exact h.contains hk
  | removed h =>
      obtain ⟨row, hrow⟩ := Option.isSome_iff_exists.mp hk
      exact .inl (by simp [Table.contains, ((h.records k row).mp hrow).1])

/-- A record that an entry removed. -/
def RemovedBy (lib : Library) (e : Made) (k : String) : Prop :=
  e.before.records.contains k = true ∧
    (e.call.perform lib e.before).2.records.contains k = false

/-- What an entry removed is not stored, and the epoch is at least the one it left. -/
def Past (lib : Library) (ids : List String) (store : Store) (e : Made) : Prop :=
  (e.call.perform lib e.before).2.forgetEpoch ≤ store.forgetEpoch ∧
    ∀ k, RemovedBy lib e k → k ∈ ids ∧ store.records.contains k = false

/-- The invariant of runs. -/
theorem kept (h : History (Call.perform lib) NoDrift {} entries store)
    (hi : Identified lib (entries.map Entry.call)) :
    Kept lib ((entries.map Entry.call).flatMap Call.newIds)
        ((entries.map Entry.call).flatMap Call.hashed)
        ((entries.map Entry.call).flatMap Call.turns) store ∧
      ∀ e ∈ entries, Past lib ((entries.map Entry.call).flatMap Call.newIds) store e := by
  refine h.invariant_entries (fun es u => Identified lib (es.map Entry.call) →
      Kept lib ((es.map Entry.call).flatMap Call.newIds) ((es.map Entry.call).flatMap Call.hashed)
        ((es.map Entry.call).flatMap Call.turns) u ∧
      ∀ e ∈ es, Past lib ((es.map Entry.call).flatMap Call.newIds) u e) ?_ ?_ ?_ hi
  · intro _
    exact ⟨.empty, by simp⟩
  · intro es u c _ ih hi
    rw [List.map_append] at hi
    obtain ⟨hkept, hpast⟩ := ih hi.left
    have hstep : Step lib c u (c.perform lib u).2 := Call.step hkept.lineage c
    have hprinted : ∀ id ∈ c.newIds, Printed id := fun id hid => hi.printed id (by simp [hid])
    have hdistinct := hi.distinct
    simp only [List.map_append, List.map_cons, List.map_nil, List.flatMap_append,
      List.flatMap_singleton] at hdistinct ⊢
    refine ⟨hkept.step hprinted hdistinct hstep, fun e he => ?_⟩
    rcases List.mem_append.mp he with he | he
    · obtain ⟨hepoch, hgone⟩ := hpast e he
      refine ⟨hepoch.trans hstep.epoch_le, fun k hk => ?_⟩
      obtain ⟨hmade, hnot⟩ := hgone k hk
      refine ⟨List.mem_append_left _ hmade, Bool.eq_false_iff.mpr fun hstored => ?_⟩
      -- a new identifier is none of those made before
      rcases hstep.contains hstored with hold | hnew
      · rw [hnot] at hold
        cases hold
      · exact (List.nodup_append.mp hdistinct).2.2 k hmade k hnew rfl
    · rw [List.mem_singleton.mp he]
      refine ⟨Nat.le_refl _, fun k hk => ⟨List.mem_append_left _ (hkept.made k hk.1), hk.2⟩⟩
  · intro _ _ _ _ hd
    exact hd.elim

/-- After `e`, the call of `f` carries no earlier epoch, names nothing that `e` removed and retries no
request for which that was appended. -/
def Fenced (lib : Library) (e f : Made) : Prop :=
  (∀ n, f.call.epoch = some n → (e.call.perform lib e.before).2.forgetEpoch ≤ n) ∧
    ∀ k, RemovedBy lib e k → k ∉ f.call.names ∧ k ∉ f.call.retried f.before

/-- What `forget` does with a record: it removes what leads to the root of its preference chain, or
fails when the record is not stored or the epochs are exhausted. -/
def ForgetsDerived (lib : Library) (store : Store) (id : String) : Prop :=
  if store.forgetEpoch < maxNat ∧ store.records.contains id = true then
    ∃ root n store', IsPreferenceRoot lib store id root ∧
      forget lib id store = .ok (n, store') ∧ Removes store [root] n store'
  else ∃ e, forget lib id store = .error e

/-- **Forgetting is complete and permanent.**  In every state of a run, what a record names is stored
and forgetting a record removes exactly what leads to its root; and after a call that removed records
no later call of the run succeeds that carries an earlier epoch, names one of them or retries the
request that appended it. -/
theorem forgetting_permanent (h : History (Call.perform lib) NoDrift {} entries store)
    (hi : Identified lib (entries.map Entry.call)) :
    (∀ k row, store.records.get? k = some row → ∀ j ∈ row.record.names,
        store.records.contains j = true) ∧
      (∀ id, ForgetsDerived lib store id) ∧
      entries.Pairwise fun e f => (∃ reply, f.result = .ok reply) → Fenced lib e f := by
  obtain ⟨hkept, -⟩ := kept h hi
  refine ⟨fun k row hk => hkept.contains_names hk, fun id => ?_, ?_⟩
  · unfold ForgetsDerived
    split
    case isTrue hok => exact forget_eq_ok lib hkept.lineage hok.1 hok.2
    case isFalse hnot => exact forget_eq_error lib hnot
  · refine pairwise_of_split ?_
    rintro pre f post rfl e he ⟨reply, hreply⟩
    obtain ⟨hpre, hres, -⟩ := h.split
    simp only [List.map_append, List.map_cons] at hi
    obtain ⟨hbefore, hpast⟩ := kept hpre hi.left
    obtain ⟨hepoch, hgone⟩ := hpast e he
    have hrun : f.call.run lib f.before = .ok (reply, (f.call.perform lib f.before).2) := by
      refine run_of_atomically (?_ : (f.call.perform lib f.before).1 = .ok reply)
      rw [← hres, hreply]
    obtain ⟨hcarried, hstored⟩ := hbefore.accepted
      (fun x hx y hy => hi.digests x (by simp [hx]) y (by simp [hy]))
      (fun x hx y hy => hi.turnDigests x (by simp [hx]) y (by simp [hy])) hrun
    refine ⟨fun n hn => ?_, fun k hk => ?_⟩
    · rw [hcarried n hn]
      exact hepoch
    · have hnot : ∀ j, f.before.records.contains j = true → j ≠ k := by
        rintro j hj rfl
        rw [(hgone j hk).2] at hj
        cases hj
      refine ⟨fun hm => ?_, fun hm => ?_⟩
      · exact hnot k (hstored k (List.mem_append_left _ hm)) rfl
      · exact hnot k (hstored k (List.mem_append_right _ hm)) rfl

end Runs

/-! ### A run -/

def firstId : String := "00000000-0000-4000-8000-000000000001"
def secondId : String := "00000000-0000-4000-8000-000000000002"
def thirdId : String := "00000000-0000-4000-8000-000000000003"
def fourthId : String := "00000000-0000-4000-8000-000000000004"
def fifthId : String := "00000000-0000-4000-8000-000000000005"

def said : NewRecord := { kind := .finding, origin := .human, body := "Tea, please." }

def inferred : NewRecord :=
  { kind := .finding, origin := .worker, body := "They prefer tea.", timestamp := 2,
    dependencies := [firstId] }

def noted : TurnPayload :=
  { answer :=
      { kind := .finding, origin := .worker, body := "Noted.", timestamp := 3,
        dependencies := [firstId] }
    candidates := []
    sources := [⟨firstId, 1⟩]
    epoch := 0 }

/-- The library on the requests of the run. -/
def exampleLibrary : Library where
  hash _ := "7179401b1b345eb97213bed1289c9225b49e036e5bb9324c9ee05e9f64ae5fc6"
  turnHash _ := "71d4198cef0a074ecd93501561fb983f4157fb5d5d9acddf14b677054d1953c4"
  preferenceKey _ := none
  recognize _ := none
  preferenceProvenance _ _ := .error (.serialization "EOF while parsing a value")

/-- A record and what was derived from it are forgotten, and both requests are tried again. -/
def forgottenCalls : List Call :=
  [.append firstId said, .appendIdempotent "request-1" secondId inferred,
    .commitTurn "turn-1" thirdId noted (.ok []), .forget firstId,
    .appendIdempotent "request-1" fourthId inferred, .commitTurn "turn-1" fifthId noted (.ok [])]

theorem forgetting_permanent_forgotten :
    ∃ entries store, History (Call.perform exampleLibrary) NoDrift {} entries store ∧
      entries.map (·.result) = [.ok (.record { said with id := firstId }),
        .ok (.record { inferred with id := secondId }),
        .ok (.records [{ noted.answer with id := thirdId }]), .ok (.removed 3),
        .error (.notFound "request-1"), .error (.invalid "learning invalidated by forgetting")] ∧
      store.records.rows = [] ∧
      entries.Pairwise fun e f => (∃ reply, f.result = .ok reply) → Fenced exampleLibrary e f := by
  have h : History (Call.perform exampleLibrary) NoDrift {}
      (replay (Call.perform exampleLibrary) {} forgottenCalls).1
      (replay (Call.perform exampleLibrary) {} forgottenCalls).2 := History.replay _ _
  have hcalls : (replay (Call.perform exampleLibrary) {} forgottenCalls).1.map Entry.call =
      forgottenCalls := rfl
  have hi : Identified exampleLibrary
      ((replay (Call.perform exampleLibrary) {} forgottenCalls).1.map Entry.call) := by
    rw [hcalls]
    refine ⟨?_, by decide +kernel, ?_, ?_⟩
    · have hall : (forgottenCalls.flatMap Call.newIds).all
          (fun id => Uuid.canonical id = some id) = true := by decide +kernel
      intro id hid
      have hprinted := List.all_eq_true.mp hall id hid
      rwa [decide_eq_true_iff] at hprinted
    · simp [forgottenCalls, Call.hashed]
    · simp [forgottenCalls, Call.turns]
  exact ⟨_, _, h, by decide +kernel, by decide +kernel, (forgetting_permanent h hi).2.2⟩

end Pikamux.Memory
