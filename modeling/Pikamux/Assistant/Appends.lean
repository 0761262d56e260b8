import Pikamux.Assistant.Lineage

/-!
# Assistant — Appends

What the operations of `assistant_memory.rs` that append one record do when they succeed.

* `Stores` — one record is stored under a new id, and what it names is stored.
* `appendInTx_eq_ok`, `appendRequested_eq_ok` — an append, and an append with a receipt.
* `idempotently_cases` — a request is new, or what it appended is returned again.
-/

namespace Pikamux.Memory

open Support

variable {store store' mid : Store} {id requestId hash : String}
  {input : NewRecord} {record : Record}

/-- What a record names is stored, under a scope that permits the record's; what it supersedes has
the same scope. -/
theorem validateDependencyScopes_eq_ok {u : Unit}
    (h : validateDependencyScopes store input = .ok u) {j : String} (hj : j ∈ input.names) :
    ∃ row, store.records.get? j = some row ∧ row.record.scope.permits input.scope = true ∧
      (input.supersedes = some j → row.record.scope = input.scope) := by
  obtain ⟨_, hdeps, hsup⟩ := bind_eq_ok.mp h
  have hsame : input.supersedes = some j → loadScope store j = some input.scope := by
    intro e
    rw [e] at hsup
    obtain ⟨scope, hscope, hsame⟩ := bind_eq_ok.mp hsup
    rw [context_eq_ok.mp hscope, of_decide_eq_true (ensure_eq_ok.mp hsame)]
  obtain ⟨scope, hscope, hpermits⟩ : ∃ scope, loadScope store j = some scope ∧
      scope.permits input.scope = true := by
    rcases mem_names.mp hj with hj | hj
    · obtain ⟨scope, hscope, hpermits⟩ := bind_eq_ok.mp (forM_eq_ok.mp hdeps j hj)
      exact ⟨scope, context_eq_ok.mp hscope, ensure_eq_ok.mp hpermits⟩
    · exact ⟨_, hsame hj, Scope.permits_refl _⟩
  obtain ⟨row, hrow, rfl⟩ := Option.map_eq_some_iff.mp hscope
  exact ⟨row, hrow, hpermits, fun e => Option.some.inj (hscope.symm.trans (hsame e))⟩

/-- One record is stored, under a new id. -/
structure Stores (id : String) (input : NewRecord) (store store' : Store) : Prop where
  valid : validateDependencyScopes store input = .ok ()
  insert : ∃ records, store.records.insert? id ⟨input, store.sequence + 1⟩ = some records ∧
    store' = { store with records, sequence := store.sequence + 1 }

theorem Stores.names (h : Stores id input store mid) (j : String) (hj : j ∈ input.names) :
    store.records.contains j = true := by
  obtain ⟨row, hrow, -⟩ := validateDependencyScopes_eq_ok h.valid hj
  simp [Table.contains, hrow]

theorem Stores.get (h : Stores id input store mid) (k : String) : mid.records.get? k =
    if k = id then some ⟨input, store.sequence + 1⟩ else store.records.get? k := by
  obtain ⟨records, hinsert, rfl⟩ := h.insert
  exact Table.get?_insert? hinsert k

theorem Stores.fresh (h : Stores id input store mid) : store.records.get? id = none := by
  obtain ⟨records, hinsert, rfl⟩ := h.insert
  exact (Table.insert?_eq_some.mp hinsert).1

theorem Stores.kept (h : Stores id input store mid) {j : String}
    (hj : store.records.contains j = true) : mid.records.contains j = true := by
  rw [Table.contains, h.get]
  split
  · rfl
  · exact hj

theorem Stores.stored (h : Stores id input store mid) :
    mid.records.get? id = some ⟨input, store.sequence + 1⟩ :=
  (h.get id).trans (if_pos rfl)

theorem Stores.contains (h : Stores id input store mid) {j : String}
    (hj : mid.records.contains j = true) : store.records.contains j = true ∨ j = id := by
  rw [Table.contains, h.get] at hj
  split at hj
  case isTrue e => exact .inr e
  case isFalse => exact .inl hj

theorem appendInTx_eq_ok (h : appendInTx id input store = .ok (record, store')) :
    record = { input with id } ∧ Stores id input store store' := by
  obtain ⟨_, -, h⟩ := bind_eq_ok.mp h
  obtain ⟨_, hscopes, h⟩ := bind_eq_ok.mp h
  obtain ⟨records, hinsert, h⟩ := bind_eq_ok.mp h
  cases h
  exact ⟨rfl, hscopes, records, context_eq_ok.mp hinsert, rfl⟩

theorem appendRequested_eq_ok
    (h : appendRequested requestId hash id input store = .ok (record, store')) :
    record = { input with id } ∧ ∃ mid receipts, Stores id input store mid ∧
      mid.receipts.insert? requestId ⟨hash, id⟩ = some receipts ∧
      store' = { mid with receipts } := by
  obtain ⟨⟨record', mid⟩, happend, h⟩ := bind_eq_ok.mp h
  obtain ⟨receipts, hreceipt, h⟩ := bind_eq_ok.mp h
  cases h
  obtain ⟨rfl, hstores⟩ := appendInTx_eq_ok happend
  exact ⟨rfl, mid, receipts, hstores, context_eq_ok.mp hreceipt, rfl⟩

/-- A request is new, or it has a receipt for its digest and what it appended is returned. -/
theorem idempotently_cases {fresh : Store → Except MemoryError (Record × Store)}
    (h : idempotently requestId hash fresh store = .ok (record, store')) :
    (store.receipts.get? requestId = none ∧ fresh store = .ok (record, store')) ∨
      (store' = store ∧ ∃ receipt row, store.receipts.get? requestId = some receipt ∧
        receipt.payloadHash = hash ∧ store.records.get? receipt.recordId = some row ∧
        record = { row.record with id := receipt.recordId }) := by
  obtain ⟨existing, hexisting, h⟩ := bind_eq_ok.mp h
  unfold existingIdempotentRecord at hexisting
  cases hreceipt : store.receipts.get? requestId with
  | none =>
      rw [hreceipt] at hexisting
      cases hexisting
      exact .inl ⟨rfl, h⟩
  | some receipt =>
      rw [hreceipt] at hexisting
      obtain ⟨_, hhash, hexisting⟩ := bind_eq_ok.mp hexisting
      obtain ⟨row, hrow, hexisting⟩ := bind_eq_ok.mp hexisting
      cases hexisting
      cases h
      exact .inr ⟨rfl, receipt, row, rfl, of_decide_eq_true (ensure_eq_ok.mp hhash),
        context_eq_ok.mp hrow, rfl⟩

/-- A request that has its receipt changes nothing. -/
theorem idempotently_again {fresh : Store → Except MemoryError (Record × Store)}
    {receipt : Receipt} {row : Row} (hreceipt : store.receipts.get? requestId = some receipt)
    (hhash : receipt.payloadHash = hash)
    (hrow : store.records.get? receipt.recordId = some row) :
    idempotently requestId hash fresh store =
      .ok ({ row.record with id := receipt.recordId }, store) := by
  simp only [idempotently, existingIdempotentRecord, hreceipt, hrow, hhash, ensure, decide_true,
    if_true, ok_bind, context_some]
  rfl

end Pikamux.Memory
