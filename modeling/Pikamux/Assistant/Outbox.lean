import Pikamux.Assistant.Maintenance

/-!
# Assistant — Outbox

What happens to the rows of the maintenance outbox while memory goes on changing.  A proposal is
validated once more when it is delivered, and a source of it may have been superseded since: then
its row fails, and with it the rows that wait behind.

* `Proposed` — a record that a commit made of a proposal; its sources stay stored as they were read.
* `deliver_eq`, `deliverAll_eq` — what delivering a row and a page of rows does.
* `Posted` — the invariant of a run: the row of a stored record is of a proposal, and a row that
  waits was not handed over.
* `outbox_delivers` — when the outbox is delivered.
-/

namespace Pikamux.Maintenance

open Support Memory

section Proposals

variable {lib : Library} {s t : State} {store : Store} {scope : Scope} {id : String}
  {record : NewRecord} {p : WorkshopProposal}

/-! ### What a proposal rests on -/

theorem getActive_eq_some : getActive store id = some record ↔
    hasSuccessor store id = false ∧ ∃ row, store.records.get? id = some row ∧
      row.record = record := by
  unfold getActive
  cases hasSuccessor store id with
  | true => simp
  | false => simp [Option.map_eq_some_iff]

theorem isActive_iff : isActive store id = true ↔
    hasSuccessor store id = false ∧ store.records.contains id = true := by
  unfold isActive getActive Table.contains
  cases hasSuccessor store id <;> simp

/-- The source is stored as it was read, and its scope permits this one. -/
def Sourced (store : Store) (scope : Scope) (source : SourceVersion) : Prop :=
  ∃ row, store.records.get? source.id = some row ∧ row.revision = source.revision ∧
    row.record.scope.permits scope = true

theorem Sourced.version {source : SourceVersion} (h : Sourced store scope source) :
    sourceVersion store source.id = some source.revision := by
  obtain ⟨row, hrow, hrevision, -⟩ := h
  rw [sourceVersion, hrow, ← hrevision]
  rfl

/-- `validate_sources` finds every source once, active and as it was read. -/
theorem validateEach_eq_ok {sources : List SourceVersion} {seen : List String} {u : Unit} :
    validateEach store scope seen sources = .ok u ↔
      (∀ source ∈ sources, source.id ∉ seen ∧ isActive store source.id = true ∧
        Sourced store scope source) ∧ (sources.map SourceVersion.id).Nodup := by
  induction sources generalizing seen with
  | nil => simp [validateEach]
  | cons source rest ih =>
      have hhead : (∃ record, getActive store source.id = some record ∧
          (record.scope.permits scope && sourceVersion store source.id = some source.revision) =
            true) ↔ isActive store source.id = true ∧ Sourced store scope source := by
        constructor
        · rintro ⟨record, hrecord, hcheck⟩
          obtain ⟨-, row, hrow, rfl⟩ := getActive_eq_some.mp hrecord
          rw [Bool.and_eq_true, decide_eq_true_iff, sourceVersion, hrow] at hcheck
          exact ⟨by simp [isActive, hrecord], row, hrow, Option.some.inj hcheck.2, hcheck.1⟩
        · rintro ⟨hactive, row, hrow, hrevision, hpermits⟩
          obtain ⟨hno, -⟩ := isActive_iff.mp hactive
          refine ⟨row.record, getActive_eq_some.mpr ⟨hno, row, hrow, rfl⟩, ?_⟩
          simp [sourceVersion, hrow, hrevision, hpermits]
      have hrun : validateEach store scope seen (source :: rest) = .ok u ↔
          source.id ∉ seen ∧ (isActive store source.id = true ∧ Sourced store scope source) ∧
            validateEach store scope (source.id :: seen) rest = .ok u := by
        rw [← hhead]
        simp only [validateEach, bind_eq_ok, ensure_eq_ok, context_eq_ok]
        constructor
        · rintro ⟨_, hseen, record, hrecord, _, hcheck, hrest⟩
          exact ⟨by simpa using hseen, ⟨record, hrecord, hcheck⟩, hrest⟩
        · rintro ⟨hseen, ⟨record, hrecord, hcheck⟩, hrest⟩
          exact ⟨(), by simpa using hseen, record, hrecord, (), hcheck, hrest⟩
      rw [hrun, ih, List.map_cons, List.nodup_cons]
      constructor
      · rintro ⟨hseen, hsource, hrest, hnodup⟩
        refine ⟨?_, ?_, hnodup⟩
        · intro other hother
          rcases List.mem_cons.mp hother with rfl | hother
          · exact ⟨hseen, hsource⟩
          · obtain ⟨hnot, hok⟩ := hrest other hother
            exact ⟨fun hm => hnot (List.mem_cons_of_mem _ hm), hok⟩
        · intro hm
          obtain ⟨other, hother, heq⟩ := List.mem_map.mp hm
          exact (hrest other hother).1 (heq ▸ List.mem_cons_self)
      · rintro ⟨hall, hfresh, hnodup⟩
        obtain ⟨hseen, hsource⟩ := hall source List.mem_cons_self
        refine ⟨hseen, hsource, fun other hother => ?_, hnodup⟩
        obtain ⟨hnot, hok⟩ := hall other (List.mem_cons_of_mem _ hother)
        refine ⟨fun hm => ?_, hok⟩
        rcases List.mem_cons.mp hm with heq | hm
        · exact hfresh (heq ▸ List.mem_map_of_mem hother)
        · exact hnot hm

/-- A proposal as it is checked without the store. -/
structure WorkshopProposal.Valid (p : WorkshopProposal) : Prop where
  count : (!p.sources.isEmpty && p.sources.length ≤ 64) = true
  distinct : (p.sources.map SourceVersion.id).Nodup
  bounded : p.bounded = true

theorem validateProposal_eq_ok {timestamp : Int} :
    validateProposal lib store scope p timestamp = .ok record ↔
      (p.Valid ∧ ∀ source ∈ p.sources, isActive store source.id = true ∧
        Sourced store scope source) ∧ proposalRecord lib scope p timestamp = record := by
  simp only [validateProposal, validateSources, bind_eq_ok, ensure_eq_ok, pure_eq_ok]
  constructor
  · rintro ⟨_, ⟨_, hcount, heach⟩, _, hbounded, hrecord⟩
    obtain ⟨hall, hdistinct⟩ := validateEach_eq_ok.mp heach
    exact ⟨⟨⟨hcount, hdistinct, hbounded⟩, fun source hm => (hall source hm).2⟩, hrecord⟩
  · rintro ⟨⟨⟨hcount, hdistinct, hbounded⟩, hall⟩, hrecord⟩
    refine ⟨(), ⟨(), hcount, validateEach_eq_ok.mpr ⟨?_, hdistinct⟩⟩, (), hbounded, hrecord⟩
    exact fun source hm => ⟨List.not_mem_nil, hall source hm⟩

/-- The record of a proposal whose sources are stored as they were read. -/
structure Proposed (lib : Library) (store : Store) (record : NewRecord) : Prop where
  made : ∃ p timestamp, record = proposalRecord lib record.scope p timestamp ∧
    lib.decode record.body = .ok p ∧ p.Valid ∧
      ∀ source ∈ p.sources, Sourced store record.scope source

/-- Every record that this one depends on is active. -/
def Sound (store : Store) (record : NewRecord) : Prop :=
  ∀ j ∈ record.dependencies, isActive store j = true

/-- The proposal is found as long as all its sources are active. -/
theorem Proposed.proposal (h : Proposed lib store record)
    (hid : getActive store id = some record) :
    (Sound store record → ∃ p, Maintenance.proposal lib store id = .ok (record.scope, p) ∧
        p.sources.map SourceVersion.id = record.dependencies ∧
        ∀ source ∈ p.sources, Sourced store record.scope source) ∧
      (¬ Sound store record → ∃ e, Maintenance.proposal lib store id = .error e) := by
  obtain ⟨p, timestamp, hrecord, hdecode, hvalid, hsources⟩ := h.made
  have hdeps : record.dependencies = p.sources.map SourceVersion.id := by rw [hrecord]; rfl
  have hkind : (record.kind = .proposal && record.origin = .worker &&
      record.provenance = workshopProvenance && record.decisionState = some .proposed) = true := by
    rw [hrecord]
    simp [proposalRecord]
  have hrun : Maintenance.proposal lib store id =
      (validateProposal lib store record.scope p record.timestamp >>= fun _ =>
        ensure (record.dependencies = p.sources.map SourceVersion.id)
          (.invalid "workshop dependency mismatch") >>= fun _ => .ok (record.scope, p)) := by
    rw [Maintenance.proposal, hid, context_some, ok_bind, hkind, ensure_true, ok_bind, hdecode,
      ok_bind]
    rfl
  constructor
  · intro hsound
    refine ⟨p, ?_, hdeps.symm, hsources⟩
    have hok : validateProposal lib store record.scope p record.timestamp =
        .ok (proposalRecord lib record.scope p record.timestamp) := by
      refine validateProposal_eq_ok.mpr ⟨⟨hvalid, fun source hm => ?_⟩, rfl⟩
      exact ⟨hsound source.id (hdeps ▸ List.mem_map_of_mem hm), hsources source hm⟩
    rw [hrun, hok, ok_bind, decide_eq_true hdeps, ensure_true, ok_bind]
  · intro hstale
    cases hcheck : validateProposal lib store record.scope p record.timestamp with
    | error e =>
        rw [hrun, hcheck]
        exact ⟨e, rfl⟩
    | ok checked =>
        obtain ⟨⟨-, hall⟩, -⟩ := validateProposal_eq_ok.mp hcheck
        refine absurd (fun j hj => ?_) hstale
        obtain ⟨source, hm, rfl⟩ := List.mem_map.mp (hdeps ▸ hj)
        exact (hall source hm).1

/-! ### Delivery -/

/-- What delivering a row does when it succeeds. -/
def State.settle (s : State) (id : String) : State :=
  { s with
    outbox := s.outbox.modify id fun _ => true
    handoffs := if isActive s.memory id then s.handoffs.insertOrIgnore id .pending
      else s.handoffs }

/-- The proposal of a row, if it is active, rests on active sources. -/
def Deliverable (store : Store) (id : String) : Prop :=
  ∀ record, getActive store id = some record → Sound store record

/-- The proposal of a row and all its sources are active. -/
def Usable (store : Store) (id : String) : Prop :=
  ∃ record, getActive store id = some record ∧ Sound store record

theorem Deliverable.usable (h : Deliverable store id) :
    Usable store id ↔ isActive store id = true := by
  constructor
  · rintro ⟨record, hrecord, -⟩
    simp [isActive, hrecord]
  · intro hactive
    obtain ⟨record, hrecord⟩ := Option.isSome_iff_exists.mp hactive
    exact ⟨record, hrecord, h record hrecord⟩

theorem ingest_eq_ok
    (hproposal : Maintenance.proposal lib s.memory id = .ok (scope, p))
    (hactive : isActive s.memory id = true)
    (hsources : ∀ source ∈ p.sources, isActive s.memory source.id = true ∧
      Sourced s.memory scope source) :
    ∃ receipt, ingest lib id s =
      .ok (receipt, { s with handoffs := s.handoffs.insertOrIgnore id .pending }) := by
  obtain ⟨hno, hcontains⟩ := isActive_iff.mp hactive
  have hlive : validateLiveSources s.memory p.sources = .ok () := by
    refine forM_eq_ok.mpr fun source hm => ensure_eq_ok.mpr ?_
    obtain ⟨hactive, hsourced⟩ := hsources source hm
    rw [hsourced.version, (isActive_iff.mp hactive).1]
    simp
  have hstate : (s.handoffs.insertOrIgnore id .pending).get? id =
      some ((s.handoffs.get? id).getD .pending) := by
    rw [Table.get?_insertOrIgnore, if_pos rfl]
  refine ⟨⟨id, (s.handoffs.get? id).getD .pending⟩, ?_⟩
  simp only [ingest, hproposal, ok_bind, hcontains, hno, Bool.not_false, Bool.and_true,
    ensure_true, hlive, hstate, context_some]
  rfl

/-- A row whose proposal is well made is delivered, unless the proposal is active and a source of it
is not. -/
theorem deliver_eq (hmade : ∀ record, getActive s.memory id = some record →
    Proposed lib s.memory record) :
    (Deliverable s.memory id → deliver lib id s = .ok (s.settle id)) ∧
      (¬ Deliverable s.memory id → ∃ e, deliver lib id s = .error e) := by
  cases hget : getActive s.memory id with
  | none =>
      have hactive : isActive s.memory id = false := by simp [isActive, hget]
      refine ⟨fun _ => ?_, fun hnot => ?_⟩
      · rw [deliver, State.settle, hactive]
        rfl
      · exact absurd (fun record hrecord => by rw [hget] at hrecord; cases hrecord) hnot
  | some record =>
      have hactive : isActive s.memory id = true := by simp [isActive, hget]
      obtain ⟨hok, herror⟩ := (hmade record hget).proposal hget
      have hiff : Deliverable s.memory id ↔ Sound s.memory record := by
        refine ⟨fun h => h record hget, fun h other hother => ?_⟩
        rw [hget] at hother
        cases hother
        exact h
      rw [hiff]
      constructor
      · intro hsound
        obtain ⟨p, hproposal, hdeps, hsources⟩ := hok hsound
        obtain ⟨receipt, hrun⟩ := ingest_eq_ok hproposal hactive fun source hm =>
          ⟨hsound source.id (hdeps ▸ List.mem_map_of_mem hm), hsources source hm⟩
        rw [deliver, State.settle, hactive, if_pos rfl, if_pos rfl, hrun]
        rfl
      · intro hstale
        obtain ⟨e, he⟩ := herror hstale
        refine ⟨e, ?_⟩
        rw [deliver, hactive, if_pos rfl, ingest, he]
        rfl

/-! ### A page of rows -/

/-- The rows `page` of `s` were delivered, which gives `t`. -/
structure Settles (page : List String) (s t : State) : Prop where
  memory : t.memory = s.memory
  outbox : t.outbox = s.outbox.update fun id delivered => delivered || page.contains id
  handoffs : ∀ id, t.handoffs.contains id = true ↔
    s.handoffs.contains id = true ∨ id ∈ page ∧ isActive s.memory id = true

theorem Settles.nil (s : State) : Settles [] s s where
  memory := rfl
  outbox := by
    obtain ⟨memory, ⟨rows, hrows⟩, handoffs⟩ := s
    simp [Table.update]
  handoffs := by simp

theorem contains_insertOrIgnore (handoffs : Table String HandoffState) (id j : String) :
    (handoffs.insertOrIgnore id .pending).contains j = true ↔
      handoffs.contains j = true ∨ j = id := by
  rw [Table.contains, Table.get?_insertOrIgnore, Table.contains]
  split
  case isTrue e => simp [e]
  case isFalse e => simp [e]

theorem Settles.cons {rest : List String} (h : Settles rest (s.settle id) t) :
    Settles (id :: rest) s t where
  memory := h.memory
  outbox := by
    rw [h.outbox]
    simp only [State.settle, Table.modify, Table.update, List.map_map]
    congr 1
    refine List.map_congr_left fun row _ => Prod.ext rfl ?_
    simp only [Function.comp_apply, List.contains_cons]
    by_cases hid : row.1 = id
    · simp [hid]
    · have hne : (row.1 == id) = false := beq_false_of_ne hid
      simp [hid, hne]
  handoffs j := by
    have hmemory : (s.settle id).memory = s.memory := rfl
    have hfirst : (s.settle id).handoffs.contains j = true ↔
        s.handoffs.contains j = true ∨ j = id ∧ isActive s.memory j = true := by
      unfold State.settle
      split
      case isTrue hactive =>
        rw [contains_insertOrIgnore]
        exact or_congr_right ⟨fun e => ⟨e, e ▸ hactive⟩, And.left⟩
      case isFalse hactive =>
        refine ⟨.inl, fun hj => hj.resolve_right ?_⟩
        rintro ⟨rfl, hit⟩
        exact hactive hit
    rw [h.handoffs, hfirst, hmemory, List.mem_cons, or_assoc, or_and_right]

/-- The loop delivers rows up to the first that cannot be delivered. -/
theorem deliverAll_eq {page : List String} (hmade : ∀ id ∈ page, ∀ record,
    getActive s.memory id = some record → Proposed lib s.memory record) :
    ∃ done t, deliverAll lib page s = t ∧ done <+: page ∧ Settles done s t.2 ∧
      (∀ id ∈ done, Deliverable s.memory id) ∧
      ((∀ id ∈ page, Deliverable s.memory id) → done = page ∧ t.1 = .ok ()) ∧
      ((¬ ∀ id ∈ page, Deliverable s.memory id) → ∃ e, t.1 = .error e) := by
  induction page generalizing s with
  | nil => exact ⟨[], _, rfl, List.prefix_refl _, .nil s, by simp, by simp [deliverAll], by simp⟩
  | cons id rest ih =>
      obtain ⟨hok, herror⟩ := deliver_eq (hmade id List.mem_cons_self)
      by_cases hid : Deliverable s.memory id
      · obtain ⟨done, t, hrun, hinitial, hsettles, hdone, hall, hnot⟩ :=
          ih (s := s.settle id) fun j hj => hmade j (List.mem_cons_of_mem _ hj)
        refine ⟨id :: done, t, ?_, (List.prefix_cons_inj id).mpr hinitial, hsettles.cons, ?_, ?_,
          ?_⟩
        · rw [deliverAll, hok hid]
          exact hrun
        · exact List.forall_mem_cons.mpr ⟨hid, hdone⟩
        · intro h
          obtain ⟨heq, ht⟩ := hall (List.forall_mem_cons.mp h).2
          exact ⟨by rw [heq], ht⟩
        · intro h
          exact hnot fun hrest => h (List.forall_mem_cons.mpr ⟨hid, hrest⟩)
      · obtain ⟨e, he⟩ := herror hid
        refine ⟨[], (.error e, s), ?_, List.nil_prefix, .nil s, by simp, fun h => ?_, fun _ => ?_⟩
        · rw [deliverAll, he]
        · exact absurd (h id List.mem_cons_self) hid
        · exact ⟨e, rfl⟩

end Proposals

/-! ### What a store keeps -/

section Keeping

variable {lib : Library} {store store' mid : Store} {id : String} {record input : NewRecord}
  {row : Row}

theorem storesAll_get {items : List (NewRecord × String)} (h : StoresAll items store mid) :
    (∀ k row, store.records.get? k = some row → mid.records.get? k = some row) ∧
      ∀ k row, mid.records.get? k = some row → store.records.get? k = some row ∨
        ∃ input, (input, k) ∈ items ∧ row.record = input := by
  induction h with
  | nil => exact ⟨fun _ _ hk => hk, fun _ _ hk => .inl hk⟩
  | @cons input id rest store mid store' h _ ih =>
      obtain ⟨hkept, horigin⟩ := ih
      refine ⟨fun k row hk => hkept k row ?_, fun k row hk => ?_⟩
      · rw [h.get, if_neg, hk]
        rintro rfl
        rw [h.fresh] at hk
        cases hk
      · rcases horigin k row hk with hk | ⟨other, hother, heq⟩
        · rw [h.get] at hk
          split at hk
          case isTrue e =>
            cases hk
            exact .inr ⟨input, e ▸ List.mem_cons_self, rfl⟩
          case isFalse => exact .inl hk
        · exact .inr ⟨other, List.mem_cons_of_mem _ hother, heq⟩

/-- An operation of memory changes no record. -/
theorem step_get {lib : Memory.Library} {c : Memory.Call} (h : Step lib c store store') {k : String}
    (hnew : k ∉ c.newIds) (hk : store'.records.get? k = some row) :
    store.records.get? k = some row := by
  have hstores : ∀ {id input mid}, c.newIds = [id] → Stores id input store mid →
      mid.records.get? k = some row → store.records.get? k = some row := by
    intro id input mid hids hstores hk
    rw [hstores.get, if_neg] at hk
    · exact hk
    · rintro rfl
      exact hnew (hids ▸ List.mem_cons_self)
  cases h with
  | same => exact hk
  | stored hids h => exact hstores hids h hk
  | requested hids _ _ h _ => exact hstores hids h hk
  | turned hids _ _ _ h _ =>
      rcases (storesAll_get h).2 k row hk with hk | ⟨other, hother, -⟩
      · exact hk
      · exact absurd (hids ▸ List.mem_map_of_mem hother) hnew
  | removed h => exact ((h.records k row).mp hk).1

/-- A proposal stays well made while its sources are stored and records do not change. -/
theorem Proposed.later (h : Proposed lib store record)
    (hstored : ∀ j ∈ record.dependencies, store'.records.contains j = true)
    (hsame : ∀ j row, store.records.contains j = true → store'.records.get? j = some row →
      store.records.get? j = some row) : Proposed lib store' record := by
  obtain ⟨p, timestamp, hrecord, hdecode, hvalid, hsources⟩ := h.made
  have hdeps : record.dependencies = p.sources.map SourceVersion.id := by rw [hrecord]; rfl
  refine ⟨p, timestamp, hrecord, hdecode, hvalid, fun source hm => ?_⟩
  obtain ⟨row, hrow, hrest⟩ := hsources source hm
  obtain ⟨later, hlater⟩ := Option.isSome_iff_exists.mp
    (hstored source.id (hdeps ▸ List.mem_map_of_mem hm))
  have hsame := hsame source.id later (by simp [Table.contains, hrow]) hlater
  cases hrow.symm.trans hsame
  exact ⟨row, hlater, hrest⟩

theorem Proposed.kept (h : Proposed lib store record) (hkept : ∀ k row,
    store.records.get? k = some row → store'.records.get? k = some row) :
    Proposed lib store' record := by
  obtain ⟨p, timestamp, hrecord, hdecode, hvalid, hsources⟩ := h.made
  refine ⟨p, timestamp, hrecord, hdecode, hvalid, fun source hm => ?_⟩
  obtain ⟨row, hrow, hrest⟩ := hsources source hm
  exact ⟨row, hkept _ row hrow, hrest⟩

/-! ### The invariant -/

/-- The invariant of a run in which the identifiers `ids` were made. -/
structure Posted (lib : Library) (ids : List String) (s : State) : Prop where
  kept : ∃ inputs turns, Kept lib.toLibrary ids inputs turns s.memory
  posted : ∀ k, s.outbox.contains k = true → k ∈ ids
  handed : ∀ k, s.handoffs.contains k = true → k ∈ ids
  /-- A row that waits was not handed over. -/
  waiting : ∀ k, s.outbox.get? k = some false → s.handoffs.contains k = false
  proposed : ∀ k row, s.outbox.contains k = true → s.memory.records.get? k = some row →
    Proposed lib s.memory row.record

theorem Posted.empty (lib : Library) : Posted lib [] {} where
  kept := ⟨[], [], .empty⟩
  posted _ h := by cases h
  handed _ h := by cases h
  waiting _ h := by cases h
  proposed _ _ h := by cases h

/-- The records that a call answers with are new. -/
theorem records_new {lib : Memory.Library} {c : Memory.Call} {records : List Record}
    (h : (c.perform lib store).1 = .ok (.records records)) : ∀ r ∈ records, r.id ∈ c.newIds := by
  obtain ⟨store', hrun⟩ : ∃ store', c.run lib store = .ok (.records records, store') :=
    ⟨_, run_of_atomically h⟩
  cases c with
  | commitTurn requestId answerId payload updates =>
      obtain ⟨⟨made, _⟩, hturn, heq⟩ := map_eq_ok.mp hrun
      cases heq
      obtain ⟨learned, hlearned, hturn⟩ := bind_eq_ok.mp hturn
      obtain ⟨_, -, hturn⟩ := bind_eq_ok.mp hturn
      obtain ⟨_, -, hturn⟩ := bind_eq_ok.mp hturn
      obtain ⟨existing, -, hturn⟩ := bind_eq_ok.mp hturn
      split at hturn
      case isTrue =>
        cases hturn
        intro r hr
        cases hr
      case isFalse =>
        obtain ⟨⟨made, mid⟩, happend, hturn⟩ := bind_eq_ok.mp hturn
        obtain ⟨turnReceipts, -, hturn⟩ := bind_eq_ok.mp hturn
        cases hturn
        obtain ⟨-, hids⟩ := appendTurnRecords_eq_ok happend
        intro r hr
        have hm : r.id ∈ made.map (·.id) := List.mem_map_of_mem hr
        rw [hids] at hm
        rw [hlearned]
        exact hm
  | append | appendAtEpoch | appendIdempotent | appendRevisionIdempotent |
    appendConversationInput | forget | forgetWorkerScope =>
      obtain ⟨_, -, heq⟩ := map_eq_ok.mp hrun
      cases heq

theorem handedOver_contains {lib : Memory.Library} {c : Memory.Call}
    {handoffs : Table String HandoffState} {k : String}
    (h : (handedOver (c.perform lib store).1 handoffs).contains k = true) :
    handoffs.contains k = true ∨ k ∈ c.newIds := by
  have hloop : ∀ (records : List Record) (handoffs : Table String HandoffState),
      (loop records handoffs fun handoffs (record : Record) =>
        handoffs.insertOrIgnore record.id .pending).contains k = true →
      handoffs.contains k = true ∨ ∃ record ∈ records, record.id = k := by
    intro records
    induction records with
    | nil => exact fun handoffs hk => .inl hk
    | cons record rest ih =>
        intro handoffs hk
        rcases ih _ hk with hk | ⟨other, hother, heq⟩
        · rcases (contains_insertOrIgnore _ _ _).mp hk with hk | rfl
          · exact .inl hk
          · exact .inr ⟨record, List.mem_cons_self, rfl⟩
        · exact .inr ⟨other, List.mem_cons_of_mem _ hother, heq⟩
  cases hreply : (c.perform lib store).1 with
  | error e =>
      rw [hreply] at h
      exact .inl h
  | ok reply =>
      rw [hreply] at h
      cases reply with
      | record => exact .inl h
      | removed => exact .inl h
      | records records =>
          rcases hloop _ _ h with h | ⟨record, hrecord, rfl⟩
          · exact .inl h
          · exact .inr (records_new hreply record (List.mem_of_mem_filter hrecord))

end Keeping

section Steps

variable {lib : Library} {s t : State} {ids : List String}

theorem Posted.mono (h : Posted lib ids s) (ids' : List String) : Posted lib (ids ++ ids') s where
  kept := by
    obtain ⟨inputs, turns, hkept⟩ := h.kept
    exact ⟨_, _, hkept.mono ids' [] []⟩
  posted k hk := List.mem_append_left _ (h.posted k hk)
  handed k hk := List.mem_append_left _ (h.handed k hk)
  waiting := h.waiting
  proposed := h.proposed

/-- What is stored was made in the run. -/
theorem Posted.made (h : Posted lib ids s) {k : String}
    (hk : s.memory.records.contains k = true) : k ∈ ids := by
  obtain ⟨inputs, turns, hkept⟩ := h.kept
  exact hkept.made k hk

theorem Posted.memory (h : Posted lib ids s) {c : Memory.Call}
    (hprinted : ∀ id ∈ c.newIds, Printed id) (hnew : (ids ++ c.newIds).Nodup) :
    Posted lib (ids ++ c.newIds) ((Call.memory c).perform lib s).2 := by
  obtain ⟨inputs, turns, hkept⟩ := h.kept
  have hstep : Step lib.toLibrary c s.memory (c.perform lib.toLibrary s.memory).2 :=
    Call.step hkept.lineage c
  have hnext := hkept.step hprinted hnew hstep
  have hold : ∀ k ∈ ids, k ∉ c.newIds := fun k hk hm =>
    (List.nodup_append.mp hnew).2.2 k hk k hm rfl
  refine ⟨⟨_, _, hnext⟩, ?_, ?_, ?_, ?_⟩
  · intro k hk
    exact List.mem_append_left _ (h.posted k hk)
  · intro k hk
    rcases handedOver_contains hk with hk | hk
    · exact List.mem_append_left _ (h.handed k hk)
    · exact List.mem_append_right _ hk
  · intro k hk
    have hwaits : s.outbox.get? k = some false := hk
    have hposted : s.outbox.contains k = true := by rw [Table.contains, hwaits]; rfl
    refine Bool.eq_false_iff.mpr fun hhanded => ?_
    rcases handedOver_contains hhanded with hhanded | hm
    · rw [h.waiting k hwaits] at hhanded
      cases hhanded
    · exact hold k (h.posted k hposted) hm
  · intro k row hk hrow
    have hbefore := step_get hstep (hold k (h.posted k hk)) hrow
    refine (h.proposed k row hk hbefore).later (fun j hj => ?_) fun j row hj hrow => ?_
    · exact hnext.contains_names hrow j (mem_names.mpr (.inl hj))
    · exact step_get hstep (hold j (h.made hj)) hrow

/-! ### Commits -/

/-- A loop that keeps the key of every item. -/
theorem mapM_keyed {ε α β κ : Type} {f : α → Except ε β} {l : List (α × κ)} {l' : List (β × κ)}
    (h : (l.mapM fun item => do return (← f item.1, item.2)) = .ok l') :
    l'.map Prod.snd = l.map Prod.snd ∧ ∀ b ∈ l', ∃ item ∈ l, f item.1 = .ok b.1 := by
  induction l generalizing l' with
  | nil =>
      cases h
      exact ⟨rfl, fun _ hb => by cases hb⟩
  | cons item l ih =>
      rw [List.mapM_cons] at h
      obtain ⟨first, hfirst, h⟩ := bind_eq_ok.mp h
      obtain ⟨value, hvalue, hpair⟩ := bind_eq_ok.mp hfirst
      obtain ⟨rest, hrest, h⟩ := bind_eq_ok.mp h
      cases hpair
      cases h
      obtain ⟨hkeys, hall⟩ := ih hrest
      refine ⟨by simp [hkeys], fun b hb => ?_⟩
      rcases List.mem_cons.mp hb with rfl | hb
      · exact ⟨item, List.mem_cons_self, hvalue⟩
      · obtain ⟨other, hother, hok⟩ := hall b hb
        exact ⟨other, List.mem_cons_of_mem _ hother, hok⟩

theorem OrdinaryRecord.ordinary (r : OrdinaryRecord) : r.input.provenance ≠ workshopProvenance := by
  intro heq
  have hhead := r.object
  rw [heq] at hhead
  revert hhead
  decide

/-- The records of a proposal whose sources were found active and as they were read. -/
structure Fresh (lib : Library) (store : Store) (input : NewRecord) : Prop where
  supersedes : input.supersedes = none
  proposal : input.provenance = workshopProvenance →
    Proposed lib store input ∧ Sound store input

/-- The check inside the transaction finds every source active and as it was read. -/
theorem validateCandidateInTx_eq_ok {store : Store} {scope : Scope} {epoch : Nat}
    {p : WorkshopProposal} {u : Unit}
    (h : validateCandidateInTx store scope epoch (workshopCandidate lib p) = .ok u) :
    ∀ source ∈ p.sources, isActive store source.id = true ∧ Sourced store scope source := by
  obtain ⟨_, hsources, hactive⟩ := bind_eq_ok.mp h
  obtain ⟨_, -, hsources⟩ := bind_eq_ok.mp hsources
  intro source hm
  have hsource := ensure_eq_ok.mp (forM_eq_ok.mp hsources source hm)
  have hactive := ensure_eq_ok.mp (forM_eq_ok.mp hactive source hm)
  obtain ⟨row, hrow, hsource⟩ := (Option.any_eq_true _ _).mp hsource
  obtain ⟨other, hother, hactive⟩ := (Option.any_eq_true _ _).mp hactive
  simp only [Bool.and_eq_true, decide_eq_true_iff, Bool.not_eq_true'] at hsource hactive
  refine ⟨isActive_iff.mpr ⟨hactive.2, by simp [Table.contains, hrow]⟩, row, hrow, ?_⟩
  exact ⟨hsource.1.2, hsource.2⟩

/-- A proposal that is validated twice, on what was seen and inside the transaction. -/
theorem fresh_proposal {seen store : Store} {scope : Scope} {epoch : Nat} {p : WorkshopProposal}
    {now : Int} {input : NewRecord} {u : Unit} (hdecode : lib.decode (lib.encode p) = .ok p)
    (hseen : validateProposal lib seen scope p now = .ok input)
    (hstore : validateCandidateInTx store scope epoch (workshopCandidate lib p) = .ok u) :
    Fresh lib store input := by
  obtain ⟨⟨hvalid, -⟩, rfl⟩ := validateProposal_eq_ok.mp hseen
  have hsources := validateCandidateInTx_eq_ok hstore
  refine ⟨rfl, fun _ => ⟨⟨p, now, rfl, hdecode, hvalid, ?_⟩, fun j hj => ?_⟩⟩
  · exact fun source hm => (hsources source hm).2
  · obtain ⟨source, hm, rfl⟩ := List.mem_map.mp hj
    exact (hsources source hm).1

/-- What a commit appends: for every candidate one record, a proposal only from active sources. -/
theorem promotionRecords_eq_ok {c : Commit} {store : Store} {items : List (NewRecord × String)}
    {u : Unit} (hdecode : ∀ p ∈ c.proposals, lib.decode (lib.encode p) = .ok p)
    (h : promotionRecords lib c = .ok items) (hstore : validateOutputInTx lib store c = .ok u) :
    items.map Prod.snd = c.newIds ∧ ∀ item ∈ items, Fresh lib store item.1 := by
  obtain ⟨learned, hlearned, h⟩ := bind_eq_ok.mp h
  obtain ⟨proposed, hproposed, h⟩ := bind_eq_ok.mp h
  obtain ⟨_, -, h⟩ := bind_eq_ok.mp h
  cases h
  obtain ⟨_, hinLearning, hinWorkshop⟩ := bind_eq_ok.mp hstore
  obtain ⟨hlearnedIds, hlearned⟩ := mapM_keyed hlearned
  obtain ⟨hproposedIds, hproposed⟩ := mapM_keyed
    (f := fun p => validateProposal lib c.seen c.assignment.scope p c.now) hproposed
  refine ⟨by rw [List.map_append, hlearnedIds, hproposedIds, Commit.newIds], fun item hitem => ?_⟩
  rcases List.mem_append.mp hitem with hitem | hitem
  · obtain ⟨⟨candidate, id⟩, hcandidate, hrun⟩ := hlearned item hitem
    have hchecked := forM_eq_ok.mp hinLearning _ hcandidate
    obtain ⟨_, -, hrun⟩ := bind_eq_ok.mp hrun
    cases candidate with
    | workshop p =>
        have hp : p ∈ c.proposals :=
          List.mem_append_left _ (List.mem_flatMap.mpr ⟨_, hcandidate, List.mem_singleton_self p⟩)
        exact fresh_proposal (hdecode p hp) hrun hchecked
    | other candidate record =>
        obtain ⟨ordinary, -, heq⟩ := map_eq_ok.mp hrun
        rw [← heq]
        exact ⟨ordinary.fresh, fun hworkshop => absurd hworkshop ordinary.ordinary⟩
  · obtain ⟨⟨p, id⟩, hmem, hrun⟩ := hproposed item hitem
    have hp : p ∈ c.proposals := List.mem_append_right _ (List.mem_map_of_mem hmem)
    exact fresh_proposal (hdecode p hp) hrun (forM_eq_ok.mp hinWorkshop _ hmem)

/-- Records are appended, each workshop proposal with its row. -/
theorem appendPromotion_eq_ok {items : List (NewRecord × String)} {made : List String}
    (h : appendPromotion items s = .ok (made, t)) :
    StoresAll items s.memory t.memory ∧ t.handoffs = s.handoffs ∧
      ∀ k d, t.outbox.get? k = some d → s.outbox.get? k = some d ∨
        ∃ input, (input, k) ∈ items ∧ input.provenance = workshopProvenance := by
  induction items generalizing s made with
  | nil =>
      cases h
      exact ⟨.nil, rfl, fun _ _ hk => .inl hk⟩
  | cons item rest ih =>
      obtain ⟨input, id⟩ := item
      obtain ⟨⟨record, memory⟩, happend, h⟩ := bind_eq_ok.mp h
      obtain ⟨outbox, hpost, h⟩ := bind_eq_ok.mp h
      obtain ⟨⟨others, last⟩, hrest, h⟩ := bind_eq_ok.mp h
      cases h
      obtain ⟨rfl, hstores⟩ := appendInTx_eq_ok happend
      obtain ⟨hall, hhandoffs, houtbox⟩ := ih hrest
      refine ⟨.cons hstores hall, hhandoffs, fun k d hk => ?_⟩
      rcases houtbox k d hk with hk | ⟨other, hother, heq⟩
      · unfold postProposal at hpost
        split at hpost
        case isTrue hworkshop =>
          have hinsert := context_eq_ok.mp hpost
          have hget : outbox.get? k = some d := hk
          rw [Table.get?_insert? hinsert] at hget
          split at hget
          case isTrue e => exact .inr ⟨input, e ▸ List.mem_cons_self, hworkshop⟩
          case isFalse => exact .inl hget
        case isFalse =>
          cases hpost
          exact .inl hk
      · exact .inr ⟨other, List.mem_cons_of_mem _ hother, heq⟩

/-- A commit fails or was made before, or appends its records. -/
theorem commit_cases {c : Commit} (hdecode : ∀ p ∈ c.proposals, lib.decode (lib.encode p) = .ok p) :
    (atomically (commit lib c) s).2 = s ∨ ∃ items made,
      appendPromotion items s = .ok (made, (atomically (commit lib c) s).2) ∧
      items.map Prod.snd = c.newIds ∧ ∀ item ∈ items, Fresh lib s.memory item.1 := by
  rcases atomically_eq (commit lib c) s with ⟨made, t, hrun, heq⟩ | ⟨e, -, heq⟩
  · rw [heq]
    obtain ⟨_, -, hrun⟩ := bind_eq_ok.mp hrun
    obtain ⟨_, -, hrun⟩ := bind_eq_ok.mp hrun
    obtain ⟨items, hitems, hrun⟩ := bind_eq_ok.mp hrun
    obtain ⟨_, -, hrun⟩ := bind_eq_ok.mp hrun
    obtain ⟨_, houtput, hrun⟩ := bind_eq_ok.mp hrun
    obtain ⟨completed, -, hrun⟩ := bind_eq_ok.mp hrun
    obtain ⟨hids, hfresh⟩ := promotionRecords_eq_ok hdecode hitems houtput
    cases completed with
    | some ids =>
        cases hrun
        exact .inl rfl
    | none => exact .inr ⟨items, made, hrun, hids, hfresh⟩
  · rw [heq]
    exact .inl rfl

/-- Nothing is superseded by records that supersede nothing. -/
theorem storesAll_hasSuccessor {items : List (NewRecord × String)} {store store' : Store}
    (h : StoresAll items store store') (hfresh : ∀ item ∈ items, item.1.supersedes = none)
    (k : String) : hasSuccessor store' k = hasSuccessor store k := by
  obtain ⟨hkept, horigin⟩ := storesAll_get h
  refine Bool.eq_iff_iff.mpr ⟨fun hk => ?_, fun hk => ?_⟩
  · obtain ⟨j, row, hrow, hlink⟩ := Table.any_iff.mp hk
    rcases horigin j row hrow with hrow | ⟨input, hm, heq⟩
    · exact Table.any_iff.mpr ⟨j, row, hrow, hlink⟩
    · rw [heq, hfresh _ hm] at hlink
      cases of_decide_eq_true hlink
  · obtain ⟨j, row, hrow, hlink⟩ := Table.any_iff.mp hk
    exact Table.any_iff.mpr ⟨j, row, hkept j row hrow, hlink⟩

theorem storesAll_isActive {items : List (NewRecord × String)} {store store' : Store}
    (h : StoresAll items store store') (hfresh : ∀ item ∈ items, item.1.supersedes = none)
    {k : String} (hk : isActive store k = true) : isActive store' k = true := by
  obtain ⟨hno, hstored⟩ := isActive_iff.mp hk
  exact isActive_iff.mpr ⟨by rw [storesAll_hasSuccessor h hfresh, hno], h.kept hstored⟩

/-- Every row that waits can be delivered. -/
def Current (s : State) : Prop :=
  ∀ k, s.outbox.get? k = some false → Deliverable s.memory k

/-- A commit keeps the invariant, and its rows can be delivered. -/
theorem Posted.commit (h : Posted lib ids s) {c : Commit}
    (hdecode : ∀ p ∈ c.proposals, lib.decode (lib.encode p) = .ok p)
    (hprinted : ∀ id ∈ c.newIds, Printed id) (hnew : (ids ++ c.newIds).Nodup) :
    Posted lib (ids ++ c.newIds) (atomically (Maintenance.commit lib c) s).2 ∧
      (Current s → Current (atomically (Maintenance.commit lib c) s).2) := by
  rcases commit_cases (s := s) hdecode with heq | ⟨items, made, happend, hids, hfresh⟩
  · rw [heq]
    exact ⟨h.mono _, id⟩
  · generalize (atomically (Maintenance.commit lib c) s).2 = t at happend ⊢
    obtain ⟨hall, hhandoffs, houtbox⟩ := appendPromotion_eq_ok happend
    obtain ⟨hkept, horigin⟩ := storesAll_get hall
    have hnone : ∀ item ∈ items, item.1.supersedes = none :=
      fun item hm => (hfresh item hm).supersedes
    have hold : ∀ k ∈ ids, ∀ input, (input, k) ∉ items := by
      intro k hk input hm
      refine (List.nodup_append.mp hnew).2.2 k hk k ?_ rfl
      exact hids ▸ List.mem_map_of_mem hm
    -- the record of a row is the proposal of the row
    have hrecord : ∀ k row, t.outbox.contains k = true → t.memory.records.get? k = some row →
        (s.outbox.contains k = true ∧ s.memory.records.get? k = some row) ∨
          (Proposed lib s.memory row.record ∧ Sound s.memory row.record) := by
      intro k row hk hrow
      obtain ⟨d, hd⟩ := Option.isSome_iff_exists.mp hk
      rcases houtbox k d hd with hd | ⟨input, hm, hworkshop⟩
      · have hposted : s.outbox.contains k = true := by simp [Table.contains, hd]
        rcases horigin k row hrow with hrow | ⟨other, hother, -⟩
        · exact .inl ⟨hposted, hrow⟩
        · exact absurd hother (hold k (h.posted k hposted) other)
      · rcases horigin k row hrow with hrow | ⟨other, hother, heq⟩
        · exact absurd hm (hold k (h.made (by simp [Table.contains, hrow])) input)
        · have hdistinct : (items.map Prod.snd).Nodup := by
            rw [hids]
            exact (List.nodup_append.mp hnew).2.1
          have hsame := List.inj_on_of_nodup_map hdistinct hm hother rfl
          cases hsame
          rw [heq]
          exact .inr ((hfresh _ hm).proposal hworkshop)
    refine ⟨⟨?_, ?_, ?_, ?_, ?_⟩, ?_⟩
    · obtain ⟨inputs, turns, hstored⟩ := h.kept
      have hnext := (Kept.storesAll hall hstored (hids ▸ hprinted) (hids ▸ hnew)).1
      exact ⟨inputs, turns, hids ▸ hnext⟩
    · intro k hk
      obtain ⟨d, hd⟩ := Option.isSome_iff_exists.mp hk
      rcases houtbox k d hd with hd | ⟨input, hm, -⟩
      · exact List.mem_append_left _ (h.posted k (by simp [Table.contains, hd]))
      · exact List.mem_append_right _ (hids ▸ List.mem_map_of_mem hm)
    · intro k hk
      rw [hhandoffs] at hk
      exact List.mem_append_left _ (h.handed k hk)
    · intro k hk
      rw [hhandoffs]
      rcases houtbox k false hk with hk | ⟨input, hm, -⟩
      · exact h.waiting k hk
      · -- a new row has a new id
        exact Bool.eq_false_iff.mpr fun hhanded => hold k (h.handed k hhanded) input hm
    · intro k row hk hrow
      rcases hrecord k row hk hrow with ⟨hk, hrow⟩ | ⟨hproposed, -⟩
      · exact (h.proposed k row hk hrow).kept hkept
      · exact hproposed.kept hkept
    · intro hcurrent k hk record hactive
      have hposted : t.outbox.contains k = true := by rw [Table.contains, hk]; rfl
      obtain ⟨hno, row, hrow, rfl⟩ := getActive_eq_some.mp hactive
      rw [storesAll_hasSuccessor hall hnone] at hno
      have hsound : Sound s.memory row.record := by
        rcases hrecord k row hposted hrow with ⟨hbefore, hrow⟩ | ⟨-, hsound⟩
        · refine hcurrent k ?_ row.record (getActive_eq_some.mpr ⟨hno, row, hrow, rfl⟩)
          rcases houtbox k false hk with hk | ⟨input, hm, -⟩
          · exact hk
          · exact absurd hm (hold k (h.posted k hbefore) input)
        · exact hsound
      exact fun j hj => storesAll_isActive hall hnone (hsound j hj)

/-! ### Reconciliation -/

theorem State.mem_waiting {k : String} : k ∈ s.waiting ↔ s.outbox.get? k = some false := by
  rw [State.waiting, List.mem_map, ← Table.mem_rows_iff]
  constructor
  · rintro ⟨⟨j, d⟩, hm, rfl⟩
    obtain ⟨hm, hd⟩ := List.mem_filter.mp hm
    have hfalse : d = false := by simpa using hd
    exact hfalse ▸ hm
  · intro hm
    exact ⟨(k, false), List.mem_filter.mpr ⟨hm, rfl⟩, rfl⟩

theorem State.waiting_nodup : s.waiting.Nodup :=
  ((List.filter_sublist).map Prod.fst).nodup s.outbox.nodup

theorem Posted.proposal_made (h : Posted lib ids s) {k : String} (hk : k ∈ s.waiting)
    {record : NewRecord} (hrecord : getActive s.memory k = some record) :
    Proposed lib s.memory record := by
  obtain ⟨-, row, hrow, rfl⟩ := getActive_eq_some.mp hrecord
  refine h.proposed k row ?_ hrow
  rw [Table.contains, State.mem_waiting.mp hk]
  rfl

/-- What is left of a list without its first elements. -/
theorem filter_not_mem_take {l : List String} (h : l.Nodup) (n : Nat) :
    (l.filter fun k => !(l.take n).contains k) = l.drop n := by
  have hdisjoint := h
  rw [← List.take_append_drop n l] at hdisjoint
  have hfirst : ((l.take n).filter fun k => !(l.take n).contains k) = [] := by
    refine List.filter_eq_nil_iff.mpr fun k hk => ?_
    simpa using hk
  have hrest : ((l.drop n).filter fun k => !(l.take n).contains k) = l.drop n := by
    refine List.filter_eq_self.mpr fun k hk => ?_
    have hnot : k ∉ l.take n := fun hm => (List.nodup_append.mp hdisjoint).2.2 k hm k hk rfl
    simpa using hnot
  calc (l.filter fun k => !(l.take n).contains k)
      = (l.take n ++ l.drop n).filter fun k => !(l.take n).contains k := by
        rw [List.take_append_drop]
    _ = l.drop n := by rw [List.filter_append, hfirst, hrest, List.nil_append]

/-- Rows that were delivered do not wait. -/
theorem Settles.waiting {page : List String} (h : Settles page s t) :
    t.waiting = s.waiting.filter fun id => !page.contains id := by
  rw [State.waiting, h.outbox, State.waiting, Table.update]
  simp only [List.filter_map, List.map_map, List.filter_filter]
  congr 1
  refine List.filter_congr fun row _ => ?_
  simp [Bool.and_comm]

theorem Settles.get {page : List String} (h : Settles page s t) (k : String) :
    t.outbox.get? k = (s.outbox.get? k).map fun delivered => delivered || page.contains k := by
  rw [h.outbox, Table.get?_update]

theorem Settles.trans {u : State} {page later : List String} (h : Settles page s t)
    (hlater : Settles later t u) : Settles (page ++ later) s u where
  memory := hlater.memory.trans h.memory
  outbox := by
    rw [hlater.outbox, h.outbox]
    simp only [Table.update, List.map_map]
    congr 1
    refine List.map_congr_left fun row _ => Prod.ext rfl ?_
    simp [Bool.or_assoc]
  handoffs k := by
    rw [hlater.handoffs, h.handoffs, h.memory, List.mem_append, or_assoc, or_and_right]

theorem Posted.settles (h : Posted lib ids s) {page : List String}
    (hpage : ∀ k ∈ page, k ∈ s.waiting) (hsettles : Settles page s t) : Posted lib ids t := by
  have hposted : ∀ k, t.outbox.contains k = true → s.outbox.contains k = true := by
    intro k hk
    rw [Table.contains, hsettles.get, Option.isSome_map] at hk
    exact hk
  refine ⟨?_, fun k hk => h.posted k (hposted k hk), ?_, ?_, ?_⟩
  · rw [hsettles.memory]
    exact h.kept
  · intro k hk
    rcases (hsettles.handoffs k).mp hk with hk | ⟨hk, -⟩
    · exact h.handed k hk
    · refine h.posted k ?_
      rw [Table.contains, State.mem_waiting.mp (hpage k hk)]
      rfl
  · intro k hk
    rw [hsettles.get, Option.map_eq_some_iff] at hk
    obtain ⟨d, hd, hfalse⟩ := hk
    obtain ⟨rfl, hnot⟩ := Bool.or_eq_false_iff.mp hfalse
    refine Bool.eq_false_iff.mpr fun hhanded => ?_
    rcases (hsettles.handoffs k).mp hhanded with hhanded | ⟨hm, -⟩
    · rw [h.waiting k hd] at hhanded
      cases hhanded
    · rw [List.contains_iff_mem.mpr hm] at hnot
      cases hnot
  · intro k row hk hrow
    rw [hsettles.memory] at hrow ⊢
    exact h.proposed k row (hposted k hk) hrow

theorem Current.settles (h : Current s) {page : List String} (hsettles : Settles page s t) :
    Current t := by
  intro k hk
  rw [hsettles.memory]
  rw [hsettles.get, Option.map_eq_some_iff] at hk
  obtain ⟨d, hd, hfalse⟩ := hk
  exact h k ((Bool.or_eq_false_iff.mp hfalse).1 ▸ hd)

/-- One reconciliation: it delivers rows of the page up to the first that cannot be. -/
theorem Posted.reconcile (h : Posted lib ids s) :
    ∃ page, page <+: s.waiting.take 8 ∧ Settles page s (reconcileOutbox lib s).2 ∧
      (∀ k ∈ page, Deliverable s.memory k) ∧
      (Current s → page = s.waiting.take 8 ∧ (reconcileOutbox lib s).1 = .ok ()) := by
  have hpage : ∀ k ∈ s.waiting.take 8, k ∈ s.waiting := fun k hk => List.mem_of_mem_take hk
  obtain ⟨done, t, hrun, hinitial, hsettles, hdone, hall, -⟩ :=
    deliverAll_eq (s := s) fun k hk record hrecord => h.proposal_made (hpage k hk) hrecord
  rw [reconcileOutbox, hrun]
  refine ⟨done, hinitial, hsettles, hdone, fun hcurrent => hall fun k hk => ?_⟩
  exact hcurrent k (State.mem_waiting.mp (hpage k hk))

/-- Some calls of `reconcile_outbox`, one after the other. -/
def passes (lib : Library) (n : Nat) (s : State) : State :=
  (fun s => (reconcileOutbox lib s).2)^[n] s

theorem Posted.passes (h : Posted lib ids s) (n : Nat) :
    ∃ page, (∀ k ∈ page, k ∈ s.waiting ∧ Deliverable s.memory k) ∧
      Settles page s (passes lib n s) := by
  induction n generalizing s with
  | zero => exact ⟨[], by simp, .nil s⟩
  | succ n ih =>
      obtain ⟨page, hinitial, hsettles, hdone, -⟩ := h.reconcile
      have hpage : ∀ k ∈ page, k ∈ s.waiting :=
        fun k hk => List.mem_of_mem_take (hinitial.subset hk)
      obtain ⟨later, hlater, hrest⟩ := ih (h.settles hpage hsettles)
      refine ⟨page ++ later, fun k hk => ?_, hsettles.trans hrest⟩
      rcases List.mem_append.mp hk with hk | hk
      · exact ⟨hpage k hk, hdone k hk⟩
      · obtain ⟨hwaits, hdeliverable⟩ := hlater k hk
        rw [hsettles.waiting] at hwaits
        rw [hsettles.memory] at hdeliverable
        exact ⟨List.mem_of_mem_filter hwaits, hdeliverable⟩

/-- Every pass over current rows delivers eight of them. -/
theorem Posted.passes_waiting (h : Posted lib ids s) (hcurrent : Current s) (n : Nat) :
    (Maintenance.passes lib n s).waiting = s.waiting.drop (8 * n) := by
  induction n generalizing s with
  | zero => rfl
  | succ n ih =>
      obtain ⟨page, hinitial, hsettles, -, hall⟩ := h.reconcile
      obtain ⟨rfl, -⟩ := hall hcurrent
      have hpage : ∀ k ∈ s.waiting.take 8, k ∈ s.waiting := fun k hk => List.mem_of_mem_take hk
      have hnext : (reconcileOutbox lib s).2.waiting = s.waiting.drop 8 := by
        rw [hsettles.waiting]
        exact filter_not_mem_take s.waiting_nodup 8
      have hstep := ih (h.settles hpage hsettles) (hcurrent.settles hsettles)
      rw [hnext, List.drop_drop] at hstep
      exact hstep.trans (by rw [Nat.mul_succ, Nat.add_comm])

/-! ### Runs -/

theorem Posted.received (h : Posted lib ids s) {received : List Commit}
    (hprinted : ∀ id ∈ received.flatMap Commit.newIds, Printed id)
    (hnew : (ids ++ received.flatMap Commit.newIds).Nodup)
    (hdecode : ∀ p ∈ received.flatMap Commit.proposals, lib.decode (lib.encode p) = .ok p) :
    Posted lib (ids ++ received.flatMap Commit.newIds)
        (loop received s fun s c => (atomically (Maintenance.commit lib c) s).2) ∧
      (Current s → Current
        (loop received s fun s c => (atomically (Maintenance.commit lib c) s).2)) := by
  induction received generalizing s ids with
  | nil => exact ⟨h.mono _, fun hcurrent => hcurrent⟩
  | cons c rest ih =>
      rw [List.flatMap_cons] at hprinted hnew hdecode ⊢
      rw [← List.append_assoc] at hnew ⊢
      obtain ⟨hfirst, hcurrent⟩ := h.commit (fun p hp => hdecode p (List.mem_append_left _ hp))
        (fun id hid => hprinted id (List.mem_append_left _ hid)) (List.nodup_append.mp hnew).1
      obtain ⟨hrest, hlast⟩ := ih hfirst (fun id hid => hprinted id (List.mem_append_right _ hid))
        hnew fun p hp => hdecode p (List.mem_append_right _ hp)
      exact ⟨hrest, fun h => hlast (hcurrent h)⟩

/-- What runs rest on: new identifiers are printed UUIDs and differ, and the text of a proposal is
read as the proposal. -/
structure Identified (lib : Library) (calls : List Call) : Prop where
  printed : ∀ id ∈ calls.flatMap Call.newIds, Printed id
  distinct : (calls.flatMap Call.newIds).Nodup
  decodes : ∀ p ∈ calls.flatMap Call.proposals, lib.decode (lib.encode p) = .ok p

/-- Every call keeps the invariant. -/
theorem Posted.call (h : Posted lib ids s) {c : Call} (hprinted : ∀ id ∈ c.newIds, Printed id)
    (hnew : (ids ++ c.newIds).Nodup)
    (hdecode : ∀ p ∈ c.proposals, lib.decode (lib.encode p) = .ok p) :
    Posted lib (ids ++ c.newIds) (c.perform lib s).2 := by
  have hreconcile : ∀ {ids s}, Posted lib ids s → Posted lib ids (reconcileOutbox lib s).2 := by
    intro ids s h
    obtain ⟨page, hinitial, hsettles, -⟩ := h.reconcile
    exact h.settles (fun k hk => List.mem_of_mem_take (hinitial.subset hk)) hsettles
  cases c with
  | memory call => exact h.memory hprinted hnew
  | commit c => exact (h.commit hdecode hprinted hnew).1
  | reconcile =>
      rw [Call.newIds, List.append_nil]
      exact hreconcile h
  | recover received => exact hreconcile (h.received hprinted hnew hdecode).1

theorem posted {entries : List Made} (h : History (Call.perform lib) NoDrift {} entries s)
    (hi : Identified lib (entries.map Entry.call)) :
    Posted lib ((entries.map Entry.call).flatMap Call.newIds) s := by
  refine h.invariant_entries (fun es u => Identified lib (es.map Entry.call) →
    Posted lib ((es.map Entry.call).flatMap Call.newIds) u) ?_ ?_ ?_ hi
  · intro _
    exact .empty lib
  · intro es u c _ ih hi
    have hleft : Identified lib (es.map Entry.call) := by
      refine ⟨fun id hid => hi.printed id (by simp [hid]), ?_, fun p hp => hi.decodes p ?_⟩
      · have hd := hi.distinct
        rw [List.map_append, List.flatMap_append] at hd
        exact (List.nodup_append.mp hd).1
      · rw [List.map_append, List.flatMap_append]
        exact List.mem_append_left _ hp
    have hdistinct := hi.distinct
    have hprinted := hi.printed
    have hdecodes := hi.decodes
    simp only [List.map_append, List.map_cons, List.map_nil, List.flatMap_append,
      List.flatMap_singleton] at hdistinct hprinted hdecodes ⊢
    exact (ih hleft).call (fun id hid => hprinted id (List.mem_append_right _ hid)) hdistinct
      fun p hp => hdecodes p (List.mem_append_right _ hp)
  · intro _ _ _ _ hd
    exact hd.elim

/-- What delivering the outbox promises in a state that the calls `calls` led to. -/
structure Delivers (lib : Library) (calls : List Call) (s : State) : Prop where
  reconciles : (reconcileOutbox lib s).1 = .ok ()
  recovers : ∀ received, Identified lib (calls ++ [.recover received]) →
    (recover lib received s).1 = .ok ()
  all : ∃ n, ∀ k, (passes lib n s).outbox.get? k ≠ some false
  exactly : ∀ n k, s.outbox.get? k = some false → (passes lib n s).outbox.get? k = some true →
    ((passes lib n s).handoffs.contains k = true ↔ Usable s.memory k)

/-- What a pass hands over is what it delivers that is usable. -/
theorem Posted.exactly (h : Posted lib ids s) {n : Nat} {k : String}
    (hk : s.outbox.get? k = some false)
    (hdelivered : (Maintenance.passes lib n s).outbox.get? k = some true) :
    Deliverable s.memory k ∧
      ((Maintenance.passes lib n s).handoffs.contains k = true ↔ Usable s.memory k) := by
  obtain ⟨page, hpage, hsettles⟩ := h.passes n
  rw [hsettles.get, hk, Option.map_some, Bool.false_or] at hdelivered
  have hm : k ∈ page := List.contains_iff_mem.mp (Option.some.inj hdelivered)
  obtain ⟨-, hdeliverable⟩ := hpage k hm
  refine ⟨hdeliverable, ?_⟩
  rw [hsettles.handoffs, h.waiting k hk, hdeliverable.usable]
  simp [hm]

/-- **Delivery.**  In every state of a run, a row that is delivered hands over its proposal exactly
if the proposal and all its sources are active.  Reconciling and recovering succeed and every row is
delivered in the end exactly when no row waits whose proposal is active while one of its sources is
not. -/
theorem outbox_delivers {entries : List Made}
    (h : History (Call.perform lib) NoDrift {} entries s)
    (hi : Identified lib (entries.map Entry.call)) :
    (∀ n k, s.outbox.get? k = some false → (passes lib n s).outbox.get? k = some true →
        ((passes lib n s).handoffs.contains k = true ↔ Usable s.memory k)) ∧
      (Delivers lib (entries.map Entry.call) s ↔ Current s) := by
  have hposted := posted h hi
  have hexactly : ∀ n k, s.outbox.get? k = some false →
      (passes lib n s).outbox.get? k = some true →
        ((passes lib n s).handoffs.contains k = true ↔ Usable s.memory k) :=
    fun n k hk hdelivered => (hposted.exactly hk hdelivered).2
  refine ⟨hexactly, fun hdelivers k hk => ?_, fun hcurrent => ⟨?_, ?_, ?_, hexactly⟩⟩
  · obtain ⟨n, hall⟩ := hdelivers.all
    obtain ⟨page, hpage, hsettles⟩ := hposted.passes n
    have hlast := hall k
    rw [hsettles.get, hk, Option.map_some, Bool.false_or] at hlast
    have hm : k ∈ page := by
      by_contra hnot
      exact hlast (by simp [hnot])
    exact (hpage k hm).2
  · obtain ⟨page, -, -, -, hall⟩ := hposted.reconcile
    exact (hall hcurrent).2
  · intro received hreceived
    have hdistinct := hreceived.distinct
    have hprinted := hreceived.printed
    have hdecodes := hreceived.decodes
    simp only [List.flatMap_append, List.flatMap_singleton] at hdistinct hprinted hdecodes
    obtain ⟨hmid, hkeeps⟩ := hposted.received
      (fun id hid => hprinted id (List.mem_append_right _ hid)) hdistinct
      fun p hp => hdecodes p (List.mem_append_right _ hp)
    obtain ⟨page, -, -, -, hall⟩ := hmid.reconcile
    exact (hall (hkeeps hcurrent)).2
  · refine ⟨s.waiting.length, fun k hk => ?_⟩
    have hwaiting := hposted.passes_waiting hcurrent s.waiting.length
    rw [List.drop_of_length_le (Nat.le_mul_of_pos_left _ (by decide))] at hwaiting
    have hm := State.mem_waiting.mpr hk
    rw [hwaiting] at hm
    cases hm

end Steps

/-! ### A run -/

def unsweetened : NewRecord :=
  { kind := .finding, origin := .human, body := "No sugar.", timestamp := 1 }

/-- The correction of a source. -/
def corrected : NewRecord :=
  { kind := .finding, origin := .human, body := "Coffee, please.", timestamp := 4,
    dependencies := [firstId], supersedes := some firstId }

def teaProposal : WorkshopProposal :=
  { kind := .method, hypothesis := "Tea is always welcome", proposedChange := "Offer tea first",
    successCriterion := "Tea is accepted", sources := [⟨firstId, 1⟩] }

def sugarProposal : WorkshopProposal :=
  { kind := .method, hypothesis := "Sugar is never welcome", proposedChange := "Leave it out",
    successCriterion := "No spoon is left", sources := [⟨secondId, 2⟩] }

def teaText : String :=
  "\x7b\"kind\":\"method\",\"hypothesis\":\"Tea is always welcome\",\"proposed_change\":" ++
    "\"Offer tea first\",\"baseline\":null,\"requested_capabilities\":[],\"success_criterion\":" ++
    "\"Tea is accepted\",\"sources\":[\x7b\"id\":\"00000000-0000-4000-8000-000000000001\"," ++
    "\"revision\":1\x7d]\x7d"

def sugarText : String :=
  "\x7b\"kind\":\"method\",\"hypothesis\":\"Sugar is never welcome\",\"proposed_change\":" ++
    "\"Leave it out\",\"baseline\":null,\"requested_capabilities\":[],\"success_criterion\":" ++
    "\"No spoon is left\",\"sources\":[\x7b\"id\":\"00000000-0000-4000-8000-000000000002\"," ++
    "\"revision\":2\x7d]\x7d"

/-- The library on the texts of the run. -/
def kitchenLibrary : Library :=
  { exampleLibrary with
    encode := fun p => if p = teaProposal then teaText else sugarText
    decode := fun text =>
      if text = teaText then .ok teaProposal
      else if text = sugarText then .ok sugarProposal
      else .error (.serialization "expected value at line 1 column 1") }

def kitchenCalls : List Call :=
  [.memory (.append firstId said), .memory (.append secondId unsweetened)]

/-- Both proposals are committed at once. -/
def kitchenCommit : Commit where
  assignment :=
    { scope := { project := some "kitchen" }
      epoch := 0
      selected := [⟨firstId, 1⟩, ⟨secondId, 2⟩]
      sources := [⟨firstId, 1⟩, ⟨secondId, 2⟩] }
  output := { learning := [], workshop := [(teaProposal, thirdId), (sugarProposal, fourthId)] }
  now := 3
  seen := (replay (Call.perform kitchenLibrary) {} kitchenCalls).2.memory

def correctedCalls : List Call :=
  kitchenCalls ++ [.commit kitchenCommit, .memory (.append fifthId corrected)]

theorem kitchen_identified {calls : List Call}
    (hids : calls.flatMap Call.newIds <+: [firstId, secondId, thirdId, fourthId, fifthId])
    (hproposals : ∀ p ∈ calls.flatMap Call.proposals, p ∈ [teaProposal, sugarProposal]) :
    Identified kitchenLibrary calls := by
  have hall : ([firstId, secondId, thirdId, fourthId, fifthId].all fun id =>
      Uuid.canonical id = some id) = true := by decide +kernel
  refine ⟨fun id hid => ?_, hids.sublist.nodup (by decide), fun p hp => ?_⟩
  · have hprinted := List.all_eq_true.mp hall id (hids.subset hid)
    rwa [decide_eq_true_iff] at hprinted
  · rcases List.mem_cons.mp (hproposals p hp) with rfl | hp
    · decide +kernel
    · rw [List.mem_singleton.mp hp]
      decide +kernel

/-- A row that cannot be delivered ends every pass. -/
theorem reconcile_stuck {lib : Library} {s : State} {id : String} {rest : List String}
    {e : MemoryError} (hwaiting : s.waiting = id :: rest)
    (hdeliver : (deliver lib id s).map (fun _ => ()) = .error e) :
    reconcileOutbox lib s = (.error e, s) := by
  rw [reconcileOutbox, hwaiting, List.take_succ_cons, deliverAll]
  cases hrun : deliver lib id s with
  | ok t =>
      rw [hrun] at hdeliver
      cases hdeliver
  | error other =>
      rw [hrun] at hdeliver
      cases hdeliver
      rfl

/-- One corrected source holds up the proposal that waits behind. -/
theorem outbox_blocked : ∃ entries s,
    History (Call.perform kitchenLibrary) NoDrift {} entries s ∧
      Identified kitchenLibrary (entries.map Entry.call) ∧
      (reconcileOutbox kitchenLibrary s).1 =
        .error (.invalid "guidance source is no longer active") ∧
      Usable s.memory fourthId ∧
      ∀ n, (passes kitchenLibrary n s).outbox.get? fourthId = some false := by
  have h : History (Call.perform kitchenLibrary) NoDrift {}
      (replay (Call.perform kitchenLibrary) {} correctedCalls).1
      (replay (Call.perform kitchenLibrary) {} correctedCalls).2 := History.replay _ _
  have hcalls : (replay (Call.perform kitchenLibrary) {} correctedCalls).1.map Entry.call =
      correctedCalls := rfl
  refine ⟨_, _, h, ?_, ?_⟩
  · rw [hcalls]
    exact kitchen_identified (by decide +kernel) (by decide +kernel)
  · obtain ⟨s, hs, hwaiting, hdeliver, hactive, hget⟩ : ∃ s,
        s = (replay (Call.perform kitchenLibrary) {} correctedCalls).2 ∧
        s.waiting = [thirdId, fourthId] ∧
        (deliver kitchenLibrary thirdId s).map (fun _ => ()) =
          .error (.invalid "guidance source is no longer active") ∧
        ((getActive s.memory fourthId).any fun record => record.dependencies.all fun j =>
          isActive s.memory j) = true ∧
        s.outbox.get? fourthId = some false :=
      ⟨_, rfl, by decide +kernel, by decide +kernel, by decide +kernel, by decide +kernel⟩
    rw [← hs]
    have hstuck := reconcile_stuck hwaiting hdeliver
    obtain ⟨record, hrecord, hsound⟩ := (Option.any_eq_true _ _).mp hactive
    refine ⟨by rw [hstuck], ⟨record, hrecord, fun j hj => List.all_eq_true.mp hsound j hj⟩, ?_⟩
    intro n
    have hfixed : passes kitchenLibrary n s = s :=
      Function.iterate_fixed (by rw [hstuck]) n
    rw [hfixed, hget]

/-- Rows that wait can be delivered when all their sources are found active. -/
theorem current_of_all {s : State} (h : (s.waiting.all fun k => (getActive s.memory k).all
    fun record => record.dependencies.all fun j => isActive s.memory j) = true) : Current s := by
  intro k hk record hrecord j hj
  have hk := List.all_eq_true.mp h k (State.mem_waiting.mpr hk)
  rw [hrecord, Option.all_some] at hk
  exact List.all_eq_true.mp hk j hj

def committedCalls : List Call := kitchenCalls ++ [.commit kitchenCommit]

theorem outbox_delivers_kitchen : ∃ entries s,
    History (Call.perform kitchenLibrary) NoDrift {} entries s ∧
      s.waiting = [thirdId, fourthId] ∧ Delivers kitchenLibrary (entries.map Entry.call) s := by
  have h : History (Call.perform kitchenLibrary) NoDrift {}
      (replay (Call.perform kitchenLibrary) {} committedCalls).1
      (replay (Call.perform kitchenLibrary) {} committedCalls).2 := History.replay _ _
  have hi : Identified kitchenLibrary
      ((replay (Call.perform kitchenLibrary) {} committedCalls).1.map Entry.call) :=
    kitchen_identified (by decide +kernel) (by decide +kernel)
  refine ⟨_, _, h, by decide +kernel, (outbox_delivers h hi).2.mpr ?_⟩
  exact current_of_all (by decide +kernel)

end Pikamux.Maintenance
