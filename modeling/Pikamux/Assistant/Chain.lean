import Pikamux.Assistant.Appends
import Pikamux.Assistant.Decisions
import Pikamux.Support.Retry

/-!
# Assistant — Chain

The requests of `assistant_decisions.rs` made by any number of clients at once.  Records only ever
follow records, one at most each, and say truthfully whose words they are.

* `Extends` — records and receipts are never changed; on this every client relies.
* `Writes` — all that a request may do to the store.
* `Call.retriable` — a request that was answered is answered the same when it is made again.
-/

namespace Pikamux.Decisions

open Support Support.Program Memory

/-! ### What a record says -/

/-- The recorded author of the rationale. -/
def recordedAuthor (w : Wording) (record : Record) : Origin :=
  ((recordProvenance w record).map (·.rationaleAuthor)).getD record.origin

/-- The record that the rationale is recorded to be from. -/
def recordedSource (w : Wording) (record : Record) : String :=
  ((recordProvenance w record).bind (·.rationaleSourceRecordId)).getD record.id

/-- A revision of a record, with new words or without. -/
structure Revises (w : Wording) (newWords : Bool) (parent : Record) (input : NewRecord) : Prop where
  kind : input.kind = parent.kind ∨ parent.kind = .userInstruction ∧ input.kind = .correction
  scope : input.scope = parent.scope
  unprotected : parent.protectedPolicy = false ∧ input.protectedPolicy = false
  state : parent.kind = .decision → parent.decisionState ≠ some .superseded
  origin : input.origin = .human
  provenance : ∃ p, w.readProvenance input.provenance = some p ∧ p.schema = 1 ∧ p.actor = .human ∧
    p.sourceRecordId = parent.id ∧
    p.rationaleAuthor = (if newWords then .human else recordedAuthor w parent) ∧
    p.rationaleSourceRecordId = if newWords then none else some (recordedSource w parent)

section Revisions

variable {w : Wording} {record : Record} {input : NewRecord} {body action : String}
  {timestamp : Int} {newWords : Bool}

theorem revisionOf_revises (hw : w.Faithful) (hunprotected : record.protectedPolicy = false)
    (hstate : record.kind = .decision → record.decisionState ≠ some .superseded) :
    Revises w newWords record (revisionOf w record body timestamp action newWords) where
  kind := .inl rfl
  scope := rfl
  unprotected := ⟨hunprotected, rfl⟩
  state := hstate
  origin := rfl
  provenance := ⟨_, hw _ (by simp), rfl, rfl, rfl, rfl, rfl⟩

/-- A correction rewrites only the kind that it stands for. -/
theorem Revises.corrected (hw : w.Faithful) (h : Revises w newWords record input)
    (kind : Option RecordKind) (hkind : input.kind = record.kind) :
    Revises w newWords record { input with
      kind := correctedKind input.kind
      provenance := withSemanticKind w input.provenance kind } := by
  obtain ⟨p, hp, hschema, hactor, hsource, hauthor, hwords⟩ := h.provenance
  have hread : revisionProvenance w input.provenance = some p := by
    rw [revisionProvenance, hp, Option.filter_some, if_pos (by simpa using hschema)]
  refine ⟨?_, h.scope, h.unprotected, h.state, h.origin, { p with semanticKind := kind }, ?_,
    hschema, hactor, hsource, hauthor, hwords⟩
  · dsimp only [correctedKind]
    split
    case isTrue hinstruction => exact .inr ⟨hkind ▸ hinstruction, rfl⟩
    case isFalse => exact .inl hkind
  · dsimp only [withSemanticKind]
    rw [hread]
    exact hw _ (by simp [hschema])

/-- What a revision records of its rationale. -/
theorem Revises.recorded (h : Revises w newWords record input)
    (hsupersedes : input.supersedes = some record.id) (id : String) :
    recordedAuthor w { input with id } = (if newWords then .human else recordedAuthor w record) ∧
      recordedSource w { input with id } = if newWords then id else recordedSource w record := by
  obtain ⟨p, hp, hschema, hactor, hsource, hauthor, hwords⟩ := h.provenance
  have hread : recordProvenance w { input with id } = some p := by
    rw [recordProvenance, revisionProvenance, hp, Option.filter_some,
      if_pos (by simpa using hschema), Option.filter_some, if_pos]
    simp [h.origin, hactor, hsupersedes, hsource]
  rw [recordedAuthor, recordedSource, hread]
  refine ⟨hauthor, ?_⟩
  cases newWords with
  | true => simp [show p.rationaleSourceRecordId = none from hwords]
  | false => simp [hwords]

/-- A record that follows none is from its own author. -/
theorem recorded_first (h : record.supersedes = none) :
    recordedAuthor w record = record.origin ∧ recordedSource w record = record.id := by
  have hread : recordProvenance w record = none := by
    rw [recordProvenance, h]
    refine Option.filter_eq_none_iff.mpr fun p _ => ?_
    simp
  rw [recordedAuthor, recordedSource, hread]
  exact ⟨rfl, rfl⟩

end Revisions

/-! ### What the clients rely on -/

/-- What a record supersedes is stored. -/
def Rooted (s : Store) : Prop :=
  ∀ k row p, s.records.get? k = some row → row.record.supersedes = some p →
    ∃ parent, s.records.get? p = some parent

/-- Records and receipts are never changed. -/
structure Extends (s t : Store) : Prop where
  rows : ∀ k row, s.records.get? k = some row → t.records.get? k = some row
  receipts : ∀ r receipt, s.receipts.get? r = some receipt → t.receipts.get? r = some receipt
  rooted : Rooted s → Rooted t

theorem Extends.refl (s : Store) : Extends s s := ⟨fun _ _ h => h, fun _ _ h => h, fun h => h⟩

theorem Extends.trans (s t u : Store) (h : Extends s t) (h' : Extends t u) : Extends s u where
  rows k row hk := h'.rows k row (h.rows k row hk)
  receipts r receipt hr := h'.receipts r receipt (h.receipts r receipt hr)
  rooted hs := h'.rooted (h.rooted hs)

theorem Extends.get {s t : Store} (h : Extends s t) {id : String} {record : Record}
    (hs : get s id = some record) : get t id = some record := by
  obtain ⟨row, hrow, rfl⟩ := Option.map_eq_some_iff.mp hs
  rw [Decisions.get, h.rows id row hrow]
  rfl

theorem Extends.hasSuccessor {s t : Store} (h : Extends s t) {id : String}
    (hs : hasSuccessor s id = true) : hasSuccessor t id = true := by
  obtain ⟨k, row, hrow, hlinks⟩ := Table.any_iff.mp hs
  exact Table.any_iff.mpr ⟨k, row, h.rows k row hrow, hlinks⟩

/-- A record with words of its own, or a revision of a record that is stored. -/
def Follows (w : Wording) (newWords : Bool) (input : NewRecord) (s : Store) : Prop :=
  (input.supersedes = none ∧ newWords = true) ∨
    ∃ record, get s record.id = some record ∧ input.supersedes = some record.id ∧
      Revises w newWords record input

/-- One record is added. -/
structure Adds (w : Wording) (newWords : Bool) (id : String) (input : NewRecord) (s t : Store) :
    Prop where
  rows : ∀ k, t.records.get? k =
    if k = id then some ⟨input, s.sequence + 1⟩ else s.records.get? k
  fresh : s.records.get? id = none
  receipts : ∀ r receipt, s.receipts.get? r = some receipt → t.receipts.get? r = some receipt
  latest : ∀ p, input.supersedes = some p → hasSuccessor s p = false
  follows : Follows w newWords input s

/-- All that a request may do to the store. -/
def Writes (w : Wording) (newWords : Bool) (s t : Store) : Prop :=
  s = t ∨ ∃ id input, Adds w newWords id input s t

section

variable {w : Wording} {newWords : Bool} {s t : Store} {id : String} {input : NewRecord}

theorem get_eq_some {record : Record} (h : get s id = some record) :
    ∃ row, s.records.get? id = some row ∧ record = { row.record with id } := by
  obtain ⟨row, hrow, rfl⟩ := Option.map_eq_some_iff.mp h
  exact ⟨row, hrow, rfl⟩

theorem Adds.kept (h : Adds w newWords id input s t) {k : String} {row : Row}
    (hk : s.records.get? k = some row) : t.records.get? k = some row := by
  rw [h.rows, if_neg, hk]
  rintro rfl
  rw [h.fresh] at hk
  cases hk

theorem Adds.extends (h : Adds w newWords id input s t) : Extends s t where
  rows _ _ hk := h.kept hk
  receipts := h.receipts
  rooted hs := by
    intro k row p hk hp
    rw [h.rows] at hk
    split at hk
    case isTrue =>
      cases hk
      rcases h.follows with ⟨hnone, -⟩ | ⟨record, hrecord, hsupersedes, -⟩
      · cases hnone.symm.trans hp
      · cases hsupersedes.symm.trans hp
        obtain ⟨parent, hparent, -⟩ := get_eq_some hrecord
        exact ⟨parent, h.kept hparent⟩
    case isFalse =>
      obtain ⟨parent, hparent⟩ := hs k row p hk hp
      exact ⟨parent, h.kept hparent⟩

theorem Writes.self (w : Wording) (newWords : Bool) (s : Store) : Writes w newWords s s := .inl rfl

theorem Writes.extends (h : Writes w newWords s t) : Extends s t := by
  rcases h with rfl | ⟨id, input, h⟩
  · exact .refl s
  · exact h.extends

theorem Follows.stable (h : Follows w newWords input s) (ht : Extends s t) :
    Follows w newWords input t := by
  rcases h with hfirst | ⟨record, hrecord, hrevises⟩
  · exact .inl hfirst
  · exact .inr ⟨record, ht.get hrecord, hrevises⟩

end

/-! ### Requests made again -/

section Retries

variable {w : Wording} {lib : Library} {newWords : Bool} {except : MemoryError → Store → Prop}
  {scope : Scope} {id requestId : String} {input : NewRecord} {record : Record}

/-- What an append that succeeds did, and that from then on it does nothing but return its record. -/
theorem appendIdempotentChecked_spec {active : Bool} {s u : Store}
    (h : appendIdempotentChecked lib requestId id input active s = .ok (record, u))
    (hactive : active = true ∨ input.supersedes = none) (hfollows : Follows w newWords input s) :
    Writes w newWords s u ∧ ∀ id' v, Extends u v →
      appendIdempotentChecked lib requestId id' input active v = .ok (record, v) := by
  obtain ⟨_, hrequest, h⟩ := bind_eq_ok.mp h
  obtain ⟨_, hvalid, h⟩ := bind_eq_ok.mp h
  suffices hdone : Writes w newWords s u ∧ ∃ receipt row,
      u.receipts.get? requestId = some receipt ∧ receipt.payloadHash = lib.hash input ∧
        u.records.get? receipt.recordId = some row ∧
        record = { row.record with id := receipt.recordId } by
    obtain ⟨hwrites, receipt, row, hreceipt, hhash, hrow, rfl⟩ := hdone
    refine ⟨hwrites, fun id' v hv => ?_⟩
    rw [appendIdempotentChecked, hrequest, ok_bind, hvalid, ok_bind]
    exact idempotently_again (hv.receipts _ _ hreceipt) hhash (hv.rows _ _ hrow)
  rcases idempotently_cases h with ⟨hnone, h⟩ | ⟨rfl, receipt, row, hreceipt, hhash, hrow, heq⟩
  · obtain ⟨_, hlatest, h⟩ := bind_eq_ok.mp h
    obtain ⟨rfl, mid, receipts, hstores, hinsert, rfl⟩ := appendRequested_eq_ok h
    have hstored := hstores.stored
    obtain ⟨records, hrecords, rfl⟩ := hstores.insert
    refine ⟨.inr ⟨id, input, Table.get?_insert? hrecords, (Table.insert?_eq_some.mp hrecords).1, ?_,
      ?_, hfollows⟩, ⟨lib.hash input, id⟩, _, ?_, rfl, hstored, rfl⟩
    · intro r receipt hr
      rw [Table.get?_insert? hinsert, if_neg, hr]
      rintro rfl
      rw [hnone] at hr
      cases hr
    · intro p hp
      rcases hactive with rfl | hnone'
      · simpa [hp] using ensure_eq_ok.mp hlatest
      · rw [hnone'] at hp
        cases hp
    · exact (Table.get?_insert? hinsert requestId).trans (if_pos rfl)
  · exact ⟨.inl rfl, receipt, row, hreceipt, hhash, hrow, heq⟩

theorem retriable_commitRevision :
    Retriable Extends (Writes w newWords) except (Follows w newWords input) (fun _ _ => True)
      (commitRevision lib requestId input) := by
  refine retriable_transaction Extends.trans (Writes.self w newWords) ?_
  intro id s t record u hs ht h
  obtain ⟨_, hhuman, h⟩ := bind_eq_ok.mp h
  obtain ⟨_, hdeps, h⟩ := bind_eq_ok.mp h
  obtain ⟨hwrites, hagain⟩ := appendIdempotentChecked_spec h (.inl rfl) (hs.stable ht)
  refine ⟨hwrites, trivial, fun id' v hv => ?_⟩
  rw [appendRevisionIdempotent, hhuman, ok_bind, hdeps, ok_bind]
  exact hagain id' v hv

/-- A record that may be revised was found. -/
def Found (scope : Scope) (id : String) (record : Record) (s : Store) : Prop :=
  Rooted s ∧ get s id = some record ∧ record.scope = scope ∧ record.protectedPolicy = false

theorem Found.stable {s t : Store} (h : Found scope id record s) (ht : Extends s t) :
    Found scope id record t :=
  ⟨ht.rooted h.1, ht.get h.2.1, h.2.2⟩

/-- A revision of the record that was found follows it. -/
theorem Found.follows {s : Store} (h : Found scope id record s)
    (hrevises : Revises w newWords record input) (hsupersedes : input.supersedes = some record.id) :
    Follows w newWords input s := by
  obtain ⟨row, hrow, rfl⟩ := get_eq_some h.2.1
  exact .inr ⟨_, h.2.1, hsupersedes, hrevises⟩

/-- Sequences of what clients do. -/
theorem retriable_bind {α β : Type} {pre : Store → Prop} {fact : α → Store → Prop}
    {fact' : β → Store → Prop} {p : Action α} {k : α → Action β}
    (hp : Retriable Extends (Writes w newWords) except pre fact p)
    (hk : ∀ a, Retriable Extends (Writes w newWords) except (fact a) fact' (k a)) :
    Retriable Extends (Writes w newWords) except pre fact' (p >>= k) :=
  hp.bind Extends.refl Extends.trans (fun _ _ => Writes.extends) hk

/-- A check, and what it says of the facts at hand. -/
theorem retriable_check_then {α β : Type} {pre : Store → Prop} {fact : α → Store → Prop}
    {fact' : β → Store → Prop} {x : Except MemoryError α} {k : α → Action β}
    (hfact : ∀ a s, x = .ok a → pre s → fact a s)
    (hk : ∀ a, Retriable Extends (Writes w newWords) except (fact a) fact' (k a)) :
    Retriable Extends (Writes w newWords) except pre fact' (check x >>= k) :=
  retriable_bind (retriable_check hfact) hk

theorem retriable_predecessor :
    Retriable Extends (Writes w newWords) except Rooted (Found scope id) (predecessor scope id) := by
  have hread : Retriable Extends (Writes w newWords) except Rooted
      (fun record s => Rooted s ∧ get s id = some record)
      (query fun s => context (.notFound id) (get s id) : Action Record) := by
    refine retriable_query Extends.trans (Writes.self w newWords) ?_
    intro s t record hs ht hget
    rw [context_eq_ok] at hget
    exact ⟨⟨ht.rooted hs, hget⟩, fun u hu => context_eq_ok.mpr (hu.get hget)⟩
  refine retriable_bind hread fun record => ?_
  refine retriable_check_then ?_ fun _ => retriable_pure fun s (h : Found scope id record s) => h
  rintro _ s hcheck ⟨hrooted, hget⟩
  simpa [Found, hrooted, hget] using ensure_eq_ok.mp hcheck

/-- A decision that may be revised was found. -/
def FoundDecision (scope : Scope) (id : String) (record : Record) (s : Store) : Prop :=
  Found scope id record s ∧ record.kind = .decision ∧ record.decisionState ≠ some .superseded

theorem retriable_decisionPredecessor :
    Retriable Extends (Writes w newWords) except Rooted (FoundDecision scope id)
      (decisionPredecessor scope id) := by
  refine retriable_bind retriable_predecessor fun record => ?_
  have hkind : ∀ (u : Unit) (s : Store), ensure (record.kind = .decision)
      (MemoryError.invalid "record is not a decision") = .ok u → Found scope id record s →
      Found scope id record s ∧ record.kind = .decision := by
    intro _ s hcheck hs
    exact ⟨hs, of_decide_eq_true (ensure_eq_ok.mp hcheck)⟩
  refine retriable_check_then hkind fun _ => ?_
  refine retriable_check_then ?_ fun _ =>
    retriable_pure fun s (h : FoundDecision scope id record s) => h
  rintro _ s hcheck ⟨hs, hdecision⟩
  exact ⟨hs, hdecision, of_decide_eq_true (ensure_eq_ok.mp hcheck)⟩

/-- The ancestors of a stored record stay what they are, so its kind does. -/
theorem retriable_semanticKindFrom (turns : Nat) : ∀ (budget : Nat) (current : RecordLineage),
    Retriable Extends (Writes w newWords) except
      (fun s => Rooted s ∧ ∃ record, get s current.id = some record ∧
        record.supersedes = current.supersedes)
      (fun _ _ => True) (semanticKindFrom w scope turns budget current) := by
  induction turns with
  | zero => exact fun _ _ => retriable_pure fun _ _ => trivial
  | succ turns ih =>
      intro budget current
      rw [semanticKindFrom]
      split
      · exact retriable_pure fun _ _ => trivial
      split
      · exact retriable_pure fun _ _ => trivial
      case h_2 id hsupersedes =>
        split
        · exact retriable_pure fun _ _ => trivial
        have hread : Retriable Extends (Writes w newWords) except
            (fun s => Rooted s ∧ ∃ record, get s current.id = some record ∧
              record.supersedes = current.supersedes)
            (fun found s => ∃ parent, found = some parent ∧ Rooted s ∧
              ∃ record, get s parent.id = some record ∧ record.supersedes = parent.supersedes)
            (query fun s => .ok (lineage s id) : Action (Option RecordLineage)) := by
          refine retriable_query Extends.trans (Writes.self w newWords) ?_
          rintro s t found ⟨hrooted, record, hrecord, hsup⟩ ht ⟨⟩
          obtain ⟨row, hrow, rfl⟩ := get_eq_some (ht.get hrecord)
          obtain ⟨parent, hparent⟩ := ht.rooted hrooted _ row id hrow (hsup.trans hsupersedes)
          have hget : get t id = some { parent.record with id } := by
            rw [get, hparent]
            rfl
          refine ⟨⟨_, by rw [lineage, hget]; rfl, ht.rooted hrooted, _, hget, rfl⟩, ?_⟩
          intro u hu
          rw [lineage, lineage, hget, hu.get hget]
        refine retriable_bind hread fun found => ?_
        cases found with
        | none => exact retriable_pure fun _ _ => trivial
        | some parent =>
            refine (ih (budget - 1) parent).weaken ?_ fun _ _ h => h
            rintro s ⟨_, ⟨⟩, h⟩
            exact h

theorem retriable_semanticKind (budget : Nat) :
    Retriable Extends (Writes w newWords) except (Found scope id record)
      (fun _ => Found scope id record) (semanticKind w record budget) := by
  have hkind : Retriable Extends (Writes w newWords) except
      (fun s => Rooted s ∧ ∃ r, get s (lineageOf record).id = some r ∧
        r.supersedes = (lineageOf record).supersedes) (fun _ _ => True)
      (semanticKind w record budget) := retriable_semanticKindFrom _ _ _
  refine (hkind.frame Extends.refl Extends.trans (fun _ _ => Writes.extends)
    fun s t hs ht => Found.stable hs ht).weaken ?_ fun _ _ h => h.2
  intro s hs
  obtain ⟨row, hrow, rfl⟩ := get_eq_some hs.2.1
  exact ⟨⟨hs.1, _, hs.2.1, rfl⟩, hs⟩

end Retries

end Pikamux.Decisions
