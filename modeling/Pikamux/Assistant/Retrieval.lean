import Mathlib.Data.Prod.Lex
import Mathlib.Data.String.Basic
import Pikamux.Assistant.Fence
import Pikamux.Support.Order

/-!
# Assistant — Retrieval

What `retrieve`, `working_set`, `recent` and `active_by_kind` read of a memory database for a scope.

* `Confined` — the invariant of runs: what a record names is of a scope that permits the record's,
  and what it supersedes is of the same scope.
* `retrieval_local` — what is read for a scope depends on the records whose scopes permit it, and on
  no others.
* `retrieval_contained` — and it leads to no others.
-/

namespace Pikamux.Memory

open Support

/-! ### Reading -/

def maxRetrieval : Nat := 256

/-- `ORDER BY protected_policy DESC,CASE … END,timestamp DESC,id DESC`; without the first two if the
read is not of active records. -/
def readOrder (active : Bool) (record : Record) : Nat ×ₗ Nat ×ₗ Int ×ₗ Stringᵒᵈ :=
  toLex (if active && !record.protectedPolicy then 1 else 0,
    toLex (if !active || record.kind = .userInstruction || record.kind = .correction then 0
        else if record.kind = .decision then 1 else 2,
      toLex (-record.timestamp, OrderDual.toDual record.id)))

def inOrder (active : Bool) (records : List Record) : List Record :=
  records.insertionSort fun a b => readOrder active a ≤ readOrder active b

/-- The records that a scope may read of those wanted; of active ones none that is superseded. -/
def eligible (store : Store) (scope : Scope) (active : Bool) (wanted : Record → Bool) :
    List Record :=
  (store.records.rows.map fun r => { r.2.record with id := r.1 }).filter fun record =>
    record.scope.permits scope && wanted record && (!active ||
      record.decisionState ≠ some .superseded && !hasSuccessor store record.id)

/-- The loop of `select`: a record that does not fit any more is passed over. -/
def withinBytes : Nat → List Record → List Record
  | _, [] => []
  | bytes, record :: rest =>
      let total := bytes + record.body.utf8ByteSize + record.provenance.utf8ByteSize
      if total > maxRecordBytes then withinBytes bytes rest else record :: withinBytes total rest

def select (store : Store) (scope : Scope) (limit : Nat) (active : Bool) :
    Except MemoryError (List Record) := do
  scope.validate
  let rows := inOrder active
    (eligible store scope active fun record => !active || record.kind ≠ .draft)
  return withinBytes 0 (rows.take (min limit maxRetrieval))

def retrieve (store : Store) (scope : Scope) (limit : Nat) : Except MemoryError (List Record) :=
  select store scope limit false

def workingSet (store : Store) (scope : Scope) (limit : Nat) : Except MemoryError (List Record) :=
  select store scope limit true

def recent (store : Store) (scope : Scope) (limit : Nat) : Except MemoryError (List Record) :=
  retrieve store scope limit

structure RecordPage where
  records : List Record := []
  limited : Bool := false
  byteLimited : Bool := false

/-- The loop of `active_by_kind`. -/
def fillPage (cap : Nat) : Nat → RecordPage → List Record → RecordPage
  | _, page, [] => page
  | bytes, page, record :: rest =>
      let total := bytes + record.body.utf8ByteSize + record.provenance.utf8ByteSize
      if total > maxRecordBytes then
        fillPage cap bytes { page with limited := true, byteLimited := true } rest
      else if page.records.length = cap then fillPage cap bytes { page with limited := true } rest
      else fillPage cap total { page with records := page.records ++ [record] } rest

def activeByKind (store : Store) (scope : Scope) (kind : RecordKind) (since : Option Int)
    (limit : Nat) : Except MemoryError RecordPage := do
  scope.validate
  let cap := min limit maxRetrieval
  let rows := inOrder false (eligible store scope true fun record =>
    record.kind = kind && since.all (· ≤ record.timestamp))
  return fillPage cap 0 {} (rows.take (cap + 1))

/-! ### Scopes of what a record names -/

/-- What a record names is stored under a scope that permits the record's; what it supersedes has
the same scope. -/
structure Confined (store : Store) : Prop where
  lineage : Lineage store
  names : ∀ k row, store.records.get? k = some row → ∀ j ∈ row.record.names, ∃ parent,
    store.records.get? j = some parent ∧ parent.record.scope.permits row.record.scope = true ∧
      (row.record.supersedes = some j → parent.record.scope = row.record.scope)

section Invariant

variable {lib : Library} {s t mid : Store}

theorem Confined.stores (hs : Confined s) {id : String} {input : NewRecord}
    (h : Stores id input s mid) (hid : Printed id) : Confined mid := by
  have hkept : ∀ {k row}, s.records.get? k = some row → mid.records.get? k = some row := by
    intro k row hk
    rw [h.get, if_neg, hk]
    rintro rfl
    cases h.fresh.symm.trans hk
  refine ⟨?_, fun k row hk j hj => ?_⟩
  · obtain ⟨records, hinsert, rfl⟩ := h.insert
    exact hs.lineage.insert hinsert hid h.names
  · rw [h.get] at hk
    split at hk
    case isTrue =>
      cases hk
      obtain ⟨parent, hparent, hscope⟩ := validateDependencyScopes_eq_ok h.valid hj
      exact ⟨parent, hkept hparent, hscope⟩
    case isFalse =>
      obtain ⟨parent, hparent, hscope⟩ := hs.names k row hk j hj
      exact ⟨parent, hkept hparent, hscope⟩

theorem Confined.storesAll {items : List (NewRecord × String)} (hs : Confined s)
    (h : StoresAll items s mid) (hids : ∀ id ∈ items.map Prod.snd, Printed id) : Confined mid := by
  induction h with
  | nil => exact hs
  | cons h _ ih =>
      rw [List.map_cons, List.forall_mem_cons] at hids
      exact ih (hs.stores h hids.1) hids.2

theorem Confined.step (hs : Confined s) {c : Call} (hids : ∀ id ∈ c.newIds, Printed id)
    (h : Step lib c s t) : Confined t := by
  cases h with
  | same => exact hs
  | stored hid h => exact hs.stores h (hids _ (by simp [hid]))
  | requested hid _ _ h _ =>
      obtain ⟨hlineage, hnames⟩ := hs.stores h (hids _ (by simp [hid]))
      exact ⟨hlineage.withReceipts _ _, hnames⟩
  | turned hid _ _ _ h _ =>
      obtain ⟨hlineage, hnames⟩ := hs.storesAll h (hid ▸ hids)
      exact ⟨hlineage.withReceipts _ _, hnames⟩
  | removed h =>
      refine ⟨hs.lineage.removes h, fun k row hk j hj => ?_⟩
      obtain ⟨hk, hkept⟩ := (h.records k row).mp hk
      obtain ⟨parent, hparent, hscope⟩ := hs.names k row hk j hj
      refine ⟨parent, (h.records j parent).mpr ⟨hparent, fun hr => hkept ?_⟩, hscope⟩
      exact .link hk (linksByValue_iff.mpr hj) hr

/-- A database that calls with new printed identifiers lead to. -/
def Reached (lib : Library) (s : Store) : Prop :=
  ∃ entries : List Made, History (Call.perform lib) NoDrift {} entries s ∧
    ∀ e ∈ entries, ∀ id ∈ e.call.newIds, Printed id

theorem Reached.confined (h : Reached lib s) : Confined s := by
  obtain ⟨entries, hrun, hids⟩ := h
  refine hrun.invariant_entries (fun es u => (∀ e ∈ es, ∀ id ∈ e.call.newIds, Printed id) →
    Confined u) ?_ ?_ ?_ hids
  · exact fun _ => ⟨.empty, fun _ _ hk => by cases hk⟩
  · intro es u c _ ih hids
    rw [List.forall_mem_append, List.forall_mem_singleton] at hids
    exact (ih hids.1).step hids.2 (Call.step (ih hids.1).lineage c)
  · intro _ _ _ _ hd
    exact hd.elim

end Invariant

/-! ### What is read -/

section Reads

variable {lib : Library} {s t : Store} {scope : Scope} {active : Bool}
  {wanted : Record → Bool} {record record' : Record}

/-- The record is stored. -/
def Holds (s : Store) (record : Record) : Prop :=
  ∃ revision, s.records.get? record.id = some ⟨record.toNewRecord, revision⟩

/-- The records of the scopes that permit a scope are the same. -/
def Agree (scope : Scope) (s t : Store) : Prop :=
  ∀ record : Record, record.scope.permits scope = true → (Holds s record ↔ Holds t record)

theorem Agree.symm (h : Agree scope s t) : Agree scope t s :=
  fun record hrecord => (h record hrecord).symm

theorem mem_eligible : record ∈ eligible s scope active wanted ↔
    Holds s record ∧ record.scope.permits scope = true ∧ wanted record = true ∧ (active = true →
      record.decisionState ≠ some .superseded ∧ hasSuccessor s record.id = false) := by
  have hmem : record ∈ s.records.rows.map (fun r => { r.2.record with id := r.1 }) ↔
      Holds s record := by
    rw [List.mem_map]
    constructor
    · rintro ⟨⟨k, row⟩, hrow, rfl⟩
      exact ⟨row.revision, Table.mem_rows_iff.mp hrow⟩
    · rintro ⟨revision, hget⟩
      exact ⟨_, Table.mem_rows_iff.mpr hget, rfl⟩
  rw [eligible, List.mem_filter, hmem]
  cases active <;> simp [and_assoc]

/-- What supersedes a record is of its scope, so it is there in both. -/
theorem Agree.successor (h : Agree scope s t) (hs : Confined s) (hrecord : Holds s record)
    (hscope : record.scope.permits scope = true) (hnext : hasSuccessor s record.id = true) :
    hasSuccessor t record.id = true := by
  obtain ⟨k, row, hrow, hlink⟩ := Table.any_iff.mp hnext
  have hsup := of_decide_eq_true hlink
  obtain ⟨parent, hparent, -, hsame⟩ := hs.names k row hrow _ (mem_names.mpr (.inr hsup))
  obtain ⟨revision, hget⟩ := hrecord
  cases hget.symm.trans hparent
  obtain ⟨_, hnext⟩ := (h { row.record with id := k } (hsame hsup ▸ hscope)).mp ⟨_, hrow⟩
  exact Table.any_iff.mpr ⟨k, _, hnext, hlink⟩

theorem Agree.eligible (h : Agree scope s t) (ht : Confined t)
    (hrecord : record ∈ eligible s scope active wanted) :
    record ∈ eligible t scope active wanted := by
  obtain ⟨hholds, hscope, hwanted, hactive⟩ := mem_eligible.mp hrecord
  have hthere := (h record hscope).mp hholds
  refine mem_eligible.mpr ⟨hthere, hscope, hwanted, fun e => ?_⟩
  obtain ⟨hstate, hlast⟩ := hactive e
  exact ⟨hstate, Bool.eq_false_iff.mpr fun hnext =>
    Bool.eq_false_iff.mp hlast (h.symm.successor ht hthere hscope hnext)⟩

/-- Records of one place in the order are one record. -/
theorem Holds.eq (h : Holds s record) (h' : Holds s record')
    (horder : readOrder active record = readOrder active record') : record = record' := by
  have hid : record.id = record'.id := congrArg (fun o : Nat ×ₗ Nat ×ₗ Int ×ₗ Stringᵒᵈ =>
    OrderDual.ofDual (ofLex (ofLex (ofLex o).2).2).2) horder
  obtain ⟨revision, hget⟩ := h
  obtain ⟨revision', hget'⟩ := h'
  cases record
  cases record'
  obtain rfl : _ = _ := hid
  cases hget.symm.trans hget'
  rfl

/-- **Retrieval is local.**  Databases that hold the same records of the scopes that permit a scope
answer each read of it alike. -/
theorem retrieval_local (hs : Reached lib s) (ht : Reached lib t) (h : Agree scope s t)
    (limit : Nat) : retrieve s scope limit = retrieve t scope limit ∧
      workingSet s scope limit = workingSet t scope limit ∧
      recent s scope limit = recent t scope limit ∧
      ∀ kind since,
        activeByKind s scope kind since limit = activeByKind t scope kind since limit := by
  have hrows {active ordered : Bool} {wanted : Record → Bool} :
      inOrder ordered (eligible s scope active wanted) =
        inOrder ordered (eligible t scope active wanted) := by
    have hnodup (u : Store) : (eligible u scope active wanted).Nodup := by
      refine List.Nodup.filter _ (List.Nodup.of_map (·.id) ?_)
      rw [List.map_map]
      exact u.records.nodup
    have hperm := (List.perm_ext_iff_of_nodup (hnodup s) (hnodup t)).mpr fun record =>
      ⟨h.eligible ht.confined, h.symm.eligible hs.confined⟩
    exact insertionSort_eq_of_perm hperm fun a ha b hb =>
      (mem_eligible.mp ha).1.eq (mem_eligible.mp hb).1
  have hselect (active : Bool) : select s scope limit active = select t scope limit active := by
    rw [select, select, hrows]
  exact ⟨hselect false, hselect true, hselect false, fun _ _ => by
    rw [activeByKind, activeByKind, hrows]⟩

/-! ### What a record leads to -/

/-- All that a record leads to is of scopes that permit the scope. -/
def Contained (s : Store) (scope : Scope) (id : String) : Prop :=
  ∀ j, Relation.ReflTransGen
    (fun k j => ∃ row, s.records.get? k = some row ∧ j ∈ row.record.names) id j →
    ∃ row, s.records.get? j = some row ∧ row.record.scope.permits scope = true

theorem withinBytes_sublist (bytes : Nat) (records : List Record) :
    (withinBytes bytes records).Sublist records := by
  fun_induction withinBytes bytes records with
  | case1 => exact .slnil
  | case2 bytes record rest _ _ ih => exact ih.cons record
  | case3 bytes record rest _ _ ih => exact ih.cons_cons record

theorem mem_fillPage {cap bytes : Nat} {page : RecordPage} {records : List Record}
    (h : record ∈ (fillPage cap bytes page records).records) :
    record ∈ page.records ++ records := by
  fun_induction fillPage cap bytes page records with
  | case1 => exact List.mem_append_left _ h
  | case2 bytes page first rest _ _ ih => simpa using (List.mem_append.mp (ih h)).imp_right .inr
  | case3 bytes page first rest _ _ _ ih => simpa using (List.mem_append.mp (ih h)).imp_right .inr
  | case4 bytes page first rest _ _ _ ih => simpa using ih h

/-- **Retrieval is contained.**  What is read for a scope, and all that it leads to, is of scopes
that permit it. -/
theorem retrieval_contained (hs : Reached lib s) :
    (∀ limit active records, select s scope limit active = .ok records →
        ∀ record ∈ records, Contained s scope record.id) ∧
      ∀ kind since limit page, activeByKind s scope kind since limit = .ok page →
        ∀ record ∈ page.records, Contained s scope record.id := by
  have hcontained {active : Bool} {wanted : Record → Bool} {record : Record}
      (hmem : record ∈ eligible s scope active wanted) : Contained s scope record.id := by
    intro j hj
    obtain ⟨⟨revision, hget⟩, hscope, -⟩ := mem_eligible.mp hmem
    induction hj with
    | refl => exact ⟨_, hget, hscope⟩
    | tail _ hstep ih =>
        obtain ⟨row, hrow, hpermits⟩ := ih
        obtain ⟨row', hrow', hname⟩ := hstep
        cases hrow.symm.trans hrow'
        obtain ⟨parent, hparent, hparents, -⟩ := hs.confined.names _ row hrow _ hname
        exact ⟨parent, hparent, Scope.permits_trans hparents hpermits⟩
  constructor
  · intro limit active records h record hrecord
    obtain ⟨_, -, h⟩ := bind_eq_ok.mp h
    cases h
    have hmem := List.mem_of_mem_take ((withinBytes_sublist _ _).subset hrecord)
    exact hcontained ((List.mem_insertionSort _).mp hmem)
  · intro kind since limit page h record hrecord
    obtain ⟨_, -, h⟩ := bind_eq_ok.mp h
    cases h
    exact hcontained ((List.mem_insertionSort _).mp (List.mem_of_mem_take (mem_fillPage hrecord)))

end Reads

/-! ### Two databases -/

def garden : Scope := { project := some "garden" }

def noteTea : Call := .append firstId
  { kind := .finding, origin := .human, scope := { project := some "kitchen" }, body := "No tea." }

def noteBeans : Call := .append secondId
  { kind := .finding, origin := .human, scope := garden, body := "Water the beans." }

def ran (calls : List Call) : Store := (replay (Call.perform exampleLibrary) {} calls).2

theorem reached_ran : Reached exampleLibrary (ran [noteTea, noteBeans]) ∧
    Reached exampleLibrary (ran [noteBeans]) := by
  have hprinted : ∀ id ∈ [firstId, secondId], Uuid.canonical id = some id := by decide +kernel
  have hids : ∀ {entries : List Made} {ids}, entries.flatMap (·.call.newIds) = ids →
      ids ⊆ [firstId, secondId] → ∀ e ∈ entries, ∀ id ∈ e.call.newIds, Printed id := by
    rintro entries _ rfl hsub e he id hid
    exact hprinted id (hsub (List.mem_flatMap.mpr ⟨e, he, hid⟩))
  exact ⟨⟨_, History.replay _ _, hids rfl (List.Subset.refl _)⟩,
    ⟨_, History.replay _ _, hids rfl (List.subset_cons_self _ _)⟩⟩

theorem retrieval_local_garden :
    retrieve (ran [noteTea, noteBeans]) garden 5 = retrieve (ran [noteBeans]) garden 5 := by
  have heq : eligible (ran [noteTea, noteBeans]) garden false (fun _ => true) =
      eligible (ran [noteBeans]) garden false fun _ => true := by decide +kernel
  refine (retrieval_local reached_ran.1 reached_ran.2 (fun record hscope => ?_) 5).1
  have hmem := fun s => (@mem_eligible s garden false (fun _ => true) record).trans
    (and_iff_left ⟨hscope, rfl, nofun⟩)
  rw [← hmem, heq, hmem]

theorem retrieval_contained_garden : Contained (ran [noteTea, noteBeans]) garden secondId := by
  have hread : (select (ran [noteTea, noteBeans]) garden 5 false).map (·.map (·.id)) =
      .ok [secondId] := by decide +kernel
  obtain ⟨records, hselect, hids⟩ := map_eq_ok.mp hread
  obtain ⟨record, hrecord, hid⟩ := List.mem_map.mp (hids ▸ List.mem_singleton_self secondId)
  exact hid ▸ (retrieval_contained reached_ran.1).1 _ _ _ hselect record hrecord

end Pikamux.Memory
