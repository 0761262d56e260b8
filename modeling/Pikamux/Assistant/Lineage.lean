import Pikamux.Assistant.Memory

/-!
# Assistant — Lineage

The records of a memory database refer to earlier records that are still there: the lineage is
closed, and it has no cycles.  Appending keeps it so.  On such a database forgetting is total and
removes exactly what was derived from the root.

* `Lineage` — the invariant, kept by `Lineage.insert` and `Lineage.removes`.
* `linksByText_iff` — the text match of `forget` finds what a record names.
* `presentationPreferenceRoot_eq_ok` — the chain of a presentation preference ends.
* `forget_eq_ok`, `forgetWorkerScope_eq_ok` — what the two operations remove.
-/

namespace Pikamux.Memory

open Support

/-! ### What a record names -/

/-- The records that a record depends on, and the one it supersedes. -/
def NewRecord.names (input : NewRecord) : List String :=
  input.dependencies ++ input.supersedes.toList

theorem mem_names {input : NewRecord} {id : String} :
    id ∈ input.names ↔ id ∈ input.dependencies ∨ input.supersedes = some id := by
  simp [NewRecord.names]

theorem linksByValue_iff {row : Row} {target : String} :
    linksByValue row target = true ↔ target ∈ row.record.names := by
  rw [linksByValue, mem_names, Bool.or_eq_true, List.contains_iff_mem, decide_eq_true_iff]
  exact or_comm

/-- The identifier is a UUID as it is printed. -/
def Printed (id : String) : Prop := Uuid.canonical id = some id

/-- A printed identifier is matched as it is. -/
theorem Printed.plain {id : String} (h : Printed id) : ∀ c ∈ id.toList,
    c ≠ '%' ∧ c ≠ '_' ∧ c ≠ '"' ∧ c ≠ ',' ∧ c ≠ '[' ∧ c ≠ ']' ∧ c.toLower = c ∧
      Json.escape c = [c] := by
  have hall : Uuid.canonicalChars.all (fun c => c != '%' && c != '_' && c != '"' && c != ',' &&
      c != '[' && c != ']' && c.toLower == c && Json.escape c == [c]) = true := by decide +kernel
  intro c hc
  have hx := List.all_eq_true.mp hall c (Uuid.canonical_chars h c hc)
  simpa [and_assoc] using hx

theorem Printed.toLower {id : String} (h : Printed id) :
    id.toList.map Char.toLower = id.toList := by
  refine (List.map_congr_left fun c hc => ?_).trans (List.map_id _)
  exact (h.plain c hc).2.2.2.2.2.2.1

theorem Printed.quoted {id : String} (h : Printed id) :
    Json.quoted id = '"' :: id.toList ++ ['"'] := by
  have hescape : id.toList.flatMap Json.escape = id.toList.flatMap fun c => [c] :=
    List.flatMap_congr fun c hc => (h.plain c hc).2.2.2.2.2.2.2
  rw [Json.quoted, hescape, List.flatMap_singleton']

/-- A printed identifier is part of another only if it is that one. -/
theorem Printed.eq_of_part {id other : String} (h : Printed id) (hother : Printed other)
    (hin : id.toList <:+: other.toList) : id = other := by
  have hlen : id.toList.length = other.toList.length := by
    rw [Uuid.canonical_length h, Uuid.canonical_length hother]
  exact String.toList_injective (hin.eq_of_length hlen)

/-- Where a printed identifier stands in a list of printed identifiers. -/
theorem Printed.mem_of_part {id : String} (h : Printed id) {ids : List String}
    (hids : ∀ other ∈ ids, Printed other)
    (hin : id.toList <:+: Json.commaSep (ids.map Json.quoted)) : id ∈ ids := by
  have hquote : '"' ∉ id.toList := fun hm => (h.plain _ hm).2.2.1 rfl
  have hcomma : ',' ∉ id.toList := fun hm => (h.plain _ hm).2.2.2.1 rfl
  have hnil : ¬ id.toList <:+: [] := by
    intro hin
    have hlen := Uuid.canonical_length h
    rw [List.infix_nil.mp hin] at hlen
    cases hlen
  induction ids with
  | nil => exact absurd hin hnil
  | cons other ids ih =>
      have ih := ih fun id hid => hids id (List.mem_cons_of_mem _ hid)
      have hother := hids other List.mem_cons_self
      have hfirst : id.toList <:+: Json.quoted other → id = other := by
        intro hin
        rw [hother.quoted] at hin
        rcases part_append_cons hquote hin with hin | hin
        · rcases part_append_cons (x := []) hquote hin with hin | hin
          · exact absurd hin hnil
          · exact h.eq_of_part hother hin
        · exact absurd hin hnil
      rw [List.map_cons, Json.commaSep_cons] at hin
      split at hin
      case isTrue =>
        rw [List.append_nil] at hin
        rw [hfirst hin]
        exact List.mem_cons_self
      case isFalse =>
        rcases part_append_cons hcomma hin with hin | hin
        · rw [hfirst hin]
          exact List.mem_cons_self
        · exact List.mem_cons_of_mem _ (ih hin)

theorem Printed.part_of_mem {id : String} (h : Printed id) {ids : List String} (hid : id ∈ ids) :
    id.toList <:+: Json.commaSep (ids.map Json.quoted) := by
  induction ids with
  | nil => cases hid
  | cons other ids ih =>
      rw [List.map_cons, Json.commaSep_cons]
      rcases List.mem_cons.mp hid with rfl | hid
      · rw [h.quoted]
        refine (List.infix_append ['"'] id.toList ['"']).trans ?_
        exact (List.prefix_append _ _).isInfix
      · rw [if_neg (by simp [List.ne_nil_of_mem hid])]
        exact ((ih hid).trans (List.suffix_cons _ _).isInfix).trans
          (List.suffix_append _ _).isInfix

theorem toLower_commaSep {ids : List String} (hids : ∀ id ∈ ids, Printed id) :
    (Json.commaSep (ids.map Json.quoted)).map Char.toLower =
      Json.commaSep (ids.map Json.quoted) := by
  have hquote : Char.toLower '"' = '"' := by decide
  have hcomma : Char.toLower ',' = ',' := by decide
  induction ids with
  | nil => rfl
  | cons id ids ih =>
      have hid := hids id List.mem_cons_self
      have ih := ih fun id hid => hids id (List.mem_cons_of_mem _ hid)
      rw [List.map_cons, Json.commaSep_cons, hid.quoted]
      split
      case isTrue => simp [hid.toLower, hquote]
      case isFalse => simp [hid.toLower, hquote, hcomma, ih]

/-- Among printed identifiers the text match finds what the record names. -/
theorem linksByText_iff {row : Row} {target : String} (h : Printed target)
    (hdeps : ∀ id ∈ row.record.dependencies, Printed id) :
    linksByText row target = true ↔ target ∈ row.record.names := by
  have hplain : ∀ c ∈ target.toList, c ≠ '%' ∧ c ≠ '_' :=
    fun c hc => ⟨(h.plain c hc).1, (h.plain c hc).2.1⟩
  have hlower : (dependenciesText row.record.dependencies).map Char.toLower =
      dependenciesText row.record.dependencies := by
    have hopen : Char.toLower '[' = '[' := by decide
    have hclose : Char.toLower ']' = ']' := by decide
    simp [dependenciesText, toLower_commaSep hdeps, hopen, hclose]
  have hlike : like ('%' :: target.toList ++ ['%']) (dependenciesText row.record.dependencies) =
      true ↔ target ∈ row.record.dependencies := by
    rw [like_part hplain, h.toLower, hlower, dependenciesText]
    have hopen : '[' ∉ target.toList := fun hm => (h.plain _ hm).2.2.2.2.1 rfl
    have hclose : ']' ∉ target.toList := fun hm => (h.plain _ hm).2.2.2.2.2.1 rfl
    constructor
    · intro hin
      -- neither bracket belongs to the identifier
      refine h.mem_of_part hdeps ?_
      rw [List.cons_append] at hin
      rcases part_append_cons (x := []) hopen hin with hin | hin
      · exact hin.trans (List.nil_infix)
      · rcases part_append_cons hclose hin with hin | hin
        · exact hin
        · exact hin.trans (List.nil_infix)
    · intro hin
      refine (h.part_of_mem hin).trans ?_
      exact List.infix_append ['['] _ [']']
  rw [linksByText, Bool.or_eq_true, hlike, mem_names, decide_eq_true_iff]
  exact or_comm

/-! ### The invariant -/

/-- What a record names was stored before it and is stored still. -/
structure Lineage (store : Store) : Prop where
  closed : ∀ k row, store.records.get? k = some row → ∀ j ∈ row.record.names,
    ∃ parent, store.records.get? j = some parent ∧ parent.revision < row.revision
  numbered : ∀ k row, store.records.get? k = some row → row.revision ≤ store.sequence
  printed : ∀ k row, store.records.get? k = some row → Printed k

theorem Lineage.empty : Lineage {} where
  closed _ _ h := by cases h
  numbered _ _ h := by cases h
  printed _ _ h := by cases h

/-- A record is stored whose names are. -/
theorem Lineage.insert {store : Store} (h : Lineage store) {id : String} {input : NewRecord}
    {records : Table String Row}
    (hinsert : store.records.insert? id ⟨input, store.sequence + 1⟩ = some records)
    (hid : Printed id) (hnames : ∀ j ∈ input.names, store.records.contains j = true) :
    Lineage { store with records, sequence := store.sequence + 1 } := by
  have hget := Table.get?_insert? hinsert
  have hnew := (Table.insert?_eq_some.mp hinsert).1
  have hkept : ∀ j parent, store.records.get? j = some parent → records.get? j = some parent := by
    intro j parent hj
    rw [hget, if_neg, hj]
    rintro rfl
    rw [hnew] at hj
    cases hj
  refine ⟨?_, ?_, ?_⟩
  · intro k row hk j hj
    rw [hget] at hk
    split at hk
    case isTrue =>
      cases hk
      obtain ⟨parent, hparent⟩ := Option.isSome_iff_exists.mp (hnames j hj)
      exact ⟨parent, hkept j parent hparent, Nat.lt_succ_of_le (h.numbered j parent hparent)⟩
    case isFalse =>
      obtain ⟨parent, hparent, hlt⟩ := h.closed k row hk j hj
      exact ⟨parent, hkept j parent hparent, hlt⟩
  · intro k row hk
    rw [hget] at hk
    split at hk
    case isTrue =>
      cases hk
      exact Nat.le_refl _
    case isFalse => exact Nat.le_succ_of_le (h.numbered k row hk)
  · intro k row hk
    rw [hget] at hk
    split at hk
    case isTrue e => exact e ▸ hid
    case isFalse => exact h.printed k row hk

theorem Lineage.withReceipts {store : Store} (h : Lineage store) (receipts : Table String Receipt)
    (turnReceipts : Table String TurnReceipt) : Lineage { store with receipts, turnReceipts } :=
  ⟨h.closed, h.numbered, h.printed⟩

theorem Lineage.printed_names {store : Store} (h : Lineage store) {k : String} {row : Row}
    (hk : store.records.get? k = some row) : ∀ j ∈ row.record.names, Printed j := by
  intro j hj
  obtain ⟨parent, hparent, -⟩ := h.closed k row hk j hj
  exact h.printed j parent hparent

/-! ### What a sweep removes -/

/-- Removing from `store` what leads to one of the roots, `n` records, gives `store'`. -/
structure Removes (store : Store) (roots : List String) (n : Nat) (store' : Store) : Prop where
  records : ∀ k row, store'.records.get? k = some row ↔ store.records.get? k = some row ∧
    ¬ store.records.Reaches linksByValue roots k
  count : n + store'.records.rows.length = store.records.rows.length
  rest : store' = { store with records := store'.records, forgetEpoch := store.forgetEpoch + 1 }

theorem Lineage.removes {store store' : Store} {roots : List String} {n : Nat} (h : Lineage store)
    (hremoves : Removes store roots n store') : Lineage store' := by
  have hsequence : store'.sequence = store.sequence := by rw [hremoves.rest]
  refine ⟨?_, ?_, ?_⟩
  · intro k row hk j hj
    obtain ⟨hk, hreaches⟩ := (hremoves.records k row).mp hk
    obtain ⟨parent, hparent, hlt⟩ := h.closed k row hk j hj
    refine ⟨parent, (hremoves.records j parent).mpr ⟨hparent, fun hr => hreaches ?_⟩, hlt⟩
    exact .link hk (linksByValue_iff.mpr hj) hr
  · intro k row hk
    rw [hsequence]
    exact h.numbered k row ((hremoves.records k row).mp hk).1
  · intro k row hk
    exact h.printed k row ((hremoves.records k row).mp hk).1

/-- Sweeping by the names of records. -/
theorem Lineage.sweep {store : Store} (h : Lineage store) (roots : List String) :
    ∃ n store', sweepRecords linksByValue roots (store.forgetEpoch + 1) store = .ok (n, store') ∧
      Removes store roots n store' := by
  have hself : ∀ k row, store.records.get? k = some row → linksByValue row k = false := by
    intro k row hk
    refine Bool.eq_false_iff.mpr fun hl => ?_
    obtain ⟨parent, hparent, hlt⟩ := h.closed k row hk k (linksByValue_iff.mp hl)
    rw [hk] at hparent
    cases hparent
    exact Nat.lt_irrefl _ hlt
  have hclosed : ∀ k row j, store.records.get? k = some row → linksByValue row j = true →
      store.records.get? j ≠ none := by
    intro k row j hk hl
    obtain ⟨parent, hparent, -⟩ := h.closed k row hk j (linksByValue_iff.mp hl)
    simp [hparent]
  obtain ⟨n, records, hsweep, hcount, hrecords⟩ := Table.sweep_eq_some hself hclosed roots
  refine ⟨n, { store with records, forgetEpoch := store.forgetEpoch + 1 }, ?_, ?_⟩
  · rw [sweepRecords, hsweep]
    rfl
  · exact ⟨hrecords, hcount, rfl⟩

/-- Sweeping by the text match does the same. -/
theorem Lineage.sweep_text {store : Store} (h : Lineage store) {roots : List String}
    (hroots : ∀ root ∈ roots, Printed root) (epoch : Nat) :
    sweepRecords linksByText roots epoch store = sweepRecords linksByValue roots epoch store := by
  have hlinks : ∀ k row, store.records.get? k = some row →
      Printed k ∧ ∀ j, Printed j → linksByText row j = linksByValue row j := by
    intro k row hk
    refine ⟨h.printed k row hk, fun j hj => Bool.eq_iff_iff.mpr ?_⟩
    rw [linksByValue_iff, linksByText_iff hj]
    intro id hid
    exact h.printed_names hk id (mem_names.mpr (.inl hid))
  rw [sweepRecords, sweepRecords, Table.sweep_congr _ hroots hlinks]

/-! ### The root of a preference -/

section Preference

variable {lib : Library} {store : Store}

/-- The root of the presentation-preference chain of a record: where its predecessors end. -/
def IsPreferenceRoot (lib : Library) (store : Store) (id root : String) : Prop :=
  Relation.ReflTransGen (fun j k => preferenceParent lib store j = some k) id root ∧
    preferenceParent lib store root = none

/-- A parent in the chain is a record that this one names. -/
theorem preferenceParent_eq_some {id parent : String}
    (h : preferenceParent lib store id = some parent) :
    ∃ row, store.records.get? id = some row ∧ parent ∈ row.record.names ∧
      store.records.contains parent = true := by
  simp only [preferenceParent, Option.bind_eq_bind, Option.bind_eq_some_iff] at h
  obtain ⟨row, hrow, parentId, hsup, parentRow, hparent, h⟩ := h
  split at h
  case isTrue =>
    cases h
    refine ⟨row, hrow, mem_names.mpr (.inr hsup), ?_⟩
    simp [Table.contains, hparent]
  case isFalse => cases h

/-- The revision of a stored record. -/
def revisionOf (store : Store) (id : String) : Nat :=
  ((store.records.get? id).map Row.revision).getD 0

theorem preferenceParent_revision (h : Lineage store) {id parent : String}
    (hparent : preferenceParent lib store id = some parent) :
    revisionOf store parent < revisionOf store id := by
  obtain ⟨row, hrow, hname, -⟩ := preferenceParent_eq_some hparent
  obtain ⟨parentRow, hget, hlt⟩ := h.closed id row hrow parent hname
  simpa [revisionOf, hrow, hget] using hlt

/-- The loop, with what it visited above its current record. -/
theorem preferenceRootFrom_eq_ok (h : Lineage store) (fuel : Nat) :
    ∀ (visited : List String) (current : String), visited.Nodup →
      (∀ k ∈ visited, k ∈ store.records.rows.map Prod.fst) →
      (∀ k ∈ visited, revisionOf store current < revisionOf store k) →
      store.records.rows.length < fuel + visited.length →
      ∃ root, preferenceRootFrom lib store fuel visited current = .ok root ∧
        IsPreferenceRoot lib store current root := by
  induction fuel with
  | zero =>
      intro visited current hnodup hstored _ hfuel
      have hle := (List.subperm_of_subset hnodup hstored).length_le
      rw [List.length_map] at hle
      omega
  | succ fuel ih =>
      intro visited current hnodup hstored hlater hfuel
      have hfresh : current ∉ visited := fun hm => Nat.lt_irrefl _ (hlater current hm)
      rw [preferenceRootFrom, if_neg (by simpa using hfresh)]
      cases hparent : preferenceParent lib store current with
      | none => exact ⟨current, rfl, .refl, hparent⟩
      | some parent =>
          have hlt := preferenceParent_revision h hparent
          obtain ⟨row, hrow, -⟩ := preferenceParent_eq_some hparent
          obtain ⟨root, hrun, hchain, hroot⟩ := ih (current :: visited) parent
            (List.nodup_cons.mpr ⟨hfresh, hnodup⟩)
            (by
              intro k hk
              rcases List.mem_cons.mp hk with rfl | hk
              · exact List.mem_map_of_mem (Table.mem_rows_iff.mpr hrow)
              · exact hstored k hk)
            (by
              intro k hk
              rcases List.mem_cons.mp hk with rfl | hk
              · exact hlt
              · exact hlt.trans (hlater k hk))
            (by
              rw [List.length_cons]
              omega)
          exact ⟨root, hrun, .head hparent hchain, hroot⟩

theorem presentationPreferenceRoot_eq_ok (lib : Library) (h : Lineage store) (id : String) :
    ∃ root, presentationPreferenceRoot lib store id = .ok root ∧
      IsPreferenceRoot lib store id root :=
  preferenceRootFrom_eq_ok h _ [] id .nil (by simp) (by simp) (by simp)

/-- The root of a stored record is stored. -/
theorem IsPreferenceRoot.contains {id root : String} (h : IsPreferenceRoot lib store id root)
    (hid : store.records.contains id = true) : store.records.contains root = true := by
  obtain ⟨hchain, -⟩ := h
  induction hchain with
  | refl => exact hid
  | tail _ hstep _ =>
      obtain ⟨-, -, -, hparent⟩ := preferenceParent_eq_some hstep
      exact hparent

/-! ### What the two operations remove -/

theorem Lineage.printed_of_contains (h : Lineage store) {id : String}
    (hid : store.records.contains id = true) : Printed id := by
  obtain ⟨row, hrow⟩ := Option.isSome_iff_exists.mp hid
  exact h.printed id row hrow

/-- **Forgetting a record.**  It ends and removes what leads to the root of the record. -/
theorem forget_eq_ok (lib : Library) (h : Lineage store) {id : String} (hepoch : store.forgetEpoch < maxNat)
    (hid : store.records.contains id = true) :
    ∃ root n store', IsPreferenceRoot lib store id root ∧
      forget lib id store = .ok (n, store') ∧ Removes store [root] n store' := by
  obtain ⟨root, hrun, hroot⟩ := presentationPreferenceRoot_eq_ok lib h id
  have hprinted : ∀ k ∈ [root], Printed k := by
    intro k hk
    rw [List.mem_singleton.mp hk]
    exact h.printed_of_contains (hroot.contains hid)
  obtain ⟨n, store', hsweep, hremoves⟩ := h.sweep [root]
  refine ⟨root, n, store', hroot, ?_, hremoves⟩
  rw [forget, nextForgetEpoch, checkedSucc_of_lt hepoch, hid, hrun]
  exact (h.sweep_text hprinted _).trans hsweep

/-- It fails on a record that is not stored, and when the epochs are exhausted. -/
theorem forget_eq_error (lib : Library) {id : String}
    (hid : ¬ (store.forgetEpoch < maxNat ∧ store.records.contains id = true)) :
    ∃ e, forget lib id store = .error e := by
  by_cases hepoch : store.forgetEpoch < maxNat
  · refine ⟨.notFound id, ?_⟩
    rw [forget, nextForgetEpoch, checkedSucc_of_lt hepoch,
      Bool.eq_false_iff.mpr fun h => hid ⟨hepoch, h⟩]
    rfl
  · refine ⟨.invalid "exhausted forget generation", ?_⟩
    rw [forget, nextForgetEpoch, checkedSucc, if_neg (by omega)]
    rfl

end Preference

end Pikamux.Memory
