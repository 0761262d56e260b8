import Pikamux.Assistant.DecisionText
import Pikamux.Assistant.Requests

/-!
# Assistant — Succession

Runs of the requests of `assistant_decisions.rs` by any number of clients, each of which may stop
after any step.

* `Truthful` — what is true of the records after any run: each has at most one successor, a
  successor is of the same kind and scope, and each record names the record and the author whose
  words it carries.
* `Truthful.adds` — one more record.
* `clients_truthful` — the law of a run.
-/

namespace Pikamux.Decisions

open Support Support.Program Memory

/-- Clients at work on the database. -/
abbrev Clients := Pool String Store Result Call

abbrev ClientMove := Move String Call

/-- A move of the clients that was made. -/
abbrev Moved := Entry Clients ClientMove (Option (Answer Result Call))

def clients (w : Wording) (lib : Library) (m : ClientMove) (pool : Clients) :
    Option (Answer Result Call) × Clients :=
  pool.move (Call.code w lib) m

/-- The move stored the record, for a request with words of its own. -/
def NewWords (w : Wording) (lib : Library) (e : Moved) (id : String) : Prop :=
  (∃ place input, e.call = .advance place input ∧ ∃ task, e.before.tasks[place]? = some task ∧
    task.call.newWords = true) ∧
  e.before.shared.records.get? id = none ∧
  (clients w lib e.call e.before).2.shared.records.contains id = true

/-- The words of the record were newly written. -/
def NewlyWorded (w : Wording) (lib : Library) (start : Store) (entries : List Moved) (id : String) :
    Prop :=
  start.records.contains id = true ∨ ∃ e ∈ entries, NewWords w lib e id

/-- The latest record with new words in the chain up to a record. -/
inductive Latest (fresh : String → Prop) (s : Store) : String → String → Prop where
  | here {id : String} (h : fresh id) : Latest fresh s id id
  | earlier {id p latest : String} {record : Record} (h : ¬ fresh id)
      (hrecord : get s id = some record) (hp : record.supersedes = some p)
      (hlatest : Latest fresh s p latest) : Latest fresh s id latest

/-- A record may succeed another. -/
structure Succeeds (child parent : Record) : Prop where
  kind : child.kind = parent.kind ∨ parent.kind = .userInstruction ∧ child.kind = .correction
  scope : child.scope = parent.scope
  unprotected : parent.protectedPolicy = false ∧ child.protectedPolicy = false
  state : parent.kind = .decision → parent.decisionState ≠ some .superseded

/-- Records are linear chains that say truthfully whose words they carry. -/
structure Truthful (w : Wording) (fresh : String → Prop) (s : Store) : Prop where
  linear : ∀ a b child child' p, get s a = some child → get s b = some child' →
    child.supersedes = some p → child'.supersedes = some p → a = b
  succeeds : ∀ id child p, get s id = some child → child.supersedes = some p →
    ∃ parent, get s p = some parent ∧ Succeeds child parent
  worded : ∀ id record, get s id = some record → ∃ source latest, Latest fresh s id source ∧
    get s source = some latest ∧ recordedAuthor w record = latest.origin ∧
      recordedSource w record = source

section Steps

variable {w : Wording} {fresh fresh' : String → Prop} {newWords : Bool} {s t : Store}
  {id : String} {input : NewRecord}

theorem Latest.mono {k l : String} (h : Latest fresh s k l) (hst : Extends s t)
    (hfresh : ∀ k, s.records.contains k = true → (fresh' k ↔ fresh k))
    (hstored : ∀ k, fresh k → s.records.contains k = true) : Latest fresh' t k l := by
  induction h with
  | here h => exact .here ((hfresh _ (hstored _ h)).mpr h)
  | earlier h hrecord hp _ ih =>
      refine .earlier (fun h' => h ((hfresh _ ?_).mp h')) (hst.get hrecord) hp ih
      obtain ⟨row, hrow, -⟩ := get_eq_some hrecord
      simp [Table.contains, hrow]

theorem Adds.get (h : Adds w newWords id input s t) (k : String) :
    get t k = if k = id then some { input with id } else get s k := by
  rw [Decisions.get, h.rows]
  split
  case isTrue e => rw [e]; rfl
  case isFalse => rfl

theorem Adds.contains (h : Adds w newWords id input s t) (k : String) :
    t.records.contains k = true ↔ k = id ∨ s.records.contains k = true := by
  simp only [Table.contains, h.rows]
  by_cases hk : k = id
  · simp [hk]
  · simp [hk]

theorem Adds.fresh_ne (h : Adds w newWords id input s t) {k : String}
    (hk : s.records.contains k = true) : k ≠ id := by
  rintro rfl
  simp [Table.contains, h.fresh] at hk

/-- Nothing superseded what the new record supersedes. -/
theorem Adds.first_successor (h : Adds w newWords id input s t) {k p : String} {record : Record}
    (hk : Decisions.get s k = some record) (hp : record.supersedes = some p) :
    input.supersedes ≠ some p := by
  intro hinput
  obtain ⟨row, hrow, rfl⟩ := get_eq_some hk
  have hnone := h.latest p hinput
  rw [hasSuccessor, Bool.eq_false_iff] at hnone
  exact hnone (Table.any_iff.mpr ⟨k, row, hrow, by simpa using hp⟩)

/-- **One more record.** -/
theorem Truthful.adds (h : Truthful w fresh s) (ha : Adds w newWords id input s t)
    (hstored : ∀ k, fresh k → s.records.contains k = true)
    (hfresh : ∀ k, fresh' k ↔ fresh k ∨ k = id ∧ newWords = true) : Truthful w fresh' t where
  linear a b child child' p hchild hchild' hp hp' := by
    rw [ha.get] at hchild hchild'
    split at hchild <;> split at hchild'
    case isTrue.isTrue e e' => exact e.trans e'.symm
    case isTrue.isFalse =>
      cases hchild
      exact absurd hp (ha.first_successor hchild' hp')
    case isFalse.isTrue =>
      cases hchild'
      exact absurd hp' (ha.first_successor hchild hp)
    case isFalse.isFalse => exact h.linear a b child child' p hchild hchild' hp hp'
  succeeds k child p hchild hp := by
    rw [ha.get] at hchild
    split at hchild
    case isTrue =>
      cases hchild
      rcases ha.follows with ⟨hnone, -⟩ | ⟨parent, hparent, hsupersedes, hrevises⟩
      · cases hnone.symm.trans hp
      · cases hsupersedes.symm.trans hp
        exact ⟨parent, ha.extends.get hparent, hrevises.kind, hrevises.scope, hrevises.unprotected,
          hrevises.state⟩
    case isFalse =>
      obtain ⟨parent, hparent, hsucceeds⟩ := h.succeeds k child p hchild hp
      exact ⟨parent, ha.extends.get hparent, hsucceeds⟩
  worded k record hrecord := by
    have hsame : ∀ k, s.records.contains k = true → (fresh' k ↔ fresh k) := by
      intro k hk
      rw [hfresh, or_iff_left fun hnew => ha.fresh_ne hk hnew.1]
    rw [ha.get] at hrecord
    split at hrecord
    case isTrue e =>
      subst e
      cases hrecord
      have hself : Decisions.get t k = some { input with id := k } := by rw [ha.get, if_pos rfl]
      cases newWords with
      | true =>
          refine ⟨k, _, .here ((hfresh k).mpr (.inr ⟨rfl, rfl⟩)), hself, ?_⟩
          rcases ha.follows with ⟨hnone, -⟩ | ⟨parent, hparent, hsupersedes, hrevises⟩
          · exact recorded_first hnone
          · rw [show ({ input with id := k } : Record).origin = .human from hrevises.origin]
            exact hrevises.recorded hsupersedes k
      | false =>
          rcases ha.follows with ⟨-, hnew⟩ | ⟨parent, hparent, hsupersedes, hrevises⟩
          · cases hnew
          obtain ⟨source, latest, hlatest, hsource, hauthor, hrecorded⟩ :=
            h.worded parent.id parent hparent
          obtain ⟨hauthor', hrecorded'⟩ := hrevises.recorded hsupersedes k
          refine ⟨source, latest, .earlier ?_ hself hsupersedes (hlatest.mono ha.extends hsame hstored),
            ha.extends.get hsource, hauthor'.trans hauthor, hrecorded'.trans hrecorded⟩
          rw [hfresh]
          rintro (hk | ⟨-, hnew⟩)
          · exact ha.fresh_ne (hstored k hk) rfl
          · cases hnew
    case isFalse =>
      obtain ⟨source, latest, hlatest, hsource, hrecorded⟩ := h.worded k record hrecord
      exact ⟨source, latest, hlatest.mono ha.extends hsame hstored, ha.extends.get hsource,
        hrecorded⟩

end Steps

/-! ### Runs -/

section Runs

variable {w : Wording} {lib : Library} {start : Store} {entries : List Moved} {e : Moved}
  {pool : Clients}

theorem newlyWorded_append {id : String} :
    NewlyWorded w lib start (entries ++ [e]) id ↔
      NewlyWorded w lib start entries id ∨ NewWords w lib e id := by
  simp only [NewlyWorded, List.mem_append, List.mem_singleton, or_and_right, exists_or,
    exists_eq_left, or_assoc]

/-- Records without successors are truthful. -/
theorem Truthful.initial (hstart : ∀ k row, start.records.get? k = some row →
    row.record.supersedes = none) : Truthful w (NewlyWorded w lib start []) start where
  linear a b child child' p hchild _ hp := by
    obtain ⟨row, hrow, rfl⟩ := get_eq_some hchild
    cases (hstart a row hrow).symm.trans hp
  succeeds id child p hchild hp := by
    obtain ⟨row, hrow, rfl⟩ := get_eq_some hchild
    cases (hstart id row hrow).symm.trans hp
  worded id record hrecord := by
    have hget := hrecord
    obtain ⟨row, hrow, rfl⟩ := get_eq_some hrecord
    have hstored : start.records.contains id = true := by simp [Table.contains, hrow]
    exact ⟨id, _, .here (.inl hstored), hget, recorded_first (hstart id row hrow)⟩

/-- The invariant of a run. -/
structure Ran (w : Wording) (lib : Library) (start : Store) (entries : List Moved)
    (pool : Clients) : Prop where
  satisfied : Pool.Satisfied Extends (fun c => Writes w c.newWords) (Call.Replied w lib)
    (fun reached s => Rooted s ∧ ∀ p ∈ reached, p.1.Answered w lib p.2 s) pool
  truthful : Truthful w (NewlyWorded w lib start entries) pool.shared
  stored : ∀ id, NewlyWorded w lib start entries id → pool.shared.records.contains id = true

/-- A move that stores nothing. -/
theorem Ran.same (h : Ran w lib start entries pool) {m : ClientMove}
    (hsatisfied : Pool.Satisfied Extends (fun c => Writes w c.newWords) (Call.Replied w lib)
      (fun reached s => Rooted s ∧ ∀ p ∈ reached, p.1.Answered w lib p.2 s)
      (clients w lib m pool).2)
    (hsame : (clients w lib m pool).2.shared = pool.shared) :
    Ran w lib start (entries ++ [⟨pool, m, (clients w lib m pool).1⟩]) (clients w lib m pool).2 := by
  have hfresh : NewlyWorded w lib start (entries ++ [⟨pool, m, (clients w lib m pool).1⟩]) =
      NewlyWorded w lib start entries := by
    funext id
    rw [newlyWorded_append, eq_iff_iff, or_iff_left]
    rintro ⟨-, hnone, hstored⟩
    rw [hsame] at hstored
    simp [Table.contains, hnone] at hstored
  exact ⟨hsatisfied, by rw [hfresh, hsame]; exact h.truthful, by rw [hfresh, hsame]; exact h.stored⟩

theorem Ran.move (hw : w.Faithful) (h : Ran w lib start entries pool) (m : ClientMove) :
    Ran w lib start (entries ++ [⟨pool, m, (clients w lib m pool).1⟩]) (clients w lib m pool).2 := by
  obtain ⟨hsatisfied, hshared, -⟩ := h.satisfied.move (Call.specified hw) m
  rcases hshared with hsame | ⟨place, input, rfl, task, htask, hwrites⟩
  · exact h.same hsatisfied hsame
  rcases hwrites with hsame | ⟨id, record, hadds⟩
  · exact h.same hsatisfied hsame.symm
  have hnew : ∀ k, NewWords w lib ⟨pool, .advance place input,
      (clients w lib (.advance place input) pool).1⟩ k ↔
        k = id ∧ task.call.newWords = true := by
    intro k
    constructor
    · rintro ⟨⟨place', input', ⟨⟩, task', htask', hwords⟩, hnone, hk⟩
      cases htask.symm.trans htask'
      rcases (hadds.contains k).mp hk with hk | hk
      · exact ⟨hk, hwords⟩
      · simp [Table.contains, hnone] at hk
    · rintro ⟨rfl, hwords⟩
      exact ⟨⟨place, input, rfl, task, htask, hwords⟩, hadds.fresh,
        (hadds.contains k).mpr (.inl rfl)⟩
  have hfresh : ∀ k, NewlyWorded w lib start (entries ++ [⟨pool, .advance place input,
      (clients w lib (.advance place input) pool).1⟩]) k ↔
        NewlyWorded w lib start entries k ∨ k = id ∧ task.call.newWords = true := by
    intro k
    rw [newlyWorded_append, hnew]
  refine ⟨hsatisfied, h.truthful.adds hadds h.stored hfresh, fun k hk => ?_⟩
  rcases (hfresh k).mp hk with hk | ⟨rfl, -⟩
  · exact (hadds.contains k).mpr (.inr (h.stored k hk))
  · exact (hadds.contains k).mpr (.inl rfl)

end Runs

/-! ### Two runs -/

def decisionId : String := "00000000-0000-4000-8000-000000000001"
def acceptedId : String := "00000000-0000-4000-8000-000000000002"
def rejectedId : String := "00000000-0000-4000-8000-000000000003"
def confirmedId : String := "00000000-0000-4000-8000-000000000004"
def correctedId : String := "00000000-0000-4000-8000-000000000005"
def restatedId : String := "00000000-0000-4000-8000-000000000006"

/-- The digests of what is recorded in the runs, by its time. -/
def exampleDigest (timestamp : Int) : String :=
  if timestamp = 1 then "76df4ac39ccaaf5c9506d68d59b2fa25cacf001d3aad26e6bc531ab6b9e8bca2"
  else if timestamp = 2 then "aa25ac24446817c59d3c4980aabc58932b4d314cb9e96db89434071f215be104"
  else if timestamp = 3 then "98586fb928abc93692e32957b2872f9c3135af92ca5b1108e34ce5d4b732daf9"
  else if timestamp = 4 then "862967f714c32e515ea1f82dea56d094c1e0db3f080a7f6328dd82e487ce4765"
  else if timestamp = 5 then "0e0c9e0df32fe722e4314f02eca35b36fd894fb1e4d61185d0155eb67d860e16"
  else "76acaa42ad4e679ef38415c95398d1abc89fdfbba2c97cf0d7c6fed77b4485d2"

def exampleLibrary : Library where
  hash input := exampleDigest input.timestamp
  turnHash _ := "71d4198cef0a074ecd93501561fb983f4157fb5d5d9acddf14b677054d1953c4"
  preferenceKey _ := none
  recognize _ := none
  preferenceProvenance _ _ := .error (.serialization "EOF while parsing a value")

def promised : Commitment := ⟨1, "Ship", "Tests pass", none, .open⟩

def shipped : CommitmentExecutionReceipt := ⟨1, decisionId, "operation-1", true⟩

def exampleWording : Wording := jsonWording [promised] [shipped]

def accept : Call := .transition "request-2" .human {} decisionId .accepted 2

/-- Two people decide at once, and the one who was first asks again. -/
def competingMoves : List ClientMove :=
  [.start (.create "request-1" .human {} "Ship on Friday." .proposed 1), .advance 0 decisionId,
    .advance 0 "", .start accept,
    .start (.transition "request-3" .human {} decisionId .rejected 3), .advance 0 "",
    .advance 1 "", .advance 0 acceptedId, .advance 1 rejectedId, .advance 0 "", .advance 0 "",
    .start accept, .advance 0 "", .advance 0 rejectedId, .advance 0 ""]

def promise : NewRecord where
  kind := .decision
  origin := .human
  body := String.ofList (commitmentChars promised)
  decisionState := some .accepted

def receipt : NewRecord where
  kind := .finding
  origin := .system
  body := String.ofList (receiptChars shipped)

def outOfDate : NewRecord where
  kind := .finding
  origin := .human
  body := "Out of date."
  decisionState := some .superseded

/-- The texts of the provenances that are stored when a confirmation's receipt is corrected. -/
def storedProvenances : List (RevisionProvenance × String) :=
  [(⟨1, "explicit human correction of saved wording", .human, acceptedId, .system, .human, none,
      some .finding⟩,
    "\x7b\"schema\":1,\"action\":\"explicit human correction of saved wording\",\"actor\":\"Human\"," ++
      "\"source_record_id\":\"00000000-0000-4000-8000-000000000002\",\"source_origin\":\"System\"," ++
      "\"rationale_author\":\"Human\",\"rationale_source_record_id\":null," ++
      "\"semantic_kind\":\"Finding\"\x7d"),
    (⟨1, "explicit human correction of saved wording", .human, rejectedId, .human, .human, none,
      some .finding⟩,
    "\x7b\"schema\":1,\"action\":\"explicit human correction of saved wording\",\"actor\":\"Human\"," ++
      "\"source_record_id\":\"00000000-0000-4000-8000-000000000003\",\"source_origin\":\"Human\"," ++
      "\"rationale_author\":\"Human\",\"rationale_source_record_id\":null," ++
      "\"semantic_kind\":\"Finding\"\x7d"),
    (⟨1, "human associated verified native execution receipt", .human, decisionId, .human, .human,
      some decisionId, some .decision⟩,
    "\x7b\"schema\":1,\"action\":\"human associated verified native execution receipt\"," ++
      "\"actor\":\"Human\",\"source_record_id\":\"00000000-0000-4000-8000-000000000001\"," ++
      "\"source_origin\":\"Human\",\"rationale_author\":\"Human\"," ++
      "\"rationale_source_record_id\":\"00000000-0000-4000-8000-000000000001\"," ++
      "\"semantic_kind\":\"Decision\"\x7d")]

def storedWording : Wording :=
  { exampleWording with
    readProvenance := fun text => (storedProvenances.find? fun r => r.2 = text).map Prod.fst
    printProvenance := fun p => ((storedProvenances.find? fun r => r.1 = p).map Prod.snd).getD "" }

/-- A commitment, the receipt of its execution, and a finding in state superseded. -/
def committed : Store where
  records := ⟨[(decisionId, ⟨promise, 1⟩), (acceptedId, ⟨receipt, 2⟩), (rejectedId, ⟨outOfDate, 3⟩)],
    by decide⟩
  sequence := 3

def confirm : Call :=
  .confirmCommitmentExecution "request-4" .human {} decisionId acceptedId 4

/-- The receipt is corrected between a confirmation and its retry; the finding is restated. -/
def confirmingMoves : List ClientMove :=
  [.start confirm, .advance 0 "", .advance 0 "", .advance 0 "", .advance 0 confirmedId,
    .advance 0 "", .start (.correct "request-5" .human {} acceptedId "Nothing was shipped." 5),
    .advance 0 "", .advance 0 correctedId, .advance 0 "", .start confirm, .advance 0 "",
    .advance 0 "", .start (.correct "request-6" .human {} rejectedId "Still true." 6),
    .advance 0 "", .advance 0 restatedId, .advance 0 ""]

/-- A retry of a request that had succeeded failed. -/
def failedAgain (answer : Answer Result Call) : Bool :=
  answer.since.any (fun earlier => earlier.1 = answer.call && earlier.2.toOption.isSome) &&
    answer.result.toOption.isNone

theorem failedAgain_iff (answer : Answer Result Call) : failedAgain answer = true ↔
    (∃ record, (answer.call, .ok record) ∈ answer.since) ∧ ∃ e, answer.result = .error e := by
  have hfailed : answer.result.toOption.isNone = true ↔ ∃ e, answer.result = .error e := by
    cases answer.result <;> simp [Except.toOption]
  rw [failedAgain, Bool.and_eq_true, hfailed, List.any_eq_true]
  refine and_congr_left fun _ => ⟨?_, ?_⟩
  · rintro ⟨⟨c, r⟩, hmem, hr⟩
    rw [Bool.and_eq_true, decide_eq_true_iff] at hr
    obtain ⟨rfl, hr⟩ := hr
    cases r with
    | ok record => exact ⟨record, hmem⟩
    | error e => cases hr
  · rintro ⟨record, hmem⟩
    exact ⟨_, hmem, by simp [Except.toOption]⟩

/-- A retry failed, and a finding in state superseded has a successor. -/
def Contradicts (entries : List Moved) (s : Store) : Bool :=
  entries.any (fun e => e.result.any failedAgain) &&
    (get s restatedId).any (fun record => record.supersedes = some rejectedId) &&
    (get s rejectedId).any fun record => record.decisionState = some .superseded

end Pikamux.Decisions
