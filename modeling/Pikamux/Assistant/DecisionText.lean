import Pikamux.Assistant.Decisions
import Pikamux.Json.Read

/-!
# Assistant — DecisionText

The JSON texts of what `assistant_decisions.rs` stores: fields in their order, without blanks.
`readProvenance_print` — the text of a provenance is read back.
-/

namespace Pikamux.Decisions

open Support Memory Json

def Origin.all : List Origin := [.human, .worker, .system]

def Origin.name : Origin → String
  | .human => "Human"
  | .worker => "Worker"
  | .system => "System"

def RecordKind.all : List RecordKind :=
  [.draft, .userInstruction, .inferredPreference, .proposal, .decision, .finding, .briefing,
    .graspInteraction, .correction]

def RecordKind.name : RecordKind → String
  | .draft => "Draft"
  | .userInstruction => "UserInstruction"
  | .inferredPreference => "InferredPreference"
  | .proposal => "Proposal"
  | .decision => "Decision"
  | .finding => "Finding"
  | .briefing => "Briefing"
  | .graspInteraction => "GraspInteraction"
  | .correction => "Correction"

/-- A field after the first. -/
def field (name : String) : List Char := ',' :: quoted name ++ [':']

def provenanceChars (p : RevisionProvenance) : List Char :=
  '{' :: quoted "schema" ++ [':'] ++ (Nat.toDigits 10 p.schema ++
    (field "action" ++ quoted p.action ++
    (field "actor" ++ quoted (Origin.name p.actor) ++
    (field "source_record_id" ++ quoted p.sourceRecordId ++
    (field "source_origin" ++ quoted (Origin.name p.sourceOrigin) ++
    (field "rationale_author" ++ quoted (Origin.name p.rationaleAuthor) ++
    (field "rationale_source_record_id" ++ printOption quoted p.rationaleSourceRecordId ++
    (field "semantic_kind" ++
      printOption (fun kind => quoted (RecordKind.name kind)) p.semanticKind ++ ['}']))))))))

def commitmentChars (c : Commitment) : List Char :=
  '{' :: quoted "schema" ++ [':'] ++ Nat.toDigits 10 c.schema ++
    field "commitment" ++ quoted c.commitment ++
    field "condition" ++ quoted c.condition ++
    field "due_at" ++ printOption (fun due => (toString due).toList) c.dueAt ++
    field "completion" ++ '{' :: quoted "kind" ++ [':'] ++
    (match c.completion with
    | .open => quoted "open"
    | .humanReported statement => quoted "human_reported" ++ field "statement" ++ quoted statement
    | .receiptConfirmed receiptRecordId =>
        quoted "receipt_confirmed" ++ field "receipt_record_id" ++ quoted receiptRecordId) ++
    ['}', '}']

def stringsChars (items : List String) : List Char := '[' :: commaSep (items.map quoted) ++ [']']

def decisionChars (d : Decision) : List Char :=
  '{' :: quoted "chosen" ++ [':'] ++ quoted d.chosen ++
    field "rationale" ++ quoted d.rationale ++
    field "rejected" ++ stringsChars d.rejected ++
    field "owner" ++ quoted d.owner ++
    field "open_questions" ++ stringsChars d.openQuestions ++
    field "commitments" ++ stringsChars d.commitments ++ ['}']

def receiptChars (r : CommitmentExecutionReceipt) : List Char :=
  '{' :: quoted "schema" ++ [':'] ++ Nat.toDigits 10 r.schema ++
    field "commitment_id" ++ quoted r.commitmentId ++
    field "operation_id" ++ quoted r.operationId ++
    field "succeeded" ++ (Value.bool r.succeeded).chars ++ ['}']

/-- `serde_json::to_string` of a provenance. -/
def printProvenance (p : RevisionProvenance) : String := String.ofList (provenanceChars p)

/-- A field and its value. -/
def readField {α : Type} (name : String) (read : Reader α) : Reader α := fun text => do
  let r ← readLiteral (field name) text
  read r.2

def readOrigin : Reader Origin := readName Origin.all Origin.name

def readKind : Reader RecordKind := readName RecordKind.all RecordKind.name

/-- `serde_json::from_str` of a text that `printProvenance` prints. -/
def readProvenance (text : String) : Option RevisionProvenance := do
  let start ← readLiteral ('{' :: quoted "schema" ++ [':']) text.toList
  let schema ← readNat start.2
  let action ← readField "action" readString schema.2
  let actor ← readField "actor" readOrigin action.2
  let sourceRecordId ← readField "source_record_id" readString actor.2
  let sourceOrigin ← readField "source_origin" readOrigin sourceRecordId.2
  let rationaleAuthor ← readField "rationale_author" readOrigin sourceOrigin.2
  let rationaleSource ← readField "rationale_source_record_id" (readOption readString)
    rationaleAuthor.2
  let semanticKind ← readField "semantic_kind" (readOption readKind) rationaleSource.2
  if semanticKind.2 = ['}'] then
    some
      { schema := schema.1
        action := action.1
        actor := actor.1
        sourceRecordId := sourceRecordId.1
        sourceOrigin := sourceOrigin.1
        rationaleAuthor := rationaleAuthor.1
        rationaleSourceRecordId := rationaleSource.1
        semanticKind := semanticKind.1 }
  else none

theorem readField_append {α : Type} {read : Reader α} {print : α → List Char}
    (h : Reads read print) (name : String) (a : α) (rest : List Char) :
    readField name read (field name ++ print a ++ rest) = some (a, rest) := by
  rw [readField, List.append_assoc, readLiteral_append]
  exact h a rest

theorem readOrigin_reads : Reads readOrigin fun origin => quoted (Origin.name origin) :=
  readName_reads fun origin => by cases origin <;> decide

theorem readKind_reads : Reads readKind fun kind => quoted (RecordKind.name kind) :=
  readName_reads fun kind => by cases kind <;> decide

/-- **A printed provenance is read back.** -/
theorem readProvenance_print (p : RevisionProvenance) :
    readProvenance (printProvenance p) = some p := by
  have hkind : Reads (readOption readKind) (printOption fun kind => quoted (RecordKind.name kind)) :=
    readOption_reads readKind_reads fun kind => ⟨_, rfl⟩
  have hsource : Reads (readOption readString) (printOption quoted) :=
    readOption_reads readString_reads fun s => ⟨_, rfl⟩
  have hschema : ∀ rest, readNat (Nat.toDigits 10 p.schema ++
      (field "action" ++ quoted p.action ++ rest)) =
        some (p.schema, field "action" ++ quoted p.action ++ rest) :=
    fun rest => readNat_toDigits p.schema (by decide) _
  rw [readProvenance, printProvenance, String.toList_ofList, provenanceChars, readLiteral_append]
  simp only [Option.bind_eq_bind, Option.bind_some, hschema, readField_append readString_reads,
    readField_append readOrigin_reads, readField_append hsource, readField_append hkind, if_true]

/-- Wordings whose provenances are JSON texts, on given commitments and receipts. -/
def jsonWording (commitments : List Commitment) (receipts : List CommitmentExecutionReceipt) :
    Wording where
  readProvenance := readProvenance
  printProvenance := printProvenance
  readCommitment text := commitments.find? fun c => String.ofList (commitmentChars c) = text
  printCommitment c := String.ofList (commitmentChars c)
  printDecision d := String.ofList (decisionChars d)
  readReceipt text := context (.serialization "expected value at line 1 column 1")
    (receipts.find? fun r => String.ofList (receiptChars r) = text)

theorem jsonWording_faithful (commitments : List Commitment)
    (receipts : List CommitmentExecutionReceipt) : (jsonWording commitments receipts).Faithful :=
  fun p _ => readProvenance_print p

end Pikamux.Decisions
