import Pikamux.Channel.Operation
import Pikamux.Claude.Ancestry
import Pikamux.Support.Lines

/-!
# Claude — Projection

`mobile_claude_history.rs`: what a transcript record shows on the phone.  A user or assistant
record shows its text; a tool call or result shows the literal message of a phone operation, when
the private journal of the channel proves that it carried it.

The digest function is the parameter `hash`; the journal is read in one snapshot, and the parser
of its rows is `decode`.
-/

namespace Pikamux

open Std Support Json

/-- Bytes of a file or a text. -/
abbrev Bytes := List UInt8

/-- `str::as_bytes`. -/
def utf8 (s : String) : Bytes := s.toByteArray.data.toList

theorem utf8_injective {s t : String} (h : utf8 s = utf8 t) : s = t :=
  String.toByteArray_inj.mp (ByteArray.ext (Array.toList_inj.mp h))

namespace Claude

/-- `CLAUDE_PAGE_BYTES`. -/
def claudePageBytes : Nat := 8 * 1024 * 1024

/-- `RECORD`. -/
def recordBytes : Nat := 256 * 1024

/-- `FRAME`. -/
def frameBytes : Nat := 512 * 1024

/-! ### Items -/

/-- An item of the phone's history. -/
def itemValue (id : String) (user : Bool) (text : String) : Value :=
  .object [("id", .string id), ("text", .string text),
    ("type", .string (if user then "userMessage" else "agentMessage"))]

/-- `serde_json::to_vec(value)?.len()`. -/
def encodedLength (v : Value) : Nat := v.toText.utf8ByteSize

def item (id : String) (user : Bool) (text : String) : Except String Value := do
  ensure (id ≠ "" && id.utf8ByteSize ≤ 512) "Provider message has no bounded stable identity"
  ensure (text.utf8ByteSize ≤ recordBytes) "Provider message exceeds history bounds"
  return itemValue id user text

def claudeItem (id : String) (user : Bool) (text : String) : Except String Value := do
  ensure (id ≠ "" && id.utf8ByteSize ≤ 512) "Provider message has no bounded stable identity"
  let value := itemValue id user text
  ensure (encodedLength value + 3 ≤ claudePageBytes)
    "One visible Claude message exceeds the 8 MiB encoded mobile page budget; its original text has not been truncated"
  return value

/-- The text of a message: a string, or the text blocks of an array, if there is any. -/
def textParts (content : Value) : Option String :=
  match content with
  | .string text => some text
  | .array parts =>
      let texts := (parts.filter fun part => part["type"].asStr = some "text")
        |>.filterMap fun part => part["text"].asStr
      let text := String.join texts
      if text = "" then none else some text
  | _ => none

/-- `jsonl_item` of a Claude record. -/
def jsonlItem (value : Value) (identity : String) : Except String (Option Value) :=
  if !owned identity value || value["isMeta"].asBool = some true then .ok none
  else
    let role := typeOf value
    if (role ≠ some "user" && role ≠ some "assistant") || value["message"]["role"].asStr ≠ role then
      .ok none
    else
      match textParts value["message"]["content"] with
      | none => .ok none
      | some text => do
          let id ← context "Claude message UUID missing" value["uuid"].asStr
          return some (← claudeItem id (role = some "user") text)

/-! ### The journal -/

/-- What the journal knows of an operation. -/
structure HistoryOperation where
  text : String
  fetchToolId : Option String
  reply : Option String
  replyToolId : Option String

/-- A snapshot of the `meta` rows, none when there is no store, for one conversation. -/
structure HistoricalSnapshot where
  db : Option (ExtTreeMap String String compare)
  thread : String

section Projector

variable (hash : Bytes → String) (decode : String → Except String Channel.Operation)

def HistoricalSnapshot.open (db : Option (ExtTreeMap String String compare)) (thread : String) :
    Except String HistoricalSnapshot := do
  ensure ((← Channel.parseUuid thread) = thread) "Canonical historical thread required"
  return ⟨db, thread⟩

def historicalValue (db : ExtTreeMap String String compare) (key : String) :
    Except String (Option String) := do
  match db[key]? with
  | some value =>
      ensure (value.utf8ByteSize ≤ frameBytes)
        "Historical channel proof exceeds its per-record bound"
      return some value
  | none => return none

def toolIdValid (id : Option String) : Bool :=
  id.all fun id => "toolu_".isPrefixOf id && id.utf8ByteSize ≤ 128

def historicalOperation (value : String) : Except String HistoryOperation := do
  let op ← decode value
  ensure (op.text.utf8ByteSize ≤ Channel.textBytes &&
    op.reply.all fun text => text.utf8ByteSize ≤ Channel.textBytes)
    "Historical literal exceeds channel bound"
  ensure (toolIdValid op.fetchToolId && toolIdValid op.replyToolId)
    "Historical native tool identity invalid"
  return ⟨op.text, op.fetchToolId, op.reply, op.replyToolId⟩

def HistoricalSnapshot.operation (proofs : HistoricalSnapshot) (token id : String) :
    Except String (Option HistoryOperation) :=
  match proofs.db with
  | none => .ok none
  | some db => do
      let key ← Channel.tokenOperationKey token id
      if (← historicalValue db ("claude-channel:" ++ token ++ ":thread")) ≠ some proofs.thread then
        return none
      match ← historicalValue db key with
      | some value => return some (← historicalOperation decode value)
      | none => return none

/-! ### Tool references -/

/-- The launch and the tool that a tool name refers to. -/
def parseName (name : String) : Option (String × String) := do
  let rest ← if "mcp__pika_".isPrefixOf name then some (name.toList.drop 10) else none
  let (token, tool) ← splitOnce ['_', '_'] rest
  let digits ← Uuid.parse token
  if digits = token ∧ String.ofList tool ∈ ["fetch_message", "reply"] then
    some (String.ofList (Uuid.format digits), String.ofList tool)
  else none

/-- The launch, the operation and the tool that a tool call refers to. -/
def toolReference (part : Value) : Option (String × String × String) := do
  let (token, tool) ← parseName (← part["name"].asStr)
  let operation ← Uuid.canonical (← part["input"]["operation_id"].asStr)
  return (token, operation, tool)

/-! ### The projector -/

/-- The fetches whose results are awaited, by tool id, with the digest of their text; and those
registered before the walk began. -/
structure Projector where
  proofs : HistoricalSnapshot
  fetched : ExtTreeMap String String compare := ∅
  prepared : ExtTreeMap String (String × String × String) compare := ∅

namespace Projector

def prepareFetch (self : Projector) (part : Value) : Except String Projector := do
  if typeOf part ≠ some "tool_use" then return self
  match toolReference part with
  | some (token, operation, "fetch_message") =>
      match ← self.proofs.operation decode token operation with
      | none => return self
      | some proof =>
          match part["id"].asStr with
          | none => return self
          | some id =>
              if proof.fetchToolId ≠ some id then return self
              let evidence := (token, operation, hash (utf8 proof.text))
              match self.prepared[id]? with
              | some previous =>
                  ensure (previous = evidence) "Conflicting prepared native fetch identity"
                  return self
              | none =>
                  ensure (!self.fetched.contains id) "Repeated native fetch identity"
                  return { self with
                    fetched := self.fetched.insert id evidence.2.2
                    prepared := self.prepared.insert id evidence }
  | _ => return self

/-- What a tool call shows: the reply it carries, when the journal has it. -/
def tool (self : Projector) (part : Value) : Except String (Option Value × Projector) := do
  match toolReference part with
  | none => return (none, self)
  | some (token, operation, tool) =>
      match ← self.proofs.operation decode token operation with
      | none => return (none, self)
      | some proof =>
          match part["id"].asStr with
          | none => return (none, self)
          | some id =>
              if tool = "fetch_message" ∧ proof.fetchToolId = some id then
                ensure (!self.fetched.contains id) "Repeated native fetch identity"
                let fetched := self.fetched.insert id (hash (utf8 proof.text))
                return (none, { self with fetched := fetched })
              else if tool = "reply" ∧ proof.replyToolId = some id then
                match proof.reply.filter fun text => part["input"]["text"].asStr = some text with
                | some text =>
                    return (some (← item ("claude-channel-reply:" ++ id) false text), self)
                | none => return (none, self)
              else return (none, self)

/-- What a tool result shows: the message it fetched, when its text is the one awaited. -/
def fetchedItem (self : Projector) (part : Value) : Except String (Option Value × Projector) := do
  match part["tool_use_id"].asStr with
  | none => return (none, self)
  | some id =>
      match self.fetched[id]? with
      | none => return (none, self)
      | some expected =>
          let self := { self with fetched := self.fetched.erase id }
          match textParts part["content"] with
          | none => return (none, self)
          | some text =>
              if part["is_error"].asBool = some true ∨ hash (utf8 text) ≠ expected then
                return (none, self)
              return (some (← item ("claude-channel-user:" ++ id) true text), self)

/-- What one content block of a record shows. -/
def part (self : Projector) (record part : Value) : Except String (Option Value × Projector) :=
  match typeOf record, typeOf part with
  | some "assistant", some "tool_use" => self.tool hash decode part
  | some "user", some "tool_result" => self.fetchedItem hash part
  | _, _ => .ok (none, self)

/-- What the content blocks of a record show. -/
def parts (self : Projector) (record : Value) : Except String (List Value × Projector) :=
  if record["message"]["role"].eq record["type"] then
    loopM record["message"]["content"].items ([], self) fun state block => do
      let (entry, self) ← state.2.part hash decode record block
      return (state.1 ++ entry.toList, self)
  else .ok ([], self)

/-- What a record shows: its text first, then its blocks. -/
def entries (self : Projector) (record : Value) : Except String (List Value × Projector) := do
  let (entries, self) ← self.parts hash decode record
  let text ← jsonlItem record self.proofs.thread
  return (text.toList ++ entries, self)

end Projector

/-! ### The shape of items -/

/-- An item of the phone's history, as `item` and `claudeItem` build it. -/
def IsItem (v : Value) : Prop := ∃ id user text, v = itemValue id user text

theorem isItem_of_item {id text : String} {user : Bool} {v : Value}
    (h : item id user text = .ok v) : IsItem v := by
  obtain ⟨_, -, h⟩ := bind_eq_ok.mp h
  obtain ⟨_, -, h⟩ := bind_eq_ok.mp h
  exact ⟨id, user, text, (pure_eq_ok.mp h).symm⟩

theorem isItem_of_claudeItem {id text : String} {user : Bool} {v : Value}
    (h : claudeItem id user text = .ok v) : IsItem v := by
  obtain ⟨_, -, h⟩ := bind_eq_ok.mp h
  obtain ⟨_, -, h⟩ := bind_eq_ok.mp h
  exact ⟨id, user, text, (pure_eq_ok.mp h).symm⟩

theorem isItem_of_jsonlItem {value v : Value} {identity : String}
    (h : jsonlItem value identity = .ok (some v)) : IsItem v := by
  simp only [jsonlItem] at h
  split at h
  case isTrue => cases h
  case isFalse =>
    split at h
    case isTrue => cases h
    case isFalse =>
      split at h
      case h_1 => cases h
      case h_2 =>
        obtain ⟨_, -, h⟩ := bind_eq_ok.mp h
        obtain ⟨_, hitem, h⟩ := bind_eq_ok.mp h
        cases pure_eq_ok.mp h
        exact isItem_of_claudeItem hitem

/-- Whatever a run shows is an item. -/
def Shows (x : Except String (Option Value × Projector)) : Prop :=
  ∀ v self, x = .ok (some v, self) → IsItem v

theorem shows_none {self : Projector} : Shows (pure (none, self)) := by
  intro v self' h
  cases pure_eq_ok.mp h

theorem shows_bind {α : Type} {x : Except String α} {f : α → Except String (Option Value × Projector)}
    (hf : ∀ a, Shows (f a)) : Shows (x >>= f) := by
  intro v self h
  obtain ⟨a, -, h⟩ := bind_eq_ok.mp h
  exact hf a v self h

theorem shows_item {id text : String} {user : Bool} {self : Projector} :
    Shows (do return (some (← item id user text), self)) := by
  intro v self' h
  obtain ⟨_, hitem, h⟩ := bind_eq_ok.mp h
  cases pure_eq_ok.mp h
  exact isItem_of_item hitem

namespace Projector

theorem shows_tool (self : Projector) (part : Value) : Shows (self.tool hash decode part) := by
  rw [tool]
  split
  case h_1 => exact shows_none
  case h_2 =>
    refine shows_bind fun proof => ?_
    split
    case h_1 => exact shows_none
    case h_2 =>
      split
      case h_1 => exact shows_none
      case h_2 =>
        split
        case isTrue => exact shows_bind fun _ => shows_none
        case isFalse =>
          split
          case isTrue =>
            split
            case h_1 => exact shows_item
            case h_2 => exact shows_none
          case isFalse => exact shows_none

theorem shows_fetchedItem (self : Projector) (part : Value) :
    Shows (self.fetchedItem hash part) := by
  rw [fetchedItem]
  split
  case h_1 => exact shows_none
  case h_2 =>
    split
    case h_1 => exact shows_none
    case h_2 =>
      dsimp only
      split
      case h_1 => exact shows_none
      case h_2 =>
        split
        case isTrue => exact shows_none
        case isFalse => exact shows_item

theorem shows_part (self : Projector) (record block : Value) :
    Shows (self.part hash decode record block) := by
  rw [part]
  split
  · exact shows_tool hash decode self block
  · exact shows_fetchedItem hash self block
  · exact shows_none

variable {hash decode}

theorem parts_items {self self' : Projector} {record : Value} {es : List Value}
    (h : self.parts hash decode record = .ok (es, self')) : ∀ v ∈ es, IsItem v := by
  rw [parts] at h
  split at h
  case isFalse =>
    cases h
    simp
  case isTrue =>
    refine foldlM_invariant (fun state => ∀ v ∈ state.1, IsItem v) h (by simp) ?_
    intro block _ state state' hstep hs v hv
    obtain ⟨⟨entry, q⟩, hpart, hstep⟩ := bind_eq_ok.mp hstep
    obtain rfl := pure_eq_ok.mp hstep
    rcases List.mem_append.mp hv with hv | hv
    · exact hs v hv
    · obtain rfl : entry = some v := by simpa using hv
      exact shows_part hash decode _ _ _ v q hpart

/-- Projection only shows items. -/
theorem entries_items {self self' : Projector} {record : Value} {es : List Value}
    (h : self.entries hash decode record = .ok (es, self')) : ∀ v ∈ es, IsItem v := by
  obtain ⟨⟨blocks, q⟩, hblocks, h⟩ := bind_eq_ok.mp h
  obtain ⟨text, htext, h⟩ := bind_eq_ok.mp h
  cases pure_eq_ok.mp h
  intro v hv
  rcases List.mem_append.mp hv with hv | hv
  · obtain rfl : text = some v := by simpa using hv
    exact isItem_of_jsonlItem htext
  · exact parts_items hblocks v hv

end Projector

end Projector

end Claude

end Pikamux
