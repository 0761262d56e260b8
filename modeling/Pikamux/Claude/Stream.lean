import Pikamux.Json.Value
import Pikamux.Support.Result

/-!
# Claude — Stream

`mobile_claude_stream.rs`: a record is read twice, once reduced to what ancestry needs and once
for projection.  `extract` reads a syntax tree (objects list their fields as written) and keeps
the fields `keep` names for their path; what it retains is bounded by `metadataBytes`, text in
messages by `textBytes`, and a bound exceeded is an error or a marker object.

A numeric literal is refused beyond 4096 bytes; a tree holds numbers by value, so that bound does
not appear here.
-/

namespace Pikamux.Claude.Stream

open Support Json

/-- `CLAUDE_PAGE_BYTES`. -/
def textBytes : Nat := 8 * 1024 * 1024

def metadataBytes : Nat := 32 * 1024 * 1024

/-- `size_of::<Value>()`. -/
def valueBytes : Nat := 32

def budgetError : String := "Claude record retained metadata exceeds bounded memory budget"

/-- What stands for text that is too long. -/
def oversizedMarker : Value := .object [("_pikaOversizedText", .bool true)]

/-- Whether the field `key` of an object at `path` is retained. -/
def keep (projection : Bool) (path : List String) (key : String) : Bool :=
  match path with
  | [] =>
      ["type", "uuid", "parentUuid", "sessionId", "isSidechain", "isMeta", "agentId", "leafUuid",
        "subtype", "compactMetadata", "message"].contains key
  | "compactMetadata" :: _ => true
  | "message" :: rest =>
      if projection = false then
        match rest.length with
        | 0 => ["id", "role", "content"].contains key
        | 1 => ["type", "id", "tool_use_id"].contains key
        | _ => false
      else if rest = [] then ["id", "role", "content"].contains key
      else
        ["type", "text", "content", "id", "tool_use_id", "is_error", "name", "input",
          "operation_id"].contains key
  | _ => false

/-- Retain `n` more bytes. -/
def spend (retained n : Nat) : Except String Nat := do
  ensure (retained + n ≤ metadataBytes) budgetError
  return retained + n

/-- The bound on a string at `path`. -/
def stringLimit (path : List String) : Nat :=
  if path.head? = some "message" then
    if path.length > 3 ∨ (path.length = 3 ∧ path.getLast? = some "content") then 64 * 1024
    else textBytes
  else metadataBytes

def stringValue (projection : Bool) (path : List String) (retain : Bool) (s : String)
    (retained : Nat) : Except String (Value × Nat) :=
  if projection = false ∧ retain = true ∧ path = ["message", "content"] then
    .ok (.string "", retained)
  else if retain = false then .ok (.null, retained)
  else if s.utf8ByteSize > stringLimit path then
    if path.head? = some "message" then .ok (oversizedMarker, retained)
    else .error "Claude ancestry metadata exceeds its bounded memory budget"
  else do return (.string s, ← spend retained s.utf8ByteSize)

/-- Read a key; a retained one has a bound of its own. -/
def objectKey (retain : Bool) (key : String) (retained : Nat) : Except String Nat :=
  if retain = false then .ok retained
  else if key.utf8ByteSize > 4096 then .error "Claude JSON key exceeds metadata bound"
  else spend retained key.utf8ByteSize

def validateVisible (path : List String) (object : List (String × Value)) : Except String Unit :=
  let isObject (key : String) : Bool := ((object.lookup key).bind Value.asObject).isSome
  let message :=
    "Claude visible message exceeds the 8 MiB mobile history item limit"
  if path.head? = some "message" then do
    if path.length = 2 ∧ (object.lookup "type").bind Value.asStr = some "text" then
      ensure (!isObject "text") message
    if path.length = 1 then
      ensure (!isObject "content") message
    return ()
  else .ok ()

mutual

/-- Whether the marker stands anywhere in a value. -/
def oversizedText : Value → Bool
  | .object fields =>
      fields.any (fun f => f.1 = "_pikaOversizedText") || oversizedFields fields
  | .array items => oversizedItems items
  | _ => false

def oversizedItems : List Value → Bool
  | [] => false
  | v :: vs => oversizedText v || oversizedItems vs

def oversizedFields : List (String × Value) → Bool
  | [] => false
  | (_, v) :: fs => oversizedText v || oversizedFields fs

end

/-- What an array has collected: its values, whether they were given up as too long, and the
bytes of its text parts. -/
structure Items where
  values : List Value := []
  oversized : Bool := false
  text : Nat := 0
  retained : Nat

/-- The bytes of a text part. -/
def textPart (value : Value) : Nat :=
  if value["type"].asStr = some "text" then (value["text"].asStr.map String.utf8ByteSize).getD 0
  else 0

/-- Add a value to an array; `before` is what had been retained when the array began. -/
def retainArrayValue (path : List String) (before : Nat) (state : Items) (value : Value)
    (retained : Nat) : Except String Items := do
  let retained ← spend retained valueBytes
  let text := state.text + textPart value
  let boundedResult := path.length ≥ 3 && path[2]? = some "content"
  if boundedResult && (oversizedText value || text > 64 * 1024) then
    return ⟨[], true, text, before⟩
  else return ⟨state.values ++ [value], false, text, retained⟩

/-- A value read after the array was given up, or in a dropped one, is not retained. -/
def addItem (path : List String) (retain : Bool) (before : Nat) (state : Items) (value : Value)
    (retained : Nat) : Except String Items :=
  if retain && !state.oversized then retainArrayValue path before state value retained
  else .ok { state with retained := retained }

mutual

def value (projection : Bool) (path : List String) (retain : Bool) (depth retained : Nat)
    (tree : Value) : Except String (Value × Nat) :=
  if depth ≥ 128 then .error "Claude JSON recursion limit exceeded"
  else
    match tree with
    | .string s => stringValue projection path retain s retained
    | .object fields => do
        let (object, retained) ← objectFields projection path retain (depth + 1) retained [] fields
        validateVisible path object
        return (.object object, retained)
    | .array items => do
        let state ← arrayItems projection path retain (depth + 1) retained ⟨[], false, 0, retained⟩
          items
        if state.oversized then return (oversizedMarker, state.retained)
        else return (.array state.values, state.retained)
    | scalar => if retain then .ok (scalar, retained) else .ok (.null, retained)

def objectFields (projection : Bool) (path : List String) (retain : Bool) (depth retained : Nat)
    (object : List (String × Value)) (fields : List (String × Value)) :
    Except String (List (String × Value) × Nat) :=
  match fields with
  | [] => .ok (object, retained)
  | (key, tree) :: fields => do
      let afterKey ← objectKey retain key retained
      if retain && keep projection path key then
        let (v, afterValue) ← value projection (path ++ [key]) true depth afterKey tree
        ensure (object.lookup key).isNone "Repeated Claude retained JSON key"
        let afterField ← spend afterValue (256 + valueBytes)
        objectFields projection path retain depth afterField (Value.insertField key v object) fields
      else
        -- Dropped, and with it what its key had retained.
        let _ ← value projection path false depth afterKey tree
        objectFields projection path retain depth retained object fields

def arrayItems (projection : Bool) (path : List String) (retain : Bool) (depth before : Nat)
    (state : Items) (items : List Value) : Except String Items :=
  match items with
  | [] => .ok state
  | tree :: items => do
      let (v, retained) ←
        value projection path (retain && !state.oversized) depth state.retained tree
      let state ← addItem path retain before state v retained
      arrayItems projection path retain depth before state items

end

/-- Read one record. -/
def extract (projection : Bool) (tree : Value) : Except String Value := do
  return (← value projection [] true 0 0 tree).1

end Pikamux.Claude.Stream
