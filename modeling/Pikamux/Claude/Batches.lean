import Pikamux.Json.Text
import Pikamux.Support.Map
import Pikamux.Support.Result

/-!
# Claude — Batches

`mobile_claude_batches.rs`: a response of the provider is several transcript records, and the
tool results that answer it arrive in parallel.  Records proven to belong to one response are
collapsed to a batch (`membership`), the batches must form a single line of descent
(`quotient`), and each batch is expanded in source order subject to its internal parent edges
(`expand`).  `chain` puts these together.

A map lookup that the source indexes (`records[id]`, a panic when absent) is `records[id]!`.
-/

namespace Pikamux.Claude

open Std Support Json

/-- The retained transcript records, by uuid. -/
abbrev Records := ExtTreeMap String Value compare

/-- The batch of every record. -/
abbrev Members := ExtTreeMap String String compare

/-- The batch that follows a batch, the first one under `none`. -/
abbrev Children := ExtTreeMap (Option String) String compare

/-- The original parent of every tool result, and whether its call was found there. -/
abbrev ResultSources := ExtTreeMap String (Option String × Bool) compare

/-- The batch above each batch, none above a root. -/
abbrev BatchParents := ExtTreeMap String (Option String) compare

/-- The tool calls of each batch. -/
abbrev Calls := ExtTreeMap String (ExtTreeSet String compare) compare

def ambiguous : String :=
  "Claude history contains a rewind or branching ambiguity; read it in the original terminal"

/-- The parent a record names. -/
def parentOf (record : Value) : Option String := record["parentUuid"].asStr

/-- The record's type. -/
def typeOf (record : Value) : Option String := record["type"].asStr

/-! ### Content blocks -/

/-- The identities in `field` of the content blocks of type `kind`. -/
def blocks (record : Value) (kind field : String) : List String :=
  (record["message"]["content"].items.filter fun block => block["type"].asStr = some kind)
    |>.filterMap fun block => block[field].asStr

def toolUses (record : Value) : List String := blocks record "tool_use" "id"

def toolResults (record : Value) : List String := blocks record "tool_result" "tool_use_id"

def validateBlock (block : Value) : Except String Unit :=
  if block["type"].asStr = some "tool_use" then
    ensure (block["id"].asStr.any (· ≠ "")) "Claude tool block identity missing"
  else if block["type"].asStr = some "tool_result" then
    ensure (block["tool_use_id"].asStr.any (· ≠ "")) "Claude tool block identity missing"
  else .ok ()

def validateBlocks (record : Value) : Except String Unit :=
  forM record["message"]["content"].items validateBlock

/-- The two records carry the same ownership fields. -/
def sameOwner (a b : Value) : Bool :=
  a["agentId"].eq b["agentId"] && a["isSidechain"].eq b["isSidechain"]

/-! ### Original results, before compaction -/

/-- A response and the printed text of its two ownership fields. -/
abbrev ResponseKey := String × String × String

def compareResponse : ResponseKey → ResponseKey → Ordering :=
  compareLex (compareOn (·.1)) (compareLex (compareOn (·.2.1)) (compareOn (·.2.2)))

instance : TransCmp compareResponse := by unfold compareResponse; infer_instance

def responseKey (id : String) (record : Value) : ResponseKey :=
  ((record["message"]["id"].asStr.map ("message:" ++ ·)).getD ("uuid:" ++ id),
    record["agentId"].toText, record["isSidechain"].toText)

/-- The calls of each response. -/
abbrev ResponseCalls := ExtTreeMap ResponseKey (ExtTreeSet String compare) compareResponse

def addCalls (calls : ExtTreeSet String compare) (ids : List String) : ExtTreeSet String compare :=
  ids.foldl .insert calls

def responseCalls (records : Records) : ResponseCalls :=
  loop records.toList ∅ fun calls (id, record) =>
    if typeOf record = some "assistant" ∧ record["message"]["role"].asStr = some "assistant" then
      calls.alter (responseKey id record) fun set =>
        some (addCalls (set.getD ∅) (toolUses record))
    else calls

def sourceResultVerified (record : Value) (parentId : String) (parent : Value)
    (calls : ResponseCalls) : Bool :=
  typeOf parent = some "assistant"
    && parent["message"]["role"].asStr = some "assistant"
    && record["message"]["role"].asStr = some "user"
    && sameOwner record parent
    && (calls[responseKey parentId parent]?).any fun calls =>
        (toolResults record).all fun id => calls.contains id

def resultSources (records : Records) : ResultSources :=
  let calls := responseCalls records
  records.filterMap fun _ record =>
    if typeOf record = some "user" ∧ toolResults record ≠ [] then
      let parent := parentOf record
      some (parent, parent.any fun id =>
        (records[id]?).any fun parent => sourceResultVerified record id parent calls)
    else none

/-! ### Membership -/

/-- The tool calls of every batch.  One call in two batches is an error. -/
def callIndex (records : Records) (members : Members) : Except String Calls := do
  let (calls, _) ← loopM records.toList ((∅ : Calls), (∅ : Members))
    fun state (id, record) =>
      if typeOf record = some "assistant" then
        loopM (toolUses record) state fun (calls, owners) call => do
          let group := members[id]!
          match owners[call]? with
          | some previous =>
              ensure (previous = group) "Claude tool call identity conflicts across responses"
          | none => .ok ()
          return (calls.alter group fun set => some ((set.getD ∅).insert call),
            owners.insert call group)
      else .ok state
  return calls

/-- Add one to the count of a key. -/
def bump (counts : ExtTreeMap String Nat compare) (key : String) : ExtTreeMap String Nat compare :=
  counts.alter key fun n => some (n.getD 0 + 1)

/-- The batches of several assistant records, or of several results to several calls. -/
def provenBatches (records : Records) (members : Members) (calls : Calls) : List String :=
  let (assistants, results) := loop records.toList
    ((∅ : ExtTreeMap String Nat compare), (∅ : ExtTreeMap String Nat compare))
    fun (assistants, results) (id, record) =>
      if typeOf record = some "assistant" then (bump assistants members[id]!, results)
      else if typeOf record = some "user" ∧ toolResults record ≠ [] then
        match (parentOf record).filter fun parent => typeOf records[parent]! = some "assistant" with
        | some parent => (assistants, bump results members[parent]!)
        | none => (assistants, results)
      else (assistants, results)
  assistants.toList.filter (fun (group, count) =>
    count > 1 || (results.getD group 0 > 1 && (calls[group]?).any fun ids => ids.size > 1))
    |>.map (·.1)

/-- The records of one response that made a tool call form one batch, named by its first. -/
def assignResponse (records : Records) (ids : List String) (members : Members) :
    Except String Members :=
  if ids.length < 2 then .ok members
  else
    let first := records[ids[0]!]!
    if ids.all fun id => toolUses records[id]! = [] then .ok members
    else
      loopM ids members fun members id => do
        let record := records[id]!
        ensure (sameOwner record first) "Claude response batch ownership conflicts"
        ensure (record["message"]["role"].asStr = some "assistant")
          "Claude response role conflicts"
        return members.insert id ids[0]!

/-- A tool result joins the batch of the call it was recorded under, when that is proven. -/
def assignResults (records : Records) (members : Members) (sources : ResultSources) :
    Except String Members := do
  let calls ← callIndex records members
  let batches := provenBatches records members calls
  loopM records.toList members fun members (id, record) => do
    let resultIds := toolResults record
    if typeOf record ≠ some "user" ∨ resultIds = [] then return members
    let (sourceParent, verified) ←
      context "Claude original tool result identity missing" sources[id]?
    ensure verified "Claude tool result has no exact original call identity"
    -- A call removed by compaction was checked before it was removed; the result stays alone.
    match sourceParent.filter (records.contains ·) with
    | none => return members
    | some parent =>
        ensure (typeOf records[parent]! = some "assistant")
          "Claude tool result requires native call ancestry reconstruction"
        let group := members[parent]!
        ensure ((calls[group]?).any fun calls => resultIds.all fun id => calls.contains id)
          "Claude tool result has no exact batch call identity"
        ensure (record["message"]["role"].asStr = some "user"
            && sameOwner record records[parent]!)
          "Claude tool result batch ownership conflicts"
        return if batches.contains group then members.insert id group else members

/-- Attachments, system notes and meta messages, which carry no turn of their own. -/
def auxiliary (record : Value) : Bool :=
  match typeOf record with
  | some "attachment" => true
  | some "system" => record["subtype"].asStr ≠ some "compact_boundary"
  | some "user" => record["isMeta"].asBool = some true && toolResults record = []
  | _ => false

theorem mem_of_auxiliary {records : Records} {id : String} (h : auxiliary records[id]! = true) :
    id ∈ records := by
  by_contra hn
  rw [ExtTreeMap.getElem!_eq_default hn] at h
  exact absurd h (by decide)

/-- From `current` up through auxiliary records: those passed, and the first record above that
is not auxiliary, or the anchor already known for one that was passed before. -/
def auxiliaryAnchor (records : Records) (anchors : ExtTreeMap String (Option String) compare)
    (seen : ExtTreeSet String compare) (path : List String) (current : Option String) :
    Except String (List String × Option String) :=
  match current with
  | none => .ok (path, none)
  | some id =>
      match anchors[id]? with
      | some anchor => .ok (path, anchor)
      | none =>
          if _haux : auxiliary records[id]! = true then
            if _hseen : seen.contains id = true then
              .error "Claude auxiliary ancestry contains a cycle"
            else
              auxiliaryAnchor records anchors (seen.insert id) (path ++ [id])
                (parentOf records[id]!)
          else .ok (path, some id)
termination_by remaining records fun id => !seen.contains id
decreasing_by
  exact remaining_insert_lt (mem_of_auxiliary _haux) (Bool.eq_false_iff.mpr _hseen)

def auxiliaryAnchors (records : Records) :
    Except String (ExtTreeMap String (Option String) compare) :=
  loopM (records.keys.filter fun id => auxiliary records[id]!) ∅ fun anchors id => do
    let (path, anchor) ← auxiliaryAnchor records anchors ∅ [] (some id)
    return loop path anchors fun anchors id => anchors.insert id anchor

/-- The auxiliary records from `current` up to the batch `group` join it. -/
def assignBridge (records : Records) (record : Value) (group : String) (members : Members)
    (current : String) : Except String Members :=
  if _h : auxiliary records[current]! = true ∧ members[current]! ≠ group then
    if sameOwner records[current]! record then
      match parentOf records[current]! with
      | some parent =>
          assignBridge records record group (members.insert current group) parent
      | none => .error "Claude auxiliary batch parent missing"
    else .error "Claude auxiliary batch ownership conflicts"
  else .ok members
termination_by remaining records fun id => members[id]! ≠ group
decreasing_by exact remaining_redirect_lt (mem_of_auxiliary _h.1) _h.2

/-- Auxiliary records between two assistant records of one batch join it. -/
def assignBridges (records : Records) (members : Members) : Except String Members := do
  let anchors ← auxiliaryAnchors records
  loopM (records.toList.filter fun (_, record) => typeOf record = some "assistant")
    members fun members (id, record) =>
      match parentOf record with
      | none => .ok members
      | some parent =>
          match anchors[parent]? with
          | some (some anchor) =>
              let group := members[id]!
              if members[anchor]! ≠ group then .ok members
              else assignBridge records record group members parent
          | _ => .ok members

/-- From a childless auxiliary record up through auxiliary records with one child each, to the
first record that is not auxiliary.  Native ancestry has no cycle here, so the walk passes each
record at most once. -/
def tailPath (records : Records) (counts : ExtTreeMap String Nat compare) :
    Nat → List String → Option String → List String × Option String
  | 0, _, _ => ([], none)
  | _ + 1, _, none => ([], none)
  | fuel + 1, path, some id =>
      if auxiliary records[id]! = false then (path, some id)
      else if counts.getD id 0 > 1 then ([], none)
      else tailPath records counts fuel (path ++ [id]) (parentOf records[id]!)

/-- Count a record under its parent. -/
def countChild (counts : ExtTreeMap String Nat compare) (record : Value) :
    ExtTreeMap String Nat compare :=
  match parentOf record with
  | some parent => bump counts parent
  | none => counts

/-- How many records name each parent. -/
def childCounts (records : Records) : ExtTreeMap String Nat compare :=
  loop records.toList ∅ fun counts (_, record) => countChild counts record

/-- Auxiliary records hanging off a proven batch, with nothing below them, join it. -/
def assignTails (records : Records) (members : Members) : Except String Members := do
  let calls ← callIndex records members
  let batches := provenBatches records members calls
  let counts := childCounts records
  loopM (records.keys.filter fun id => auxiliary records[id]! && !counts.contains id)
    members fun members id =>
      let (path, anchor) := tailPath records counts (records.size + 1) [] (some id)
      match anchor with
      | none => .ok members
      | some anchor =>
          let group := members[anchor]!
          if batches.contains group = false then .ok members
          else
            loopM path members fun members id => do
              ensure (sameOwner records[id]! records[anchor]!)
                "Claude auxiliary tail ownership conflicts"
              return members.insert id group

/-- The records of every response identity, each list in key order. -/
def responses (records : Records) : Except String (ExtTreeMap String (List String) compare) :=
  loopM records.toList ∅ fun responses (id, record) => do
    validateBlocks record
    if typeOf record = some "assistant" then
      match record["message"]["id"].asStr with
      | some response =>
          ensure (response ≠ "") "Claude response identity missing"
          return responses.alter response fun ids => some (ids.getD [] ++ [id])
      | none => return responses
    else return responses

def membership (records : Records) (sources : ResultSources) : Except String Members := do
  let members : Members := records.map fun id _ => id
  let responses ← responses records
  let members ← loopM responses.toList members fun members (_, ids) =>
    assignResponse records ids members
  let members ← assignResults records members sources
  let members ← assignBridges records members
  assignTails records members

/-! ### The quotient -/

/-- The batch of the record's parent. -/
def batchParent (members : Members) (record : Value) : Option String :=
  (parentOf record).map fun id => members[id]!

/-- The batch above each batch.  Two different ones are an ambiguity. -/
def quotientParents (records : Records) (members : Members) :
    Except String (BatchParents) :=
  loopM records.toList ∅ fun parents (id, record) => do
    let group := members[id]!
    let parent := batchParent members record
    if parent = some group then return parents
    match parents[group]? with
    | some previous => ensure (previous = parent) ambiguous
    | none => .ok ()
    return parents.insert group parent

/-- The batches from `current` up to a root. -/
def selectedGroups (parents : BatchParents)
    (selected : ExtTreeSet String compare) (current : Option String) :
    Except String (ExtTreeSet String compare) :=
  match current with
  | none => .ok selected
  | some group =>
      if _hs : selected.contains group = true then
        .error "Claude authoritative batch ancestry cycles"
      else
        match _hp : parents[group]? with
        | none => .error "Claude authoritative batch parent missing"
        | some parent => selectedGroups parents (selected.insert group) parent
termination_by remaining parents fun group => !selected.contains group
decreasing_by
  exact remaining_insert_lt (ExtTreeMap.isSome_getElem?_iff_mem.mp (by simp [_hp]))
    (Bool.eq_false_iff.mpr _hs)

/-- One batch below each batch.  Two are an ambiguity. -/
def quotientChildren (parents : BatchParents) :
    Except String Children :=
  loopM parents.toList ∅ fun children (group, parent) => do
    ensure (!children.contains parent) ambiguous
    return children.insert parent group

def quotient (records : Records) (members : Members) (selector : Option String) :
    Except String Children := do
  let parents ← quotientParents records members
  match selector with
  | none => quotientChildren parents
  | some selector =>
      let group ← context "Claude authoritative leaf identity missing" members[selector]?
      let selected ← selectedGroups parents ∅ (some group)
      quotientChildren (parents.filter fun group _ => selected.contains group)

/-- The unselected quotient, or the one the provider's leaf selects when that is ambiguous. -/
def selectQuotient (records : Records) (members : Members)
    (selector : Except String (Option String)) : Except String (Children × Bool) :=
  match quotient records members none with
  | .ok children => .ok (children, false)
  | .error ambiguity => do
      match ← selector with
      | some selector => return (← quotient records members (some selector), true)
      | none => .error ambiguity

/-! ### Expansion -/

/-- The records of a batch without an internal parent, and the internal children of each. -/
def internalEdges (ids : List String) (records : Records) (members : Members) :
    ExtTreeMap String (List String) compare × List String :=
  loop ids (∅, []) fun (children, roots) id =>
    match (parentOf records[id]!).filter fun parent => members[parent]! = members[id]! with
    | some parent => (children.alter parent fun cs => some (cs.getD [] ++ [id]), roots)
    | none => (children, roots ++ [id])

/-- Source positions first, then identities. -/
def comparePosition : Nat × String → Nat × String → Ordering :=
  compareLex (compareOn (·.1)) (compareOn (·.2))

instance : TransCmp comparePosition := by unfold comparePosition; infer_instance

/-- Take the earliest ready record, then its children become ready.  Every record becomes ready
once, so a batch of `n` records takes `n` turns; a further turn would output more than the batch,
which `expand` refuses. -/
def expandLoop (positions : ExtTreeMap String Nat compare)
    (children : ExtTreeMap String (List String) compare) :
    Nat → ExtTreeSet (Nat × String) comparePosition → List String → List String
  | 0, _, output => output
  | fuel + 1, ready, output =>
      match ready.toList.head? with
      | none => output
      | some (position, id) =>
          expandLoop positions children fuel
            (loop ((children[id]?).getD []) (ready.erase (position, id))
              fun ready child => ready.insert (positions[child]!, child))
            (output ++ [id])

/-- The place of every record in its batch. -/
def positionsOf (ids : List String) : ExtTreeMap String Nat compare :=
  loop ids.zipIdx ∅ fun positions (id, index) => positions.insert id index

/-- The records of a batch, parents before children, otherwise in source order. -/
def expand (ids : List String) (records : Records) (members : Members) :
    Except String (List String) := do
  let positions := positionsOf ids
  let (children, roots) := internalEdges ids records members
  let ready : ExtTreeSet (Nat × String) comparePosition :=
    loop roots ∅ fun ready id => ready.insert (positions[id]!, id)
  let output := expandLoop positions children (ids.length + 1) ready []
  ensure (output.length = ids.length) "Claude response batch ancestry contains a cycle"
  return output

/-! ### The chain -/

/-- The records of each batch in source order. -/
def groupsOf (records : Records) (members : Members) (order : List String) :
    ExtTreeMap String (List String) compare :=
  loop (order.filter fun id => records.contains id) ∅ fun groups id =>
    groups.alter members[id]! fun ids => some (ids.getD [] ++ [id])

/-- Move the records named by `ids` to the output. -/
def emit (ids : List String) (records : Records) (output : List Value) :
    Except String (Records × List Value) :=
  loopM ids (records, output) fun (records, output) id => do
    let record ← context "Claude batch identity missing" records[id]?
    return (records.erase id, output ++ [record])

theorem size_erase_lt {β : Type} {groups : ExtTreeMap String β compare} {group : String} {b : β}
    (h : groups[group]? = some b) : (groups.erase group).size < groups.size := by
  have hm : group ∈ groups := ExtTreeMap.isSome_getElem?_iff_mem.mp (by simp [h])
  have hne : groups.size ≠ 0 := fun h0 => by
    rw [ExtTreeMap.eq_empty_iff_size_eq_zero.mpr h0] at hm
    exact ExtTreeMap.not_mem_empty hm
  rw [ExtTreeMap.size_erase, if_pos (ExtTreeMap.mem_iff_contains.mp hm)]
  omega

/-- Emit the batch `current`, then the batch below it, until there is none. -/
def walkGroups (members : Members) (children : Children) (current : Option String)
    (groups : ExtTreeMap String (List String) compare) (records : Records) (output : List Value) :
    Except String (ExtTreeMap String (List String) compare × List Value) :=
  match current with
  | none => .ok (groups, output)
  | some group =>
      match _h : groups[group]? with
      | none => .error "Claude native ancestry contains a cycle"
      | some ids => do
          let order ← expand ids records members
          let (records, output) ← emit order records output
          walkGroups members children children[some group]? (groups.erase group) records output
termination_by groups.size
decreasing_by exact size_erase_lt _h

/-- Every result of a retained call comes after that call. -/
def validateCausalOrder (records : List Value) : Except String Unit := do
  let retainedCalls := addCalls ∅
    ((records.filter fun record => typeOf record = some "assistant").flatMap toolUses)
  let _ ← loopM records (∅ : ExtTreeSet String compare) fun seen record => do
    if typeOf record = some "assistant" then return addCalls seen (toolUses record)
    else if typeOf record = some "user" then
      ensure ((toolResults record).all fun id => !retainedCalls.contains id || seen.contains id)
        "Claude tool result precedes its retained native call; read it in the original terminal"
      return seen
    else return seen
  return ()

def chain (records : Records) (order : List String) (sources : ResultSources)
    (selector : Except String (Option String)) : Except String (List Value) := do
  let members ← membership records sources
  let groups := groupsOf records members order
  let (children, selectedByProvider) ← selectQuotient records members selector
  let groups :=
    if selectedByProvider then groups.filter fun id _ => children.toList.any fun (_, child) => child = id else groups
  let (groups, output) ←
    walkGroups members children children[(none : Option String)]? groups records []
  ensure groups.isEmpty
    "Claude native ancestry is disconnected or cyclic; read it in the original terminal"
  validateCausalOrder output
  return output

end Pikamux.Claude
