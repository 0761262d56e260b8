import Pikamux.Claude.Linear

/-!
# Claude — Essence

What `chain` and the steps before it read of a record.  `essence` reduces a record to a fixed set
of fields; every step gives the same answer on the reduced records, and the steps that return
records return the reduced ones.  Two histories with the same essence are therefore reconstructed
alike (`chain_essence`, `compact_essence`, `pruneAttachments_essence`).
-/

namespace Pikamux.Claude

open Std Support Json

/-! ### The essence of a value -/

/-- A string, or `null` for anything else. -/
def strOrNull : Value → Value
  | .string s => .string s
  | _ => .null

/-- A boolean, or `null` for anything else. -/
def boolOrNull : Value → Value
  | .bool b => .bool b
  | _ => .null

@[simp] theorem asStr_strOrNull (v : Value) : (strOrNull v).asStr = v.asStr := by
  cases v <;> rfl

@[simp] theorem asBool_boolOrNull (v : Value) : (boolOrNull v).asBool = v.asBool := by
  cases v <;> rfl

/-- A string that is one of `known`, or `null` for anything else. -/
def knownOrNull (known : List String) : Value → Value
  | .string s => if s ∈ known then .string s else .null
  | _ => .null

theorem asStr_knownOrNull {known : List String} {v : Value} {s : String} (h : s ∈ known) :
    (knownOrNull known v).asStr = some s ↔ v.asStr = some s := by
  cases v with
  | string t =>
      by_cases ht : t ∈ known
      · simp [knownOrNull, ht]
      · simp only [knownOrNull, if_neg ht, Value.asStr_null, Value.asStr_string, reduceCtorEq,
          Option.some.injEq, false_iff]
        exact fun e => ht (e ▸ h)
  | _ => simp [knownOrNull, Value.asStr]

def blockTypes : List String := ["tool_use", "tool_result"]

def roles : List String := ["assistant", "user"]

def essenceBlock (v : Value) : Value :=
  .object [("id", strOrNull v["id"]), ("tool_use_id", strOrNull v["tool_use_id"]),
    ("type", knownOrNull blockTypes v["type"])]

def essenceContent : Value → Value
  | .array items => .array (items.map essenceBlock)
  | _ => .null

def essenceMessage : Value → Value
  | .null => .null
  | v =>
      .object [("content", essenceContent v["content"]), ("id", strOrNull v["id"]),
        ("role", knownOrNull roles v["role"])]

/-- Replace every field of an object by a function of its key and value. -/
def mapFields (f : String → Value → Value) : Value → Value
  | .object fields => .object (fields.map fun e => (e.1, f e.1 e.2))
  | _ => .null

def essenceIds : Value → Value
  | .array items => .array (items.map strOrNull)
  | _ => .null

/-- Of `preservedMessages`, the list of uuids and the strings. -/
def essenceList : Value → Value :=
  mapFields fun key v => if key = "uuids" then essenceIds v else strOrNull v

/-- Of compaction metadata, the keys and the two preservation schemas. -/
def essenceCompact : Value → Value :=
  mapFields fun key v =>
    if key = "preservedMessages" then essenceList v
    else if key = "preservedSegment" then mapFields (fun _ => strOrNull) v
    else .null

/-- The fields a record reduced to its essence has. -/
def essenceFields (record : Value) : List (String × Value) :=
  [("agentId", record["agentId"]), ("compactMetadata", essenceCompact record["compactMetadata"]),
    ("isMeta", boolOrNull record["isMeta"]), ("isSidechain", record["isSidechain"]),
    ("message", essenceMessage record["message"]), ("parentUuid", strOrNull record["parentUuid"]),
    ("subtype", strOrNull record["subtype"]), ("type", strOrNull record["type"]),
    ("uuid", strOrNull record["uuid"])]

/-- A record reduced to what reconstruction reads.  `null` is reduced as an object without fields,
which assignment makes of it. -/
def essence (record : Value) : Value :=
  match record with
  | .object _ | .null => .object (essenceFields record)
  | v => v

section Read

variable {r : Value}

theorem essence_getElem {key : String} {f : Value → Value} (hf : f .null = .null)
    (h : (Value.object (essenceFields r))[key] = f r[key]) : (essence r)[key] = f r[key] := by
  cases r with
  | object => exact h
  | null => exact h
  | _ =>
      refine (Value.getElem_of_asObject rfl key).trans ?_
      rw [Value.getElem_of_asObject rfl key, hf]

/-- Evaluates a field of a reduced record. -/
theorem lookup_essenceFields {key : String} {v : Value}
    (h : (essenceFields r).lookup key = some v) : (Value.object (essenceFields r))[key] = v := by
  rw [Value.getElem_eq, Value.get?, h, Option.getD_some]

@[simp] theorem essence_agentId : (essence r)["agentId"] = r["agentId"] :=
  essence_getElem (f := id) rfl (lookup_essenceFields rfl)

@[simp] theorem essence_isSidechain : (essence r)["isSidechain"] = r["isSidechain"] :=
  essence_getElem (f := id) rfl (lookup_essenceFields rfl)

@[simp] theorem essence_compactMetadata :
    (essence r)["compactMetadata"] = essenceCompact r["compactMetadata"] :=
  essence_getElem rfl (lookup_essenceFields rfl)

@[simp] theorem essence_isMeta : (essence r)["isMeta"] = boolOrNull r["isMeta"] :=
  essence_getElem rfl (lookup_essenceFields rfl)

@[simp] theorem essence_message : (essence r)["message"] = essenceMessage r["message"] :=
  essence_getElem rfl (lookup_essenceFields rfl)

@[simp] theorem essence_parentUuid : (essence r)["parentUuid"] = strOrNull r["parentUuid"] :=
  essence_getElem rfl (lookup_essenceFields rfl)

@[simp] theorem essence_subtype : (essence r)["subtype"] = strOrNull r["subtype"] :=
  essence_getElem rfl (lookup_essenceFields rfl)

@[simp] theorem essence_type : (essence r)["type"] = strOrNull r["type"] :=
  essence_getElem rfl (lookup_essenceFields rfl)

@[simp] theorem essence_uuid : (essence r)["uuid"] = strOrNull r["uuid"] :=
  essence_getElem rfl (lookup_essenceFields rfl)

@[simp] theorem essenceMessage_content (v : Value) :
    (essenceMessage v)["content"] = essenceContent v["content"] := by
  cases v <;> rfl

@[simp] theorem essenceMessage_id (v : Value) : (essenceMessage v)["id"] = strOrNull v["id"] := by
  cases v <;> rfl

@[simp] theorem essenceMessage_role (v : Value) :
    (essenceMessage v)["role"] = knownOrNull roles v["role"] := by
  cases v <;> rfl

@[simp] theorem role_assistant (v : Value) :
    (knownOrNull roles v).asStr = some "assistant" ↔ v.asStr = some "assistant" :=
  asStr_knownOrNull (by decide)

@[simp] theorem role_user (v : Value) :
    (knownOrNull roles v).asStr = some "user" ↔ v.asStr = some "user" :=
  asStr_knownOrNull (by decide)

@[simp] theorem type_tool_use (v : Value) :
    (knownOrNull blockTypes v).asStr = some "tool_use" ↔ v.asStr = some "tool_use" :=
  asStr_knownOrNull (by decide)

@[simp] theorem type_tool_result (v : Value) :
    (knownOrNull blockTypes v).asStr = some "tool_result" ↔ v.asStr = some "tool_result" :=
  asStr_knownOrNull (by decide)

@[simp] theorem essenceBlock_id (v : Value) : (essenceBlock v)["id"] = strOrNull v["id"] := by
  cases v <;> rfl

@[simp] theorem essenceBlock_tool_use_id (v : Value) :
    (essenceBlock v)["tool_use_id"] = strOrNull v["tool_use_id"] := by
  cases v <;> rfl

@[simp] theorem essenceBlock_type (v : Value) :
    (essenceBlock v)["type"] = knownOrNull blockTypes v["type"] := by
  cases v <;> rfl

@[simp] theorem items_essenceContent (v : Value) :
    (essenceContent v).items = v.items.map essenceBlock := by
  cases v <;> rfl

@[simp] theorem typeOf_essence : typeOf (essence r) = typeOf r := by simp [typeOf]

@[simp] theorem parentOf_essence : parentOf (essence r) = parentOf r := by simp [parentOf]

@[simp] theorem toolUses_essence : toolUses (essence r) = toolUses r := by
  simp [toolUses, blocks, List.filter_map, List.filterMap_map, Function.comp_def]

@[simp] theorem toolResults_essence : toolResults (essence r) = toolResults r := by
  simp [toolResults, blocks, List.filter_map, List.filterMap_map, Function.comp_def]

@[simp] theorem auxiliary_essence : auxiliary (essence r) = auxiliary r := by
  simp [auxiliary]

@[simp] theorem boundary_essence : boundary (essence r) = boundary r := by
  simp [boundary]

@[simp] theorem validateBlock_essence (block : Value) :
    validateBlock (essenceBlock block) = validateBlock block := by
  simp [validateBlock]

@[simp] theorem validateBlocks_essence : validateBlocks (essence r) = validateBlocks r := by
  simp [validateBlocks, List.forM_map]

@[simp] theorem batchParent_essence (members : Members) :
    batchParent members (essence r) = batchParent members r := by
  simp [batchParent]

theorem essence_setParent (p : String) : essence (setParent r p) = setParent (essence r) p := by
  cases r with
  | object fields =>
      have hother : ∀ key : String, key ≠ "parentUuid" →
          (setParent (.object fields) p)[key] = (Value.object fields)[key] :=
        fun key hk => Value.getElem_set_ne hk
      have hparent : (setParent (.object fields) p)["parentUuid"] = .string p :=
        Value.getElem_set_self (by simp [Value.asObject])
      have hl : essence (setParent (.object fields) p) =
          .object (essenceFields (setParent (.object fields) p)) := rfl
      have hr : setParent (essence (.object fields)) p =
          .object (Value.insertField "parentUuid" (.string p) (essenceFields (.object fields))) :=
        rfl
      rw [hl, hr]
      simp only [essenceFields, Value.insertField, String.reduceEq, String.reduceLT, if_true,
        if_false, ne_eq, not_false_eq_true, hother, hparent, strOrNull]
  | null => rfl
  | _ => rfl

end Read

/-! ### Reduced records -/

/-- Every record reduced to its essence. -/
def essenceAll (M : Records) : Records := M.map fun _ record => essence record

section Maps

variable (M : Records)

@[simp] theorem essenceAll_getElem? (id : String) :
    (essenceAll M)[id]? = (M[id]?).map essence := by
  simp [essenceAll]

@[simp] theorem essenceAll_toList :
    (essenceAll M).toList = M.toList.map fun e => (e.1, essence e.2) := by
  simp [essenceAll, ExtTreeMap.toList_map]

@[simp] theorem essenceAll_keys : (essenceAll M).keys = M.keys := by
  simp [essenceAll]

@[simp] theorem essenceAll_contains (id : String) :
    (essenceAll M).contains id = M.contains id := by
  simp [essenceAll]

@[simp] theorem mem_essenceAll {id : String} : id ∈ essenceAll M ↔ id ∈ M := by
  simp [essenceAll]

@[simp] theorem essenceAll_size : (essenceAll M).size = M.size := by
  simp [essenceAll]

@[simp] theorem essenceAll_erase (id : String) :
    (essenceAll M).erase id = essenceAll (M.erase id) := by
  refine ExtTreeMap.ext_getElem? fun k => ?_
  simp only [essenceAll_getElem?, ExtTreeMap.getElem?_erase]
  split <;> rfl

/-- A missing record and a reduced missing record read alike. -/
theorem essenceAll_get! {α : Type} (f : Value → α) (hf : ∀ r, f (essence r) = f r) (id : String) :
    f (essenceAll M)[id]! = f M[id]! := by
  rw [ExtTreeMap.getElem!_eq_get!_getElem?, ExtTreeMap.getElem!_eq_get!_getElem?,
    essenceAll_getElem?]
  cases M[id]? with
  | none => rfl
  | some r => exact hf r

@[simp] theorem typeOf_get! (id : String) : typeOf (essenceAll M)[id]! = typeOf M[id]! :=
  essenceAll_get! M typeOf (fun _ => typeOf_essence) id

@[simp] theorem parentOf_get! (id : String) : parentOf (essenceAll M)[id]! = parentOf M[id]! :=
  essenceAll_get! M parentOf (fun _ => parentOf_essence) id

@[simp] theorem auxiliary_get! (id : String) :
    auxiliary (essenceAll M)[id]! = auxiliary M[id]! :=
  essenceAll_get! M auxiliary (fun _ => auxiliary_essence) id

@[simp] theorem boundary_get! (id : String) : boundary (essenceAll M)[id]! = boundary M[id]! :=
  essenceAll_get! M boundary (fun _ => boundary_essence) id

@[simp] theorem toolUses_get! (id : String) : toolUses (essenceAll M)[id]! = toolUses M[id]! :=
  essenceAll_get! M toolUses (fun _ => toolUses_essence) id

@[simp] theorem sameOwner_get!_left (id : String) (r : Value) :
    sameOwner (essenceAll M)[id]! r = sameOwner M[id]! r :=
  essenceAll_get! M (sameOwner · r) (fun _ => by simp [sameOwner]) id

@[simp] theorem sameOwner_get!_right (id : String) (r : Value) :
    sameOwner r (essenceAll M)[id]! = sameOwner r M[id]! :=
  essenceAll_get! M (sameOwner r ·) (fun _ => by simp [sameOwner]) id

@[simp] theorem sameOwner_essence_left (r r' : Value) :
    sameOwner (essence r) r' = sameOwner r r' := by
  simp [sameOwner]

@[simp] theorem sameOwner_essence_right (r r' : Value) :
    sameOwner r (essence r') = sameOwner r r' := by
  simp [sameOwner]

@[simp] theorem role_get! (id : String) :
    ((essenceAll M)[id]!)["message"]["role"].asStr = some "assistant" ↔
      (M[id]!)["message"]["role"].asStr = some "assistant" :=
  iff_of_eq (essenceAll_get! M (fun r => r["message"]["role"].asStr = some "assistant")
    (fun _ => by simp) id)

@[simp] theorem compactMetadata_get! (id : String) :
    ((essenceAll M)[id]!)["compactMetadata"] = essenceCompact (M[id]!)["compactMetadata"] := by
  rw [ExtTreeMap.getElem!_eq_get!_getElem?, ExtTreeMap.getElem!_eq_get!_getElem?,
    essenceAll_getElem?]
  cases M[id]? with
  | none => rfl
  | some r => exact essence_compactMetadata

/-! ### Membership -/

@[simp] theorem responseKey_essence (id : String) (r : Value) :
    responseKey id (essence r) = responseKey id r := by
  simp [responseKey]

@[simp] theorem responseCalls_essence : responseCalls (essenceAll M) = responseCalls M := by
  simp [responseCalls, List.foldl_map]

@[simp] theorem sourceResultVerified_essence (r parent : Value) (id : String)
    (calls : ResponseCalls) :
    sourceResultVerified (essence r) id (essence parent) calls =
      sourceResultVerified r id parent calls := by
  simp [sourceResultVerified]

theorem resultSources_essence : resultSources (essenceAll M) = resultSources M := by
  refine ExtTreeMap.ext_getElem? fun k => ?_
  simp only [resultSources, ExtTreeMap.getElem?_filterMap, essenceAll_getElem?,
    responseCalls_essence]
  cases M[k]? with
  | none => rfl
  | some r => simp [Option.any_map]

@[simp] theorem callIndex_essence (members : Members) :
    callIndex (essenceAll M) members = callIndex M members := by
  simp [callIndex, List.foldlM_map]

@[simp] theorem provenBatches_essence (members : Members) (calls : Calls) :
    provenBatches (essenceAll M) members calls = provenBatches M members calls := by
  simp [provenBatches, List.foldl_map]

@[simp] theorem childCounts_essence : childCounts (essenceAll M) = childCounts M := by
  simp [childCounts, countChild, List.foldl_map]

@[simp] theorem responses_essence : responses (essenceAll M) = responses M := by
  simp [responses, List.foldlM_map]

@[simp] theorem assignResponse_essence (ids : List String) (members : Members) :
    assignResponse (essenceAll M) ids members = assignResponse M ids members := by
  simp [assignResponse]

@[simp] theorem assignResults_essence (members : Members) (sources : ResultSources) :
    assignResults (essenceAll M) members sources = assignResults M members sources := by
  simp [assignResults, List.foldlM_map]

@[simp] theorem auxiliaryAnchor_essence (anchors : ExtTreeMap String (Option String) compare)
    (seen : ExtTreeSet String compare) (path : List String) (current : Option String) :
    auxiliaryAnchor (essenceAll M) anchors seen path current =
      auxiliaryAnchor M anchors seen path current := by
  fun_induction auxiliaryAnchor M anchors seen path current with
  | case1 => rw [auxiliaryAnchor]
  | case2 _ _ _ _ h => rw [auxiliaryAnchor]; simp [h]
  | case3 _ _ _ h ha hs => rw [auxiliaryAnchor]; simp [h, ha, hs]
  | case4 _ _ _ h ha hs ih => rw [auxiliaryAnchor]; simp [h, ha, hs, ih]
  | case5 _ _ _ h ha => rw [auxiliaryAnchor]; simp [h, ha]

@[simp] theorem auxiliaryAnchors_essence : auxiliaryAnchors (essenceAll M) = auxiliaryAnchors M := by
  simp [auxiliaryAnchors]

@[simp] theorem assignBridge_essence (r : Value) (group : String) (members : Members)
    (current : String) :
    assignBridge (essenceAll M) (essence r) group members current =
      assignBridge M r group members current := by
  fun_induction assignBridge M r group members current with
  | case1 _ _ h ho parent hp ih => rw [assignBridge]; simp [h, ho, hp, ih]
  | case2 _ _ h ho hp => rw [assignBridge]; simp [h, ho, hp]
  | case3 _ _ h ho => rw [assignBridge]; simp [h, ho]
  | case4 _ _ h => rw [assignBridge]; simp [h]

@[simp] theorem assignBridges_essence (members : Members) :
    assignBridges (essenceAll M) members = assignBridges M members := by
  simp [assignBridges, List.filter_map, List.foldlM_map, Function.comp_def]

@[simp] theorem tailPath_essence (counts : ExtTreeMap String Nat compare) (fuel : Nat)
    (path : List String) (current : Option String) :
    tailPath (essenceAll M) counts fuel path current = tailPath M counts fuel path current := by
  induction fuel generalizing path current with
  | zero => rfl
  | succ fuel ih =>
      cases current with
      | none => rfl
      | some id => simp [tailPath, ih]

@[simp] theorem assignTails_essence (members : Members) :
    assignTails (essenceAll M) members = assignTails M members := by
  simp [assignTails]

theorem membership_essence (sources : ResultSources) :
    membership (essenceAll M) sources = membership M sources := by
  have hid : (essenceAll M).map (fun id _ => id) = M.map fun id _ => id := by
    refine ExtTreeMap.ext_getElem? fun k => ?_
    simp only [ExtTreeMap.getElem?_map, essenceAll_getElem?]
    cases M[k]? <;> rfl
  simp [membership, hid]

/-! ### The quotient and the chain -/

@[simp] theorem quotient_essence (members : Members) (leaf : Option String) :
    quotient (essenceAll M) members leaf = quotient M members leaf := by
  simp [quotient, quotientParents, List.foldlM_map]

@[simp] theorem selectQuotient_essence (members : Members)
    (selector : Except String (Option String)) :
    selectQuotient (essenceAll M) members selector = selectQuotient M members selector := by
  simp [selectQuotient]

@[simp] theorem groupsOf_essence (members : Members) (order : List String) :
    groupsOf (essenceAll M) members order = groupsOf M members order := by
  simp [groupsOf]

@[simp] theorem internalEdges_essence (ids : List String) (members : Members) :
    internalEdges ids (essenceAll M) members = internalEdges ids M members := by
  simp [internalEdges]

@[simp] theorem expand_essence (ids : List String) (members : Members) :
    expand ids (essenceAll M) members = expand ids M members := by
  simp [expand]

end Maps

theorem emit_cons (id : String) (ids : List String) (M : Records) (output : List Value) :
    emit (id :: ids) M output =
      match M[id]? with
      | some r => emit ids (M.erase id) (output ++ [r])
      | none => .error "Claude batch identity missing" := by
  simp only [emit, loopM, List.foldlM_cons]
  cases M[id]? <;> rfl

/-- Emission from reduced records emits the reduced records. -/
theorem emit_essence (ids : List String) (M : Records) (output : List Value) :
    emit ids (essenceAll M) (output.map essence) =
      (emit ids M output).map fun s => (essenceAll s.1, s.2.map essence) := by
  induction ids generalizing M output with
  | nil => rfl
  | cons id ids ih =>
      rw [emit_cons, emit_cons, essenceAll_getElem?]
      cases M[id]? with
      | none => rfl
      | some r =>
          have hout : output.map essence ++ [essence r] = (output ++ [r]).map essence := by simp
          simp only [Option.map_some, hout, essenceAll_erase, ih]

theorem walkGroups_essence (members : Members) (C : Children) (current : Option String)
    (G : ExtTreeMap String (List String) compare) (M : Records) (output : List Value) :
    walkGroups members C current G (essenceAll M) (output.map essence) =
      (walkGroups members C current G M output).map fun s => (s.1, s.2.map essence) := by
  fun_induction walkGroups members C current G M output with
  | case1 => rw [walkGroups]; rfl
  | case2 G M output g h =>
      rw [walkGroups]
      split
      · rfl
      case h_2 ids h' =>
        rw [h] at h'
        cases h'
  | case3 G M output g ids h ih =>
      rw [walkGroups]
      split
      case h_1 h' =>
        rw [h] at h'
        cases h'
      case h_2 ids' h' =>
        obtain rfl := Option.some.inj (h.symm.trans h')
        rw [expand_essence]
        cases expand ids M members with
        | error e => rfl
        | ok out =>
            simp only [ok_bind, emit_essence]
            cases emit out M output with
            | error e => rfl
            | ok s => exact ih s.1 s.2

theorem validateCausalOrder_essence (output : List Value) :
    validateCausalOrder (output.map essence) = validateCausalOrder output := by
  simp [validateCausalOrder, List.filter_map, List.flatMap_map, List.foldlM_map,
    Function.comp_def]

/-- A chain of reduced records is the chain, reduced. -/
theorem chain_essence (M : Records) (order : List String) (sources : ResultSources)
    (selector : Except String (Option String)) :
    chain (essenceAll M) order sources selector =
      (chain M order sources selector).map fun output => output.map essence := by
  simp only [chain, membership_essence, groupsOf_essence, selectQuotient_essence]
  cases membership M sources with
  | error e => rfl
  | ok members =>
      simp only [ok_bind]
      cases selectQuotient M members selector with
      | error e => rfl
      | ok s =>
          obtain ⟨C, provider⟩ := s
          have hwalk := fun G => walkGroups_essence members C C[(none : Option String)]? G M []
          simp only [List.map_nil] at hwalk
          simp only [ok_bind, hwalk]
          cases walkGroups members C C[(none : Option String)]? _ M [] with
          | error e => rfl
          | ok s =>
              simp only [Except.map, ok_bind, validateCausalOrder_essence]
              cases ensure s.1.isEmpty _ with
              | error e => rfl
              | ok => cases validateCausalOrder s.2 <;> rfl

/-! ### Compaction -/

@[simp] theorem asObject_mapFields (f : String → Value → Value) (v : Value) :
    (mapFields f v).asObject = v.asObject.map fun fields => fields.map fun e => (e.1, f e.1 e.2) := by
  cases v <;> rfl

@[simp] theorem get?_mapFields (f : String → Value → Value) (v : Value) (key : String) :
    (mapFields f v).get? key = (v.get? key).map (f key) := by
  cases v with
  | object fields => exact Value.lookup_map f fields key
  | _ => rfl

@[simp] theorem asArray_essenceIds (v : Value) :
    (essenceIds v).asArray = v.asArray.map fun items => items.map strOrNull := by
  cases v <;> rfl

theorem fieldsOf_mapFields (f : String → Value → Value) (v : Value) (message : String) :
    fieldsOf (mapFields f v) message =
      (fieldsOf v message).map fun fields => fields.map fun e => (e.1, f e.1 e.2) := by
  simp only [fieldsOf, asObject_mapFields]
  cases v.asObject <;> rfl

theorem preservedWalk_essence (M : Records) (head : String) (seen : ExtTreeSet String compare)
    (ids : List String) (current : String) :
    preservedWalk (essenceAll M) head seen ids current = preservedWalk M head seen ids current := by
  fun_induction preservedWalk M head seen ids current with
  | case1 _ _ _ h => rw [preservedWalk, dif_pos h]
  | case2 _ _ h hm =>
      rw [preservedWalk, dif_neg h, dif_pos ((mem_essenceAll M).mpr hm)]
      exact if_pos rfl
  | case3 _ _ current h hm _ hne parent hp ih =>
      rw [preservedWalk, dif_neg h, dif_pos ((mem_essenceAll M).mpr hm)]
      simp only [if_neg hne, parentOf_get!, hp]
      exact ih
  | case4 _ _ current h hm hne hp =>
      rw [preservedWalk, dif_neg h, dif_pos ((mem_essenceAll M).mpr hm)]
      simp only [if_neg hne, parentOf_get!, hp]
  | case5 _ _ _ h hm => rw [preservedWalk, dif_neg h, dif_neg fun h => hm ((mem_essenceAll M).mp h)]

@[simp] theorem asStr_mapFields (v : Value) (key : String) :
    (mapFields (fun _ => strOrNull) v)[key].asStr = v[key].asStr := by
  rw [Value.getElem_eq, Value.getElem_eq, get?_mapFields]
  cases v.get? key with
  | none => rfl
  | some x => exact asStr_strOrNull x

theorem preservedSegment_essence (segment : Value) (M : Records) :
    preservedSegment (mapFields (fun _ => strOrNull) segment) (essenceAll M) =
      preservedSegment segment M := by
  simp only [preservedSegment, fieldsOf_mapFields, asStr_mapFields, preservedWalk_essence]
  cases fieldsOf segment _ with
  | error e => rfl
  | ok fields => simp only [Except.map, ok_bind, List.all_map, Function.comp_def]

theorem preserved_essence (metadata : Value) (M : Records) :
    preserved (essenceCompact metadata) (essenceAll M) = preserved metadata M := by
  simp only [preserved, essenceCompact, get?_mapFields]
  cases metadata.get? "preservedMessages" with
  | some list =>
      have huuids : ((essenceList list).get? "uuids").bind Value.asArray =
          ((list.get? "uuids").bind Value.asArray).map fun items => items.map strOrNull := by
        rw [essenceList, get?_mapFields]
        cases list.get? "uuids" <;> simp
      have hanchor : ((essenceList list).get? "anchorUuid").bind Value.asStr =
          (list.get? "anchorUuid").bind Value.asStr := by
        rw [essenceList, get?_mapFields]
        cases list.get? "anchorUuid" <;> simp
      simp only [Option.map_some, if_true, huuids, hanchor]
      rw [essenceList, fieldsOf_mapFields]
      cases fieldsOf list _ with
      | error e => rfl
      | ok fields =>
          simp only [Except.map, ok_bind, List.all_map, Function.comp_def]
          cases (list.get? "uuids").bind Value.asArray with
          | none => rfl
          | some items =>
              simp only [Option.map_some, context_some, ok_bind, List.mapM_map, Function.comp_def,
                asStr_strOrNull]
  | none =>
      cases hs : metadata.get? "preservedSegment" with
      | some segment => simp [preservedSegment_essence]
      | none =>
          simp only [Option.map_none, asObject_mapFields]
          cases metadata.asObject <;> simp [List.all_map, Function.comp_def]

theorem essenceAll_modify (M : Records) (id p : String) :
    (essenceAll M).modify id (fun r => setParent r p) =
      essenceAll (M.modify id fun r => setParent r p) := by
  refine ExtTreeMap.ext_getElem? fun k => ?_
  simp only [ExtTreeMap.getElem?_modify, essenceAll_getElem?]
  split
  · simp [Function.comp_def, essence_setParent]
  · rfl

theorem essenceAll_mapSet (M : Records) (c : String → Value → Prop) [∀ id r, Decidable (c id r)]
    (hc : ∀ id r, c id (essence r) ↔ c id r) (p : String) :
    (essenceAll M).map (fun id r => if c id r then setParent r p else r) =
      essenceAll (M.map fun id r => if c id r then setParent r p else r) := by
  refine ExtTreeMap.ext_getElem? fun k => ?_
  simp only [ExtTreeMap.getElem?_map, essenceAll_getElem?, Option.map_map]
  refine congrArg (Option.map · _) (funext fun r => ?_)
  simp only [Function.comp_def, hc]
  split
  · rw [essence_setParent]
  · rfl

theorem rethread_essence (M : Records) (anchor : String) (ids : List String) :
    rethread (essenceAll M) anchor ids = essenceAll (rethread M anchor ids) := by
  have hloop : ∀ (l : List String) (M : Records) (parent : String),
      loop l (essenceAll M, parent) (fun s id =>
        (s.1.modify id fun r => setParent r s.2, id)) =
      (fun s : Records × String => (essenceAll s.1, s.2))
        (loop l (M, parent) fun s id => (s.1.modify id fun r => setParent r s.2, id)) := by
    intro l
    induction l with
    | nil => exact fun _ _ => rfl
    | cons id l ih =>
        intro M parent
        simp only [loop, List.foldl_cons, essenceAll_modify] at ih ⊢
        exact ih _ _
  simp only [rethread, hloop]
  exact essenceAll_mapSet _ _ (fun id r => by simp) _

theorem eraseAll_essence (M : Records) (ids : List String) :
    loop ids (essenceAll M) (fun M id => M.erase id) =
      essenceAll (loop ids M fun M id => M.erase id) := by
  induction ids generalizing M with
  | nil => rfl
  | cons id ids ih =>
      simp only [loop, List.foldl_cons, essenceAll_erase] at ih ⊢
      exact ih _

theorem anchorPreserved_essence (order : List String) (index : Nat) (M : Records)
    (keep : ExtTreeSet String compare) (anchor : Option String) (ids : List String) :
    anchorPreserved order index (essenceAll M) keep anchor ids =
      (anchorPreserved order index M keep anchor ids).map essenceAll := by
  cases anchor with
  | none => rfl
  | some anchor =>
      simp only [anchorPreserved, essenceAll_contains, rethread_essence]
      cases ensure (M.contains anchor && !keep.contains anchor) _ with
      | error e => rfl
      | ok => cases ensure ((order.drop index).contains anchor) _ <;> rfl

/-- Compaction of reduced records reduces the compacted records. -/
theorem compact_essence (order : List String) (M : Records) :
    compact order (essenceAll M) = (compact order M).map essenceAll := by
  have hboundary : lastBoundary order (essenceAll M) = lastBoundary order M := by
    simp [lastBoundary]
  simp only [compact, hboundary]
  cases lastBoundary order M with
  | none => rfl
  | some index =>
      simp only [compactMetadata_get!, preserved_essence, essenceAll_contains]
      rw [essenceCompact, fieldsOf_mapFields]
      cases fieldsOf (M[order[index]!]!)["compactMetadata"] _ with
      | error e => rfl
      | ok fields =>
          simp only [Except.map, ok_bind, List.all_map, Function.comp_def]
          cases ensure (fields.all fun e => compactMetadataKeys.contains e.1) _ with
          | error e => rfl
          | ok =>
              cases preserved (M[order[index]!]!)["compactMetadata"] M with
              | error e => rfl
              | ok s =>
                  simp only [ok_bind]
                  cases ensure ((addCalls ∅ s.2).size = s.2.length) _ with
                  | error e => rfl
                  | ok =>
                      cases ensure (s.2.all fun id => M.contains id) _ with
                      | error e => rfl
                      | ok =>
                          simp only [ok_bind, anchorPreserved_essence]
                          cases anchorPreserved order index M (addCalls ∅ s.2) s.1 s.2 with
                          | error e => rfl
                          | ok M₁ =>
                              simp only [Except.map, ok_bind, eraseAll_essence]
                              cases s.2.getLast? with
                              | none => rfl
                              | some tail =>
                                  simp only [pure, Except.pure, Except.ok.injEq]
                                  exact essenceAll_mapSet _ _ (fun id r => by simp) _

/-! ### Ancestry checks and attachment leaves -/

theorem validateParents_essence (M : Records) :
    validateParents (essenceAll M) = validateParents M := by
  simp [validateParents, List.forM_map]

theorem cyclePath_essence (M : Records) (done path : ExtTreeSet String compare)
    (current : Option String) : cyclePath (essenceAll M) done path current =
      cyclePath M done path current := by
  fun_induction cyclePath M done path current with
  | case1 => rw [cyclePath]
  | case2 _ _ hd => rw [cyclePath, if_pos hd]
  | case3 _ _ hd hp => rw [cyclePath, if_neg hd, dif_pos hp]
  | case4 _ _ hd hp hm ih =>
      rw [cyclePath, if_neg hd, dif_neg hp, dif_pos ((mem_essenceAll M).mpr hm), parentOf_get!, ih]
  | case5 _ _ hd hp hm =>
      rw [cyclePath, if_neg hd, dif_neg hp, dif_neg fun h => hm ((mem_essenceAll M).mp h)]

theorem validateCycles_essence (M : Records) :
    validateCycles (essenceAll M) = validateCycles M := by
  simp [validateCycles, cyclePath_essence]

theorem conversationalLeaf_essence (M : Records) (seen : ExtTreeSet String compare) (id : String) :
    conversationalLeaf (essenceAll M) seen id = conversationalLeaf M seen id := by
  fun_induction conversationalLeaf M seen id with
  | case1 _ _ hs => rw [conversationalLeaf, dif_pos hs]
  | case2 _ _ hs hm ht =>
      rw [conversationalLeaf, dif_neg hs, dif_pos ((mem_essenceAll M).mpr hm), typeOf_get!,
        if_pos ht]
  | case3 _ _ hs hm ht parent hp ih =>
      rw [conversationalLeaf, dif_neg hs, dif_pos ((mem_essenceAll M).mpr hm), typeOf_get!,
        if_neg ht, parentOf_get!, hp]
      exact ih
  | case4 _ _ hs hm ht hp =>
      rw [conversationalLeaf, dif_neg hs, dif_pos ((mem_essenceAll M).mpr hm), typeOf_get!,
        if_neg ht, parentOf_get!, hp]
  | case5 _ _ hs hm =>
      rw [conversationalLeaf, dif_neg hs, dif_neg fun h => hm ((mem_essenceAll M).mp h)]

theorem pruneLoop_essence (M : Records) (counts : ExtTreeMap String Nat compare)
    (leaves : List String) :
    pruneLoop (essenceAll M) counts leaves = essenceAll (pruneLoop M counts leaves) := by
  fun_induction pruneLoop M counts leaves with
  | case1 => rw [pruneLoop]
  | case2 M counts id leaves hr ih =>
      rw [pruneLoop]
      split
      · exact ih
      case h_2 r h =>
        rw [essenceAll_getElem?, hr] at h
        cases h
  | case3 M counts id leaves r hr hp ih =>
      rw [pruneLoop]
      split
      case h_1 h =>
        rw [essenceAll_getElem?, hr] at h
        cases h
      case h_2 r' h =>
        rw [essenceAll_getElem?, hr] at h
        obtain rfl := Option.some.inj h
        rw [parentOf_essence, hp, essenceAll_erase]
        exact ih
  | case4 M counts id leaves r hr parent hp count hcond ih =>
      rw [pruneLoop]
      split
      case h_1 h =>
        rw [essenceAll_getElem?, hr] at h
        cases h
      case h_2 r' h =>
        rw [essenceAll_getElem?, hr] at h
        obtain rfl := Option.some.inj h
        rw [parentOf_essence, hp, essenceAll_erase]
        simp only [typeOf_get!]
        rw [if_pos hcond]
        exact ih
  | case5 M counts id leaves r hr parent hp count hcond ih =>
      rw [pruneLoop]
      split
      case h_1 h =>
        rw [essenceAll_getElem?, hr] at h
        cases h
      case h_2 r' h =>
        rw [essenceAll_getElem?, hr] at h
        obtain rfl := Option.some.inj h
        rw [parentOf_essence, hp, essenceAll_erase]
        simp only [typeOf_get!]
        rw [if_neg hcond]
        exact ih

/-- Pruning reduced records reduces the pruned records. -/
theorem pruneAttachments_essence (M : Records) :
    pruneAttachments (essenceAll M) = essenceAll (pruneAttachments M) := by
  simp only [pruneAttachments, childCounts_essence, essenceAll_toList, List.filter_map,
    List.map_map, Function.comp_def, typeOf_essence, pruneLoop_essence]

/-! ### After collection -/

/-- `reconstruct` from what it has collected, the provider's leaf given. -/
def reconstructFrom (order : List String) (collected : Records)
    (leaf : Except String (Option String)) : Except String (List Value) := do
  let linked ← compact order collected
  validateParents linked
  validateCycles linked
  let selector := do conversationalSelector (← leaf) linked
  chain (pruneAttachments linked) order (resultSources collected) selector

theorem reconstruct_eq_from (records : List Value) (identity : String) :
    reconstruct records identity = (collect records identity >>= fun s =>
      reconstructFrom s.1 s.2 (providerSelector records identity)) := rfl

/-- Reconstruction of reduced records is reconstruction, reduced. -/
theorem reconstructFrom_essence (order : List String) (collected : Records)
    (leaf : Except String (Option String)) :
    reconstructFrom order (essenceAll collected) leaf =
      (reconstructFrom order collected leaf).map fun output => output.map essence := by
  simp only [reconstructFrom, compact_essence, resultSources_essence]
  cases compact order collected with
  | error e => rfl
  | ok linked =>
      have hleaf : ∀ selector, conversationalSelector selector (essenceAll linked) =
          conversationalSelector selector linked := by
        intro selector
        cases selector with
        | none => rfl
        | some id => simp only [conversationalSelector, conversationalLeaf_essence]
      simp only [Except.map, ok_bind, validateParents_essence, validateCycles_essence, hleaf,
        pruneAttachments_essence]
      cases validateParents linked with
      | error e => rfl
      | ok =>
          cases validateCycles linked with
          | error e => rfl
          | ok => exact chain_essence _ _ _ _

end Pikamux.Claude
