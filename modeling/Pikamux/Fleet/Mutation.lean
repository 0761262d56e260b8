import Pikamux.Board.Ledger
import Pikamux.Fleet.Transport

/-!
# Fleet — Mutation

A node adopts and untracks conversations for another machine.  The receipt of such a request is
kept under its operation and its request id, and a request that comes again is answered from it.

* `handle_outcome` — what one request does: it leaves the service alone, or it is the first one of
  its id that has no receipt.
* `Explained` — each receipt that is kept was made by a request of its id.
* `receipt_belongs` — a receipt answers the conversation that was asked for, as long as no request
  comes with the id of another conversation's receipt; and once there is a receipt the service is
  not asked again.
-/

namespace Pikamux.Fleet.Mutation

open Support Json

def protocolName : String := "pikamux-fleet"

def protocolVersion : Nat := 2

/-! ### Requests -/

inductive Op where
  | adopt
  | untrack
  deriving DecidableEq, Repr

def Op.name : Op → String
  | adopt => "adopt"
  | untrack => "untrack"

/-- What a request for one of the operations asks for. -/
structure Mutation where
  op : Op
  provider : Provider
  sessionId : String
  requestId : String
  deriving DecidableEq, Repr

/-- A request that passed the checks. -/
inductive Checked where
  | mutation (m : Mutation)
  | other (op : String)
  deriving DecidableEq, Repr

def isVersion : Value → Bool
  | .number (.posInt n) => n == protocolVersion
  | _ => false

def fail {α : Type} (kind : FleetErrorKind) (message : String) : Except FleetError α :=
  .error ⟨kind, message⟩

/-- `Provider::from_str` -/
def parseProvider (text : String) : Option Provider :=
  let lower := String.ofList (text.toList.map Char.toLower)
  if lower = "codex" then some .codex
  else if lower = "claude" then some .claude
  else if lower = "opencode" ∨ lower = "oc" then some .opencode
  else if lower = "muse" then some .muse
  else none

def sessionChar (c : Char) : Bool :=
  c.isAlphanum || [':', '.', '_', '%', '+', '-'].contains c

def validSessionId (value : Option Value) : Option String := do
  let text ← value.bind Value.asStr
  if text = "" ∨ 128 < text.utf8ByteSize ∨ ¬ text.toList.all sessionChar then none else some text

/-- `Providers::valid_id` -/
def validId (provider : Provider) (value : String) : Bool :=
  match provider with
  | .opencode =>
      let tail := value.toList.drop 4
      value.toList.take 4 == "ses_".toList && (String.ofList tail).utf8ByteSize ≥ 4 &&
        (String.ofList tail).utf8ByteSize ≤ 124 && tail.all Char.isAlphanum
  | _ => Uuid.canonical value == some (String.ofList (value.toList.map Char.toLower))

def exactRequestIdentity (request : List (String × Value)) :
    Except FleetError (Provider × String) :=
  match (request.lookup "provider").bind Value.asStr |>.bind parseProvider with
  | none => fail .invalidRequest "Invalid exact provider identity"
  | some provider =>
      match validSessionId (request.lookup "session_id") with
      | none => fail .invalidRequest "Invalid exact conversation identity"
      | some session =>
          if validId provider session then .ok (provider, session)
          else fail .invalidRequest "Invalid exact conversation identity"

def requestUuid (request : List (String × Value)) : Except FleetError String :=
  match (request.lookup "request_id").bind Value.asStr |>.bind Uuid.canonical with
  | none => fail .invalidRequest "Mutation requires a UUID request_id"
  | some id => .ok id

/-- The fields that an operation takes. -/
def allowed (op : String) : Option (List String) :=
  let common := ["op", "protocol", "version", "expected_node_id"]
  if op = "hello" ∨ op = "quota" then some common
  else if op = "snapshot" then some (common ++ ["expert_directory", "directory_notices"])
  else if op = "candidates" then some (common ++ ["include_unconfirmed"])
  else if op = "adopt" ∨ op = "untrack" then
    some (common ++ ["provider", "session_id", "request_id"])
  else if op = "peek" then some (common ++ ["provider", "session_id", "lines"])
  else if op = "acknowledge" then
    some (common ++ ["provider", "session_id", "expected_last_event_at"])
  else none

section Handle

-- a text in an error, a stored receipt read back, and the node
variable (debug sanitize : String → String) (fromStr : String → Option Value) (nodeId : String)

def mutationOf (op : Op) (request : List (String × Value)) : Except FleetError Checked := do
  let identity ← exactRequestIdentity request
  let requestId ← requestUuid request
  return .mutation ⟨op, identity.1, identity.2, requestId⟩

def short (text : String) : String := String.ofList (text.toList.take 8)

/-- The checks of `handle_request`, with those of the two operations. -/
def check (request : Value) : Except FleetError Checked :=
  match request.asObject with
  | none => fail .invalidRequest "request must be an object"
  | some fields =>
      if (fields.lookup "protocol").bind Value.asStr ≠ some protocolName ∨
          ¬ (fields.lookup "version").any isVersion then
        fail .incompatible "Pika fleet protocol 2 required"
      else if (fields.lookup "expected_node_id").any fun v => v.asStr != some nodeId then
        fail .quarantined (sanitize ("NODE IDENTITY CHANGED: expected " ++
          (((fields.lookup "expected_node_id").bind Value.asStr).map short).getD "invalid" ++
          ", received " ++ short nodeId))
      else
        match (fields.lookup "op").bind Value.asStr with
        | none => fail .invalidRequest "Fleet operation is missing"
        | some op =>
            match allowed op with
            | none => fail .invalidRequest (sanitize ("Unsupported fleet operation " ++ debug op))
            | some keys =>
                if fields.any fun f => !keys.contains f.1 then
                  fail .invalidRequest "Fleet request contains unsupported fields"
                else if op = "adopt" then mutationOf .adopt fields
                else if op = "untrack" then mutationOf .untrack fields
                else .ok (.other op)

/-! ### Receipts -/

/-- A double as it is printed; one that is not finite prints as `null`. -/
abbrev Double := Option String

def Double.value (d : Double) : Value := (d.map fun text => .number (.float text)).getD .null

def integer (n : Int) : Value :=
  match n with
  | .ofNat n => .number (.posInt n)
  | .negSucc n => .number (.negInt (n + 1))

def optional {α : Type} (f : α → Value) (a : Option α) : Value := (a.map f).getD .null

def statusText : Status → String
  | .starting => "STARTING"
  | .needsYou => "NEEDS YOU"
  | .openTwice => "OPEN TWICE"
  | .working => "WORKING"
  | .ready => "READY"
  | .parked => "PARKED"
  | .unbound => "UNBOUND"
  | .error => "ERROR"

/-- A session, as far as it is sent. -/
structure Session where
  provider : Provider
  sessionId : String
  name : Option String := none
  cwd : Option String := none
  branch : Option String := none
  tmuxSession : Option String := none
  tmuxPane : Option String := none
  status : Status := .starting
  unread : Bool := false
  model : Option String := none
  source : String := ""
  managed : Bool := false
  error : Option String := none
  attentionReason : Option String := none
  createdAt : Double := none
  updatedAt : Double := none
  lastEventAt : Double := none
  lastActivityAt : Double := none
  live : Bool := false
  attached : Bool := false
  homeState : String := ""
  cpuPercent : Option Double := none
  rssKb : Option Int := none
  deriving DecidableEq, Repr

def Session.hasExactHome (s : Session) : Bool := s.homeState = "exact" || s.homeState = "exact-live"

/-- `session_to_wire`, without its extension; the fields stand in their order. -/
def sessionToWire (s : Session) : Value :=
  .object [("attached", .bool s.attached),
    ("attention_reason", optional .string s.attentionReason), ("branch", optional .string s.branch),
    ("cpu_percent", optional Double.value s.cpuPercent), ("created_at", s.createdAt.value),
    ("cwd", optional .string s.cwd), ("error", optional .string s.error),
    ("exact_home", .bool s.hasExactHome),
    ("identity_kind", .string (if s.sessionId.toList.take 8 = "unbound:".toList then "placeholder"
      else "conversation")),
    ("last_activity_at", s.lastActivityAt.value), ("last_event_at", s.lastEventAt.value),
    ("live", .bool s.live), ("managed", .bool s.managed), ("model", optional .string s.model),
    ("name", optional .string s.name),
    ("pane_visible", .bool (s.tmuxPane.isSome || s.tmuxSession.isSome)),
    ("provider", .string s.provider.text), ("rss_kb", optional integer s.rssKb),
    ("session_id", .string s.sessionId), ("source", .string s.source),
    ("status", .string (statusText s.status)), ("unread", .bool s.unread),
    ("updated_at", s.updatedAt.value)]

/-- What the store and the service answer while a request is handled.  A receipt that could not be
written may be there all the same. -/
structure World where
  read : Except FleetError Unit := .ok ()
  adopt : Except FleetError Session
  untrack : Except FleetError (Int × Bool)
  write : Except FleetError Unit := .ok ()
  lingers : Bool := false
  other : Except FleetError Value := .ok .null

/-- Ask the service, and make the receipt. -/
def receipt (m : Mutation) (w : World) : Except FleetError Value :=
  match m.op with
  | .adopt =>
      match w.adopt with
      | .error e => .error e
      | .ok session =>
          if session.provider ≠ m.provider ∨ session.sessionId ≠ m.sessionId then
            fail .quarantined "Adoption returned the wrong exact identity"
          else .ok (.object [("node_id", .string nodeId), ("request_id", .string m.requestId),
            ("session", sessionToWire session), ("type", .string "adopted")])
  | .untrack =>
      match w.untrack with
      | .error e => .error e
      | .ok (panes, reconciled) =>
          if panes < 0 then fail .error "Untrack returned an invalid pane count"
          else .ok (.object [("node_id", .string nodeId), ("panes_cleared", integer panes),
            ("reconciled", .bool reconciled), ("request_id", .string m.requestId),
            ("type", .string "untracked")])

/-- The table `meta`. -/
abbrev MetaStore := String → Option String

def metaKey (op : Op) (requestId : String) : String := "fleet:" ++ op.name ++ ":" ++ requestId

def corrupt : Op → String
  | .adopt => "Stored adoption receipt is corrupt"
  | .untrack => "Stored untrack receipt is corrupt"

/-- The service was asked; it did what it was asked for, and the receipt is in the store. -/
structure Performed where
  mutation : Mutation
  succeeded : Bool
  stored : Bool
  deriving DecidableEq, Repr

structure Handled where
  answer : Except FleetError Value
  performed : Option Performed

def mutate (m : Mutation) (w : World) (store : MetaStore) : Handled × MetaStore :=
  let key := metaKey m.op m.requestId
  match w.read with
  | .error e => (⟨.error e, none⟩, store)
  | .ok () =>
      match store key with
      | some saved =>
          match fromStr saved with
          | some receipt => (⟨.ok receipt, none⟩, store)
          | none => (⟨fail .error (corrupt m.op), none⟩, store)
      | none =>
          match receipt nodeId m w with
          | .error e => (⟨.error e, some ⟨m, false, false⟩⟩, store)
          | .ok receipt =>
              let kept := Function.update store key (some receipt.toText)
              match w.write with
              | .ok () => (⟨.ok receipt, some ⟨m, true, true⟩⟩, kept)
              | .error e =>
                  (⟨.error e, some ⟨m, true, w.lingers⟩⟩, if w.lingers then kept else store)

/-- `handle_request` -/
def handle (c : Value × World) (store : MetaStore) : Handled × MetaStore :=
  match check debug sanitize nodeId c.1 with
  | .error e => (⟨.error e, none⟩, store)
  | .ok (.other _) => (⟨c.2.other, none⟩, store)
  | .ok (.mutation m) => mutate fromStr nodeId m c.2 store

end Handle

/-! ### One request -/

theorem metaKey_inj {op op' : Op} {id id' : String} (h : metaKey op id = metaKey op' id') :
    op = op' ∧ id = id' := by
  have hlist := congrArg String.toList h
  cases op <;> cases op' <;> simp [metaKey, Op.name, String.toList_append] at hlist ⊢ <;>
    exact String.toList_injective hlist

/-- What a request does, by what its checks gave. -/
inductive Outcome (checked : Except FleetError Checked) (store : MetaStore) :
    Handled × MetaStore → Prop where
  /-- The service is not asked; an answer comes from a receipt that is kept. -/
  | quiet {answer : Except FleetError Value}
      (replayed : ∀ m value, checked = .ok (.mutation m) → answer = .ok value →
        (store (metaKey m.op m.requestId)).isSome) :
      Outcome checked store (⟨answer, none⟩, store)
  /-- The service is asked, and there is no receipt. -/
  | asked {m : Mutation} {answer : Except FleetError Value} {succeeded : Bool}
      (request : checked = .ok (.mutation m)) (new : store (metaKey m.op m.requestId) = none)
      (success : ∀ value, answer = .ok value → succeeded = true) :
      Outcome checked store (⟨answer, some ⟨m, succeeded, false⟩⟩, store)
  /-- The service is asked, and there is a receipt from then on. -/
  | kept {m : Mutation} {answer : Except FleetError Value} {text : String}
      (request : checked = .ok (.mutation m)) (new : store (metaKey m.op m.requestId) = none) :
      Outcome checked store (⟨answer, some ⟨m, true, true⟩⟩,
        Function.update store (metaKey m.op m.requestId) (some text))

theorem mutate_outcome {checked : Except FleetError Checked} {m : Mutation}
    (hchecked : checked = .ok (.mutation m)) (fromStr : String → Option Value) (nodeId : String)
    (w : World) (store : MetaStore) :
    Outcome checked store (mutate fromStr nodeId m w store) := by
  rw [mutate]
  cases hread : w.read with
  | error e => exact .quiet fun _ _ _ hvalue => nomatch hvalue
  | ok _ =>
      cases hsaved : store (metaKey m.op m.requestId) with
      | some saved =>
          have hsome : ∀ m', checked = .ok (.mutation m') →
              (store (metaKey m'.op m'.requestId)).isSome := by
            intro m' hm'
            cases hchecked.symm.trans hm'
            rw [hsaved]
            rfl
          cases hvalue : fromStr saved with
          | none =>
              simp only [hvalue]
              exact .quiet fun m' _ hm' _ => hsome m' hm'
          | some value =>
              simp only [hvalue]
              exact .quiet fun m' _ hm' _ => hsome m' hm'
      | none =>
          cases hreceipt : receipt nodeId m w with
          | error e => exact .asked hchecked hsaved fun _ hvalue => nomatch hvalue
          | ok value =>
              cases hwrite : w.write with
              | ok _ => exact .kept hchecked hsaved
              | error e =>
                  cases hlingers : w.lingers with
                  | false => exact .asked hchecked hsaved fun _ _ => rfl
                  | true => exact .kept hchecked hsaved

theorem mutate_replayed {fromStr : String → Option Value} {nodeId saved : String} {m : Mutation}
    {w : World} {store : MetaStore} {value : Value} (hread : w.read = .ok ())
    (hsaved : store (metaKey m.op m.requestId) = some saved) (hvalue : fromStr saved = some value) :
    mutate fromStr nodeId m w store = (⟨.ok value, none⟩, store) := by
  simp only [mutate, hread, hsaved, hvalue]

theorem handle_outcome (debug sanitize : String → String) (fromStr : String → Option Value)
    (nodeId : String) (c : Value × World) (store : MetaStore) :
    Outcome (check debug sanitize nodeId c.1) store
      (handle debug sanitize fromStr nodeId c store) := by
  rw [handle]
  cases hchecked : check debug sanitize nodeId c.1 with
  | error e => exact .quiet fun _ _ hm => nomatch hm
  | ok checked =>
      cases checked with
      | other op => exact .quiet fun _ _ hm => nomatch hm
      | mutation m => exact mutate_outcome rfl fromStr nodeId c.2 store

/-! ### Runs -/

/-- The rest of the table may change between requests. -/
def Elsewhere (store store' : MetaStore) : Prop :=
  ∀ op id, store' (metaKey op id) = store (metaKey op id)

/-- No receipt is kept yet. -/
def Blank (store : MetaStore) : Prop := ∀ op id, store (metaKey op id) = none

section Runs

variable (debug sanitize : String → String) (fromStr : String → Option Value) (nodeId : String)

abbrev Handling := Entry MetaStore (Value × World) Handled

/-- Requests that a node handled one after the other. -/
def Run (entries : List Handling) (store : MetaStore) : Prop :=
  ∃ start, Blank start ∧
    History (handle debug sanitize fromStr nodeId) Elsewhere start entries store

/-- What a request asks for. -/
def Asks (e : Handling) (m : Mutation) : Prop :=
  check debug sanitize nodeId e.call.1 = .ok (.mutation m)

/-- A request that is answered with a receipt asked for what the service did in it, or in an earlier
one of its id. -/
def Belongs (pre : List Handling) (e : Handling) : Prop :=
  ∀ m value, Asks debug sanitize nodeId e m → e.result.answer = .ok value →
    ∃ e' ∈ pre ++ [e], ∃ stored, e'.result.performed = some ⟨m, true, stored⟩

/-- A receipt that is kept under the request's operation and id is that of the same conversation. -/
def Fits (pre : List Handling) (e : Handling) : Prop :=
  ∀ m, Asks debug sanitize nodeId e m → ∀ e' ∈ pre, ∀ m',
    e'.result.performed = some ⟨m', true, true⟩ → m'.op = m.op → m'.requestId = m.requestId → m' = m

/-- Once there is a receipt, its operation is not performed again for its id. -/
def Once (e : Handling) (post : List Handling) : Prop :=
  ∀ m, e.result.performed = some ⟨m, true, true⟩ → ∀ e' ∈ post, ∀ p,
    e'.result.performed = some p → p.mutation.op = m.op → p.mutation.requestId ≠ m.requestId

/-- The receipts that are kept, and the requests that made them. -/
structure Explained (entries : List Handling) (store : MetaStore) : Prop where
  made : ∀ op id, (store (metaKey op id)).isSome → ∃ e ∈ entries, ∃ m,
    e.result.performed = some ⟨m, true, true⟩ ∧ m.op = op ∧ m.requestId = id
  kept : ∀ e ∈ entries, ∀ m, e.result.performed = some ⟨m, true, true⟩ →
    (store (metaKey m.op m.requestId)).isSome

theorem Explained.step {entries : List Handling} {store : MetaStore}
    {checked : Except FleetError Checked} {c : Value × World} {r : Handled × MetaStore}
    (h : Explained entries store) (hr : Outcome checked store r) :
    Explained (entries ++ [⟨store, c, r.1⟩]) r.2 := by
  have hearlier : ∀ op id, (store (metaKey op id)).isSome →
      ∃ e ∈ entries ++ [⟨store, c, r.1⟩], ∃ m, e.result.performed = some ⟨m, true, true⟩ ∧
        m.op = op ∧ m.requestId = id := by
    intro op id hsome
    obtain ⟨e, he, hmade⟩ := h.made op id hsome
    exact ⟨e, List.mem_append_left _ he, hmade⟩
  cases hr with
  | quiet _ =>
      refine ⟨hearlier, ?_⟩
      intro e he m hm
      rcases List.mem_append.mp he with he | he
      · exact h.kept e he m hm
      · cases List.mem_singleton.mp he
        cases hm
  | asked _ _ _ =>
      refine ⟨hearlier, ?_⟩
      intro e he m hm
      rcases List.mem_append.mp he with he | he
      · exact h.kept e he m hm
      · cases List.mem_singleton.mp he
        cases hm
  | @kept m answer text _ _ =>
      constructor
      · intro op id hsome
        by_cases hkey : metaKey op id = metaKey m.op m.requestId
        · obtain ⟨hop, hid⟩ := metaKey_inj hkey
          exact ⟨_, List.mem_append_right _ (List.mem_singleton_self _), m, rfl, hop.symm, hid.symm⟩
        · simp only [Function.update_of_ne hkey] at hsome
          exact hearlier op id hsome
      · intro e he m' hm'
        by_cases hkey : metaKey m'.op m'.requestId = metaKey m.op m.requestId
        · simp [hkey]
        · simp only [Function.update_of_ne hkey]
          rcases List.mem_append.mp he with he | he
          · exact h.kept e he m' hm'
          · cases List.mem_singleton.mp he
            cases hm'
            exact absurd rfl hkey

variable {debug sanitize fromStr nodeId} {entries pre post : List Handling} {e : Handling}
  {store start : MetaStore}

theorem explained (hblank : Blank start)
    (h : History (handle debug sanitize fromStr nodeId) Elsewhere start entries store) :
    Explained entries store := by
  refine h.invariant_entries Explained ⟨?_, ?_⟩ ?_ ?_
  · intro op id hsome
    rw [hblank op id] at hsome
    cases hsome
  · intro e he
    cases he
  · intro es u c _ hes
    exact hes.step (handle_outcome debug sanitize fromStr nodeId c u)
  · intro es u u' _ helsewhere hes
    refine ⟨fun op id hsome => hes.made op id ?_, fun e he m hm => ?_⟩
    · rwa [helsewhere op id] at hsome
    · rw [helsewhere]
      exact hes.kept e he m hm

theorem Run.belongs (h : Run debug sanitize fromStr nodeId (pre ++ e :: post) store)
    (hfits : Fits debug sanitize nodeId pre e) : Belongs debug sanitize nodeId pre e := by
  obtain ⟨start, hblank, hrun⟩ := h
  obtain ⟨hpre, hresult, -⟩ := hrun.split
  have hexplained := explained hblank hpre
  have houtcome := handle_outcome debug sanitize fromStr nodeId e.call e.before
  intro m value hasks hvalue
  have hself : e ∈ pre ++ [e] := List.mem_append_right _ (List.mem_singleton_self e)
  rw [hresult] at hvalue
  generalize handle debug sanitize fromStr nodeId e.call e.before = r at houtcome hresult hvalue
  cases houtcome with
  | quiet hreplayed =>
      obtain ⟨e', he', m', hm', hop, hid⟩ := hexplained.made _ _ (hreplayed m value hasks hvalue)
      cases hfits m hasks e' he' m' hm' hop hid
      exact ⟨e', List.mem_append_left _ he', true, hm'⟩
  | asked hrequest _ hsuccess =>
      cases hrequest.symm.trans hasks
      cases hsuccess value hvalue
      exact ⟨e, hself, false, by rw [hresult]⟩
  | kept hrequest _ =>
      cases hrequest.symm.trans hasks
      exact ⟨e, hself, true, by rw [hresult]⟩

theorem Run.once (h : Run debug sanitize fromStr nodeId (pre ++ e :: post) store) :
    Once e post := by
  obtain ⟨start, hblank, hrun⟩ := h
  intro m hm e' he' p hp hop hid
  obtain ⟨mid, rest, rfl⟩ := List.append_of_mem he'
  rw [← List.cons_append, ← List.append_assoc] at hrun
  obtain ⟨hpre, hresult, -⟩ := hrun.split
  have hkept := (explained hblank hpre).kept e (by simp) m hm
  have houtcome := handle_outcome debug sanitize fromStr nodeId e'.call e'.before
  rw [hresult] at hp
  generalize handle debug sanitize fromStr nodeId e'.call e'.before = r at houtcome hp
  cases houtcome with
  | quiet _ => cases hp
  | asked _ hnew _ =>
      cases hp
      rw [← hop, ← hid, hnew] at hkept
      cases hkept
  | kept _ hnew =>
      cases hp
      rw [← hop, ← hid, hnew] at hkept
      cases hkept

/-- Receipts belong to what was asked for as long as no request comes with the id of another
conversation's receipt; and no receipt's operation is performed again for its id. -/
theorem receipt_belongs (h : Run debug sanitize fromStr nodeId entries store) :
    ((∀ pre e post, entries = pre ++ e :: post → Fits debug sanitize nodeId pre e) →
      ∀ pre e post, entries = pre ++ e :: post → Belongs debug sanitize nodeId pre e) ∧
    ∀ pre e post, entries = pre ++ e :: post → Once e post := by
  constructor
  · intro hfits pre e post hsplit
    subst hsplit
    exact h.belongs (hfits pre e post rfl)
  · intro pre e post hsplit
    subst hsplit
    exact h.once

end Runs

/-! ### A request id that comes again -/

def sampleNode : String := "11111111-1111-4111-8111-111111111111"

def sampleRequest : String := "22222222-2222-4222-8222-222222222222"

def firstSession : String := "33333333-3333-4333-8333-333333333333"

def secondSession : String := "44444444-4444-4444-8444-444444444444"

/-- A request to adopt a conversation of Codex, always under one id. -/
def adopting (sessionId : String) : Value :=
  .object [("op", .string "adopt"), ("protocol", .string protocolName),
    ("provider", .string "codex"), ("request_id", .string sampleRequest),
    ("session_id", .string sessionId),
    ("version", .number (.posInt protocolVersion))]

/-- The service adopts what it is asked for. -/
def adopts (sessionId : String) : Value × World :=
  (adopting sessionId, {
    adopt := .ok { provider := .codex, sessionId := sessionId }
    untrack := .ok (0, true) })

def firstReceipt : Value :=
  .object [("node_id", .string sampleNode), ("request_id", .string sampleRequest),
    ("session", sessionToWire { provider := .codex, sessionId := firstSession }),
    ("type", .string "adopted")]

/-- The one receipt is read back. -/
def readBack (text : String) : Option Value :=
  if text = firstReceipt.toText then some firstReceipt else none

/-- Two conversations are to be adopted, or one of them twice. -/
def sampleRun (sessionId : String) : List Handling :=
  (replay (handle id id readBack sampleNode) (fun _ => none)
    [adopts firstSession, adopts sessionId]).1

theorem check_adopting (sessionId : String)
    (h : sessionId = firstSession ∨ sessionId = secondSession) :
    check id id sampleNode (adopting sessionId) =
      .ok (.mutation ⟨.adopt, .codex, sessionId, sampleRequest⟩) := by
  rcases h with rfl | rfl <;> decide +kernel

def keptFirst : MetaStore :=
  Function.update (fun _ => none) (metaKey .adopt sampleRequest) (some firstReceipt.toText)

def firstHandling : Handling :=
  ⟨fun _ => none, adopts firstSession,
    ⟨.ok firstReceipt, some ⟨⟨.adopt, .codex, firstSession, sampleRequest⟩, true, true⟩⟩⟩

def secondHandling (sessionId : String) : Handling :=
  ⟨keptFirst, adopts sessionId, ⟨.ok firstReceipt, none⟩⟩

theorem sampleRun_eq (sessionId : String)
    (h : sessionId = firstSession ∨ sessionId = secondSession) :
    sampleRun sessionId = [firstHandling, secondHandling sessionId] := by
  have hfirst : handle id id readBack sampleNode (adopts firstSession) (fun _ => none) =
      (⟨.ok firstReceipt, some ⟨⟨.adopt, .codex, firstSession, sampleRequest⟩, true, true⟩⟩,
        keptFirst) := by
    rw [handle, adopts, check_adopting _ (.inl rfl)]
    simp [mutate, receipt, keptFirst, firstReceipt]
  have hsecond : handle id id readBack sampleNode (adopts sessionId) keptFirst =
      (⟨.ok firstReceipt, none⟩, keptFirst) := by
    have hkept : keptFirst (metaKey .adopt sampleRequest) = some firstReceipt.toText :=
      Function.update_self _ _ _
    have hread : readBack firstReceipt.toText = some firstReceipt := if_pos rfl
    rw [handle, adopts, check_adopting _ h]
    exact mutate_replayed rfl hkept hread
  simp only [sampleRun, replay, hfirst, hsecond, firstHandling, secondHandling]

theorem sample_run (sessionId : String) :
    ∃ store, Run id id readBack sampleNode (sampleRun sessionId) store :=
  ⟨_, fun _ => none, fun _ _ => rfl, History.replay _ _⟩

/-- An adoption under the id of another one is answered with the other one's receipt. -/
theorem receipt_of_another : ∃ store,
    Run id id readBack sampleNode (sampleRun secondSession) store ∧
      ∃ pre e, sampleRun secondSession = pre ++ [e] ∧ ¬ Belongs id id sampleNode pre e := by
  obtain ⟨store, hrun⟩ := sample_run secondSession
  have hall := sampleRun_eq secondSession (.inr rfl)
  refine ⟨store, hrun, [_], _, hall, ?_⟩
  intro hbelongs
  obtain ⟨e, he, stored, hperformed⟩ := hbelongs
    ⟨.adopt, .codex, secondSession, sampleRequest⟩ firstReceipt
    (check_adopting secondSession (.inr rfl)) rfl
  rcases List.mem_cons.mp he with rfl | he
  · have hne : firstSession ≠ secondSession := by decide
    have hsame : (⟨.adopt, .codex, firstSession, sampleRequest⟩ : Mutation) =
        ⟨.adopt, .codex, secondSession, sampleRequest⟩ :=
      congrArg Performed.mutation (Option.some.inj hperformed)
    exact hne (congrArg Mutation.sessionId hsame)
  · cases List.mem_singleton.mp he
    cases hperformed

/-- One adoption asked for twice. -/
theorem receipt_belongs_twice :
    Belongs id id sampleNode [firstHandling] (secondHandling firstSession) := by
  obtain ⟨store, hrun⟩ := sample_run firstSession
  have hall := sampleRun_eq firstSession (.inl rfl)
  refine (receipt_belongs hrun).1 ?_ [firstHandling] (secondHandling firstSession) [] hall
  intro pre e post hsplit m hasks e' he' m' hm' _ _
  have hcalls : ∀ e ∈ sampleRun firstSession, e.call = adopts firstSession := by
    rw [hall]
    simp [firstHandling, secondHandling]
  have hmade : ∀ e ∈ sampleRun firstSession, ∀ m', e.result.performed = some ⟨m', true, true⟩ →
      m' = ⟨.adopt, .codex, firstSession, sampleRequest⟩ := by
    rw [hall]
    simp [firstHandling, secondHandling, eq_comm]
  have he : e ∈ sampleRun firstSession := by simp [hsplit]
  have hm : m = ⟨.adopt, .codex, firstSession, sampleRequest⟩ := by
    rw [Asks, hcalls e he] at hasks
    cases (check_adopting firstSession (.inl rfl)).symm.trans hasks
    rfl
  rw [hm]
  exact hmade e' (by rw [hsplit]; exact List.mem_append_left _ he') m' hm'

end Pikamux.Fleet.Mutation
