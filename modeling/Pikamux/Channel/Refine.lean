import Pikamux.Channel.Keys
import Pikamux.Support.History
import Pikamux.Support.Release

/-!
# Channel — Refine

The ledger refines the one-use release: for each launch token and operation, every call of any
party is a step of the cell its row holds (`perform_cell`).  The invariant that carries it is that
an operation's owner row names its launch, so a text once admitted is never admitted again.
-/

namespace Pikamux.Channel

open Std Support Json

/-- A recorded call. -/
abbrev Made := Entry Ledger Call (Except String Outcome)

/-! ### Rows -/

/-- The stored operation. -/
def Ledger.operation (ledger : Ledger) (token id : String) : Option Operation :=
  match ledger.metadata[opKey token id]? with
  | some (.operation op) => some op
  | _ => none

def Operation.cell (op : Operation) : Cell String Attestation String :=
  ⟨op.text, op.released, op.reply, op.attestation⟩

/-- The cell of an operation. -/
def Ledger.cell (ledger : Ledger) (token id : String) : Option (Cell String Attestation String) :=
  (ledger.operation token id).map Operation.cell

section Rows

variable {ledger : Ledger} {binding : Binding} {token id : String} {op : Operation} {key : String}

theorem metadata_setMeta (ledger : Ledger) (key : String) (row : Row) (k : String) :
    (ledger.setMeta key row).metadata[k]? = if key = k then some row else ledger.metadata[k]? := by
  rw [Ledger.setMeta, ExtTreeMap.getElem?_insert]
  simp only [Std.compare_eq_iff_eq]

theorem operation_setMeta_ne (h : key ≠ opKey token id) (row : Row) :
    (ledger.setMeta key row).operation token id = ledger.operation token id := by
  rw [Ledger.operation, Ledger.operation, metadata_setMeta, if_neg h]

theorem operation_setMeta_self (op : Operation) :
    (ledger.setMeta (opKey token id) (.operation op)).operation token id = some op := by
  rw [Ledger.operation, metadata_setMeta, if_pos rfl]

theorem readOperation_eq_ok (hid : Canonical id) :
    readOperation ledger binding id = .ok op ↔
      Canonical binding.token ∧ ledger.operation binding.token id = some op := by
  simp only [readOperation, operationKey, bind_eq_ok, tokenOperationKey_eq_ok hid, context_eq_ok,
    Ledger.operation]
  constructor
  · rintro ⟨_, ⟨ht, rfl⟩, row, hrow, hop⟩
    refine ⟨ht, ?_⟩
    rw [hrow]
    cases row with
    | operation o => exact congrArg some (Except.ok.inj hop)
    | _ => cases hop
  · rintro ⟨ht, h⟩
    split at h
    case h_1 o ho => exact ⟨_, ⟨ht, rfl⟩, .operation o, ho, congrArg _ (Option.some.inj h)⟩
    case h_2 => cases h

theorem writeOperation_eq_ok (hid : Canonical id) {ledger' : Ledger} :
    writeOperation ledger binding id op = .ok ledger' ↔
      Canonical binding.token ∧
        ledger' = ledger.setMeta (opKey binding.token id) (.operation op) := by
  simp only [writeOperation, operationKey, bind_eq_ok, tokenOperationKey_eq_ok hid, pure_eq_ok]
  constructor
  · rintro ⟨_, ⟨ht, rfl⟩, rfl⟩
    exact ⟨ht, rfl⟩
  · rintro ⟨ht, rfl⟩
    exact ⟨_, ⟨ht, rfl⟩, rfl⟩

end Rows

/-! ### What the calls do -/

/-- A launch token is bound to one conversation.  Binding refuses another conversation for a bound
token, and only OpenCode switches one. -/
def Bound (launched : String → String) (ledger : Ledger) : Prop :=
  ∀ token thread, ledger.launches[token]? = some (.claude, thread) → launched token = thread

/-- The authority checks passed, and the route is open. -/
structure Authorised (ledger : Ledger) (binding : Binding) : Prop where
  launch : ledger.launches[binding.token]? = some (.claude, binding.thread)
  open_ : ∀ route, ledger.metadata[routeKey binding]? = some (.route route) → route.revoked = false

theorem authorised {ledger : Ledger} {binding : Binding} {u v : Unit} {route : Route}
    (h : requireAuthority ledger binding = .ok u) (hr : readRoute ledger binding = .ok route)
    (hc : checkRoute route true = .ok v) : Authorised ledger binding := by
  simp only [requireAuthority, bind_eq_ok, ensure_eq_ok] at h
  obtain ⟨_, -, _, -, _, -, _, hlaunch, -⟩ := h
  refine ⟨by simpa using hlaunch, fun r hrow => ?_⟩
  simp only [readRoute, hrow, Row.asRoute, Except.ok.injEq] at hr
  subst hr
  simp only [checkRoute, bind_eq_ok, ensure_eq_ok] at hc
  obtain ⟨_, hrevoked, -⟩ := hc
  simpa using hrevoked

section Cases

variable {ledger ledger' : Ledger} {binding : Binding} {outcome : Outcome}

theorem canonicalArguments_id {short : String} {input canonical : Value} {id : String}
    (h : canonicalArguments short input = .ok (id, canonical)) : Canonical id := by
  simp only [canonicalArguments, bind_eq_ok, parseUuid_eq_ok, pure_eq_ok, Prod.mk.injEq] at h
  obtain ⟨_, -, _, hid, _, -, _, -, rfl, -⟩ := h
  exact Canonical.of_parse hid

theorem attested_id {input : Value} {issued : Nat} {short id : String} {p : Attestation}
    (h : attested binding input issued = .ok (short, id, p)) : Canonical id := by
  simp only [attested, bind_eq_ok, pure_eq_ok, Prod.mk.injEq] at h
  obtain ⟨_, -, _, -, _, -, _, -, ⟨_, _⟩, hargs, _, -, -, rfl, -⟩ := h
  exact canonicalArguments_id hargs

/-- A successful admission finds the operation admitted, or admits it for the first time. -/
theorem admit_cases {raw text : String}
    (h : admitText binding raw text ledger = .ok (outcome, ledger')) :
    ∃ id, Uuid.canonical raw = some id ∧ Authorised ledger binding ∧
      ((outcome = .admitted false ∧
          ledger' = ledger.setMeta (threadKey binding) (.text binding.thread)) ∨
        (outcome = .admitted true ∧ Canonical binding.thread ∧ Canonical binding.token ∧
          ledger.metadata[ownerKey binding.thread id]? = none ∧
          ledger' = ((ledger.setMeta (threadKey binding) (.text binding.thread)).setMeta
            (ownerKey binding.thread id) (.text binding.token)).setMeta (opKey binding.token id)
              (.operation ⟨text, false, none, none, none, none⟩))) := by
  simp only [admitText, bind_eq_ok, parseUuid_eq_ok] at h
  obtain ⟨id, hid, _, -, _, hauth, route, hroute, _, hcheck, found, hfound, h⟩ := h
  have hcanon := Canonical.of_parse hid
  refine ⟨id, hid, authorised hauth hroute hcheck, ?_⟩
  split at h
  case isTrue =>
    rw [pure_eq_ok] at h
    cases h
    exact .inl ⟨rfl, rfl⟩
  case isFalse hf =>
    simp only [bind_eq_ok, operationOwnerKey_eq_ok hcanon, writeOperation_eq_ok hcanon,
      pure_eq_ok] at h
    obtain ⟨_, ⟨hthread, rfl⟩, _, ⟨htoken, rfl⟩, h⟩ := h
    cases h
    refine .inr ⟨rfl, hthread, htoken, ?_, rfl⟩
    simp only [alreadyAdmitted, bind_eq_ok, operationOwnerKey_eq_ok hcanon] at hfound
    obtain ⟨_, ⟨-, rfl⟩, hfound⟩ := hfound
    rw [metadata_setMeta, if_neg ownerKey_ne_threadKey.symm] at hfound
    cases hrow : ledger.metadata[ownerKey binding.thread id]? with
    | none => rfl
    | some row =>
        rw [hrow] at hfound
        simp only [bind_eq_ok, pure_eq_ok] at hfound
        obtain ⟨_, -, _, -, _, -, _, -, _, -, rfl⟩ := hfound
        exact absurd rfl hf

theorem install_cases {input : Value} {issued : Nat}
    (h : installAttestation binding input issued ledger = .ok (outcome, ledger')) :
    ∃ short id p op, attested binding input issued = .ok (short, id, p) ∧ Canonical id ∧
      Authorised ledger binding ∧ Canonical binding.token ∧
      ledger.operation binding.token id = some op ∧ outcome = .attested ∧
      ledger' = ledger.setMeta (opKey binding.token id)
        (.operation { op with attestation := some p }) := by
  simp only [installAttestation, bind_eq_ok] at h
  obtain ⟨⟨short, id, p⟩, hattested, _, hauth, route, hroute, _, hcheck, op, hop, _, -, _, -, h⟩ := h
  have hid := attested_id hattested
  simp only [writeOperation_eq_ok hid, pure_eq_ok] at h
  obtain ⟨_, ⟨htoken, rfl⟩, h⟩ := h
  cases h
  exact ⟨short, id, p, op, hattested, hid, authorised hauth hroute hcheck, htoken,
    ((readOperation_eq_ok hid).mp hop).2, rfl, rfl⟩

theorem execute_cases {short nativeId : String} {arguments : Value} {now : Nat}
    (h : executeTool binding short arguments nativeId now ledger = .ok (outcome, ledger')) :
    ∃ id canonical op op' p text u, canonicalArguments short arguments = .ok (id, canonical) ∧
      Canonical id ∧ Authorised ledger binding ∧ Canonical binding.token ∧
      ledger.operation binding.token id = some op ∧ op.attestation = some p ∧
      validateAttestation p binding short nativeId canonical now = .ok u ∧
      consume op short nativeId canonical = .ok (text, op') ∧ outcome = .executed text ∧
      ledger' = ledger.setMeta (opKey binding.token id) (.operation op') := by
  simp only [executeTool, bind_eq_ok, context_eq_ok] at h
  obtain ⟨⟨id, canonical⟩, hargs, _, hauth, route, hroute, _, hcheck, op, hop, p, hp, u, hu,
    ⟨text, op'⟩, hconsume, h⟩ := h
  have hid := canonicalArguments_id hargs
  simp only [writeOperation_eq_ok hid, pure_eq_ok] at h
  obtain ⟨_, ⟨htoken, rfl⟩, h⟩ := h
  cases h
  exact ⟨id, canonical, op, op', p, text, u, hargs, hid, authorised hauth hroute hcheck, htoken,
    ((readOperation_eq_ok hid).mp hop).2, hp, hu, hconsume, rfl, rfl⟩

theorem change_cases {update : RouteUpdate}
    (h : changeRoute binding update ledger = .ok (outcome, ledger')) :
    ∃ route, readRoute ledger binding = .ok route ∧ outcome = .changed ∧
      ledger' = ledger.setMeta (routeKey binding) (.route (update.apply route)) := by
  simp only [changeRoute, bind_eq_ok, pure_eq_ok] at h
  obtain ⟨route, hroute, h⟩ := h
  cases h
  exact ⟨route, hroute, rfl, rfl⟩

end Cases

/-! ### The invariant -/

/-- Every stored operation is owned by its launch. -/
def Owned (launched : String → String) (ledger : Ledger) : Prop :=
  ∀ token id op, Canonical token → Canonical id → ledger.operation token id = some op →
    Canonical (launched token) ∧
      ledger.metadata[ownerKey (launched token) id]? = some (.text token)

/-- A row that belongs to an operation or its owner. -/
def ChannelKey (key : String) : Prop :=
  (∃ binding, key = routeKey binding) ∨ (∃ token id, key = opKey token id) ∨
    ∃ thread id, key = ownerKey thread id

/-- What the rest of the program does between calls: it writes no row of the channel, and binds no
launch token to another conversation. -/
structure Elsewhere (launched : String → String) (ledger ledger' : Ledger) : Prop where
  rows : ∀ key, ChannelKey key → ledger'.metadata[key]? = ledger.metadata[key]?
  bound : Bound launched ledger'

/-- No operation is stored. -/
def Unused (ledger : Ledger) : Prop := ∀ token id, ledger.operation token id = none

section Invariant

variable {launched : String → String} {ledger ledger' : Ledger} {binding : Binding}

theorem Authorised.thread (h : Authorised ledger binding) (hb : Bound launched ledger) :
    binding.thread = launched binding.token :=
  (hb _ _ h.launch).symm

theorem Elsewhere.operation (h : Elsewhere launched ledger ledger') (token id : String) :
    ledger'.operation token id = ledger.operation token id := by
  rw [Ledger.operation, Ledger.operation, h.rows _ (.inr (.inl ⟨token, id, rfl⟩))]

theorem Owned.elsewhere (ho : Owned launched ledger) (h : Elsewhere launched ledger ledger') :
    Owned launched ledger' := by
  intro token id op ht hid hop
  rw [h.operation] at hop
  obtain ⟨hthread, hrow⟩ := ho token id op ht hid hop
  exact ⟨hthread, (h.rows _ (.inr (.inr ⟨_, _, rfl⟩))).trans hrow⟩

/-- Writing a row that is neither an operation's nor an owner's. -/
theorem Owned.setMeta (ho : Owned launched ledger) {key : String} (row : Row)
    (hop : ∀ token id, Canonical id → key ≠ opKey token id)
    (howner : ∀ thread id, key ≠ ownerKey thread id) : Owned launched (ledger.setMeta key row) := by
  intro token id op ht hid h
  rw [operation_setMeta_ne (hop token id hid)] at h
  obtain ⟨hthread, hrow⟩ := ho token id op ht hid h
  exact ⟨hthread, by rw [metadata_setMeta, if_neg (howner _ _), hrow]⟩

/-- Writing a stored operation. -/
theorem Owned.update (ho : Owned launched ledger) {token id : String} {op : Operation}
    (ht : Canonical token) (hid : Canonical id) (h : ledger.operation token id = some op)
    (op' : Operation) : Owned launched (ledger.setMeta (opKey token id) (.operation op')) := by
  intro token' id' q ht' hid' hq
  rw [metadata_setMeta, if_neg opKey_ne_ownerKey]
  by_cases he : opKey token id = opKey token' id'
  · obtain ⟨rfl, rfl⟩ := (opKey_inj ht ht').mp he
    exact ho token id op ht hid h
  · rw [operation_setMeta_ne he] at hq
    exact ho token' id' q ht' hid' hq

/-- Admitting an operation that has no owner yet. -/
theorem Owned.admitText (ho : Owned launched ledger) {token : String} (id : String)
    (ht : Canonical token)
    (hthread : Canonical (launched token))
    (hnone : ledger.metadata[ownerKey (launched token) id]? = none) (op : Operation) :
    Owned launched ((ledger.setMeta (ownerKey (launched token) id) (.text token)).setMeta
      (opKey token id) (.operation op)) := by
  intro token' id' q ht' hid' hq
  rw [metadata_setMeta, if_neg opKey_ne_ownerKey, metadata_setMeta]
  by_cases he : opKey token id = opKey token' id'
  · obtain ⟨rfl, rfl⟩ := (opKey_inj ht ht').mp he
    exact ⟨hthread, if_pos rfl⟩
  · rw [operation_setMeta_ne he, operation_setMeta_ne opKey_ne_ownerKey.symm] at hq
    obtain ⟨hthread', hrow⟩ := ho token' id' q ht' hid' hq
    refine ⟨hthread', ?_⟩
    rw [if_neg, hrow]
    intro hkey
    rw [hkey, hrow] at hnone
    cases hnone

theorem Call.launches_perform (call : Call) (ledger : Ledger) :
    (call.perform ledger).2.launches = ledger.launches := by
  rw [Call.perform, transaction]
  cases h : call.run ledger with
  | error e => rfl
  | ok r =>
      obtain ⟨outcome, ledger'⟩ := r
      cases call with
      | admitText =>
          obtain ⟨id, -, -, ⟨-, rfl⟩ | ⟨-, -, -, -, rfl⟩⟩ := admit_cases h <;> rfl
      | install =>
          obtain ⟨_, _, _, _, -, -, -, -, -, -, rfl⟩ := install_cases h
          rfl
      | execute =>
          obtain ⟨_, _, _, _, _, _, _, -, -, -, -, -, -, -, -, -, rfl⟩ := execute_cases h
          rfl
      | change =>
          obtain ⟨_, -, -, rfl⟩ := change_cases h
          rfl

theorem Owned.perform (ho : Owned launched ledger) (hb : Bound launched ledger) (call : Call) :
    Owned launched (call.perform ledger).2 := by
  rw [Call.perform, transaction]
  cases h : call.run ledger with
  | error e => exact ho
  | ok r =>
      obtain ⟨outcome, ledger'⟩ := r
      have hthreadKey : ∀ binding : Binding,
          Owned launched (ledger.setMeta (threadKey binding) (.text binding.thread)) := fun binding =>
        ho.setMeta _ (fun _ _ hid => (opKey_ne_threadKey hid).symm)
          fun _ _ => ownerKey_ne_threadKey.symm
      cases call with
      | admitText binding raw text =>
          obtain ⟨id, -, hauth, ⟨-, rfl⟩ | ⟨-, hthread, htoken, hnone, rfl⟩⟩ := admit_cases h
          · exact hthreadKey binding
          · rw [hauth.thread hb] at hthread hnone
            have := (hthreadKey binding).admitText id htoken hthread
              (by rw [metadata_setMeta, if_neg ownerKey_ne_threadKey.symm, hnone])
              ⟨text, false, none, none, none, none⟩
            rwa [← hauth.thread hb] at this
      | install binding input issued =>
          obtain ⟨_, _, _, _, -, hid, -, ht, hop, -, rfl⟩ := install_cases h
          exact ho.update ht hid hop _
      | execute binding short arguments nativeId now =>
          obtain ⟨_, _, _, _, _, _, _, -, hid, -, ht, hop, -, -, -, -, rfl⟩ := execute_cases h
          exact ho.update ht hid hop _
      | change binding update =>
          obtain ⟨_, -, -, rfl⟩ := change_cases h
          exact ho.setMeta _ (fun _ _ hid => (opKey_ne_routeKey hid).symm)
            fun _ _ => ownerKey_ne_routeKey.symm

end Invariant

/-! ### The refinement -/

/-- The launch and the operation a call is for. -/
def Call.target : Call → Option (String × String)
  | admitText binding raw _ => (Uuid.canonical raw).map (binding.token, ·)
  | install binding input issued =>
      (attested binding input issued).toOption.map fun r => (binding.token, r.2.1)
  | execute binding short arguments _ _ =>
      (canonicalArguments short arguments).toOption.map fun r => (binding.token, r.1)
  | change _ _ => none

/-- What a recorded call did to the cell it is for. -/
def targetAct (token id : String) (made : Made) : Act String Attestation String :=
  match made.call, made.result with
  | .admitText _ _ text, .ok (.admitted true) => .admitText text
  | .install binding input issued, .ok _ =>
      match attested binding input issued with
      | .ok (_, _, p) => .attest p
      | .error _ => .other
  | .execute _ short arguments _ _, .ok (.executed text) =>
      match (made.before.cell token id).bind Cell.proof with
      | some p =>
          if short = "fetch_message" then .fetch p text
          else .reply p (arguments["text"].asStr.getD "")
      | none => .other
  | _, _ => .other

/-- What a recorded call did to the cell of an operation. -/
def act (token id : String) (made : Made) : Act String Attestation String :=
  if made.call.target = some (token, id) then targetAct token id made else .other

theorem consume_fetch {op op' : Operation} {nativeId text : String} {canonical : Value}
    (h : consume op "fetch_message" nativeId canonical = .ok (text, op')) :
    op.released = false ∧ text = op.text ∧
      op' = { op with released := true, fetchToolId := some nativeId, attestation := none } := by
  simp only [consume, if_true, bind_eq_ok, ensure_eq_ok, pure_eq_ok, Prod.mk.injEq] at h
  obtain ⟨_, hc, rfl, rfl⟩ := h
  refine ⟨?_, rfl, rfl⟩
  simp only [Bool.and_eq_true, Bool.not_eq_true'] at hc
  exact hc.1

theorem consume_reply {op op' : Operation} {short nativeId text : String} {canonical : Value}
    (hs : short ≠ "fetch_message") (h : consume op short nativeId canonical = .ok (text, op')) :
    op.released = true ∧ op.reply = none ∧ ∃ r, canonical["text"].asStr = some r ∧
      op' = { op with reply := some r, replyToolId := some nativeId, attestation := none } := by
  simp only [consume, if_neg hs, bind_eq_ok, ensure_eq_ok, context_eq_ok, pure_eq_ok,
    Prod.mk.injEq] at h
  obtain ⟨_, hc, r, hr, rfl, rfl⟩ := h
  simp only [Bool.and_eq_true, Option.isNone_iff_eq_none] at hc
  exact ⟨hc.1, hc.2, r, hr, rfl⟩

theorem eqFields_strings {l : List (String × Value)} {m : List (String × String)}
    (h : Value.eqFields l (m.map fun f => (f.1, .string f.2)) = true) :
    l = m.map fun f => (f.1, .string f.2) := by
  induction m generalizing l with
  | nil =>
      cases l with
      | nil => rfl
      | cons => cases h
  | cons f m ih =>
      cases l with
      | nil => cases h
      | cons e l =>
          obtain ⟨k, v⟩ := e
          rw [List.map_cons, Value.eqFields, Bool.and_eq_true, Bool.and_eq_true, beq_iff_eq,
            Value.eq_string] at h
          obtain ⟨⟨rfl, rfl⟩, h⟩ := h
          rw [List.map_cons, ← ih h]

/-- An object of strings equals only itself. -/
theorem eq_strings {v : Value} {m : List (String × String)}
    (h : v.eq (.object (m.map fun f => (f.1, .string f.2))) = true) :
    v = .object (m.map fun f => (f.1, .string f.2)) := by
  cases v with
  | object l => exact congrArg Value.object (eqFields_strings h)
  | _ => cases h

/-- The arguments of a tool are strings, and they are those of the call. -/
theorem canonicalArguments_spec {short id : String} {input canonical : Value}
    (h : canonicalArguments short input = .ok (id, canonical)) :
    input = canonical ∧ (∃ m : List (String × String),
      canonical = .object (m.map fun f => (f.1, .string f.2))) ∧
      (short = "fetch_message" ∨ short = "reply") := by
  simp only [canonicalArguments, bind_eq_ok, ensure_eq_ok, pure_eq_ok, Prod.mk.injEq] at h
  obtain ⟨raw, -, _, -, c, hc, _, heq, -, rfl⟩ := h
  rw [toolArguments] at hc
  split at hc
  case isTrue hs =>
    cases hc
    exact ⟨eq_strings (m := [("operation_id", raw)]) heq, ⟨[("operation_id", raw)], rfl⟩, .inl hs⟩
  case isFalse =>
    split at hc
    case isTrue hs =>
      simp only [bind_eq_ok, context_eq_ok, pure_eq_ok] at hc
      obtain ⟨text, -, _, -, rfl⟩ := hc
      exact ⟨eq_strings (m := [("operation_id", raw), ("text", text)]) heq,
        ⟨[("operation_id", raw), ("text", text)], rfl⟩, .inr hs⟩
    case isFalse => cases hc

section Perform

variable {launched : String → String} {ledger : Ledger} {token id : String}

theorem cell_of_operation {op : Operation} (h : ledger.operation token id = some op) :
    ledger.cell token id = some op.cell := by
  rw [Ledger.cell, h, Option.map_some]

/-- A write to the row of another operation is not seen by this one's cell. -/
theorem cell_setMeta_ne {key : String} (h : key ≠ opKey token id) (row : Row) :
    (ledger.setMeta key row).cell token id = ledger.cell token id := by
  rw [Ledger.cell, Ledger.cell, operation_setMeta_ne h]

theorem cell_setMeta_self (op : Operation) :
    (ledger.setMeta (opKey token id) (.operation op)).cell token id = some op.cell := by
  rw [Ledger.cell, operation_setMeta_self, Option.map_some]

/-- The cell of an operation without an owner is empty. -/
theorem cell_eq_none (ho : Owned launched ledger) (ht : Canonical token) (hid : Canonical id)
    (h : ledger.metadata[ownerKey (launched token) id]? = none) : ledger.cell token id = none := by
  cases hop : ledger.operation token id with
  | none => rw [Ledger.cell, hop, Option.map_none]
  | some op =>
      rw [(ho token id op ht hid hop).2] at h
      cases h

theorem act_of_target_ne {made : Made} (h : made.call.target ≠ some (token, id)) :
    act token id made = .other := if_neg h

variable {binding : Binding} {ledger' : Ledger} {outcome : Outcome}

theorem admit_cell (ho : Owned launched ledger) (hb : Bound launched ledger)
    (ht : Canonical token) (hid : Canonical id) {raw text : String}
    (h : admitText binding raw text ledger = .ok (outcome, ledger')) :
    CellStep (ledger.cell token id)
      (act token id ⟨ledger, .admitText binding raw text, .ok outcome⟩) (ledger'.cell token id) := by
  obtain ⟨id', hraw, hauth, ⟨rfl, rfl⟩ | ⟨rfl, -, htoken, hnone, rfl⟩⟩ := admit_cases h
  · rw [cell_setMeta_ne (opKey_ne_threadKey hid).symm, act]
    split <;> exact .other _
  · have htarget : (Call.admitText binding raw text).target = some (binding.token, id') := by
      rw [Call.target, hraw, Option.map_some]
    by_cases hsame : opKey binding.token id' = opKey token id
    · obtain ⟨rfl, rfl⟩ := (opKey_inj htoken ht).mp hsame
      rw [hauth.thread hb] at hnone
      rw [cell_eq_none ho ht hid hnone, cell_setMeta_self, act, if_pos htarget]
      exact .admitText text
    · rw [cell_setMeta_ne hsame, cell_setMeta_ne opKey_ne_ownerKey.symm,
        cell_setMeta_ne (opKey_ne_threadKey hid).symm, act_of_target_ne]
      · exact .other _
      · rw [htarget]
        rintro ⟨⟩
        exact hsame rfl

theorem install_cell (ht : Canonical token) {input : Value} {issued : Nat}
    (h : installAttestation binding input issued ledger = .ok (outcome, ledger')) :
    CellStep (ledger.cell token id)
      (act token id ⟨ledger, .install binding input issued, .ok outcome⟩)
      (ledger'.cell token id) := by
  obtain ⟨short, id', p, op, hattested, -, -, htoken, hop, rfl, rfl⟩ := install_cases h
  have htarget : (Call.install binding input issued).target = some (binding.token, id') := by
    rw [Call.target, hattested]
    rfl
  by_cases hsame : opKey binding.token id' = opKey token id
  · obtain ⟨rfl, rfl⟩ := (opKey_inj htoken ht).mp hsame
    rw [act, if_pos htarget, targetAct]
    simp only [cell_of_operation hop, cell_setMeta_self, hattested]
    exact .attest p
  · rw [cell_setMeta_ne hsame, act_of_target_ne]
    · exact .other _
    · rw [htarget]
      rintro ⟨⟩
      exact hsame rfl

theorem execute_cell (ht : Canonical token) {short nativeId : String} {arguments : Value}
    {now : Nat} (h : executeTool binding short arguments nativeId now ledger =
      .ok (outcome, ledger')) :
    CellStep (ledger.cell token id)
      (act token id ⟨ledger, .execute binding short arguments nativeId now, .ok outcome⟩)
      (ledger'.cell token id) := by
  obtain ⟨id', canonical, op, op', p, text, _, hargs, -, -, htoken, hop, hp, -, hconsume, rfl,
    rfl⟩ := execute_cases h
  have htarget : (Call.execute binding short arguments nativeId now).target =
      some (binding.token, id') := by
    rw [Call.target, hargs]
    rfl
  by_cases hsame : opKey binding.token id' = opKey token id
  · obtain ⟨rfl, rfl⟩ := (opKey_inj htoken ht).mp hsame
    have hproof : (some op.cell).bind Cell.proof = some p := hp
    rw [act, if_pos htarget, targetAct]
    simp only [cell_of_operation hop, cell_setMeta_self, hproof]
    by_cases hs : short = "fetch_message"
    · subst hs
      obtain ⟨hr, rfl, rfl⟩ := consume_fetch hconsume
      rw [if_pos rfl]
      exact .fetch hp hr
    · obtain ⟨hr, hn, r, htext, rfl⟩ := consume_reply hs hconsume
      rw [if_neg hs, (canonicalArguments_spec hargs).1, htext]
      exact .reply r hp hr hn
  · rw [cell_setMeta_ne hsame, act_of_target_ne]
    · exact .other _
    · rw [htarget]
      rintro ⟨⟩
      exact hsame rfl

/-- **Every call is a step of every cell.** -/
theorem perform_cell (ho : Owned launched ledger) (hb : Bound launched ledger)
    (ht : Canonical token) (hid : Canonical id) (call : Call) :
    CellStep (ledger.cell token id) (act token id ⟨ledger, call, (call.perform ledger).1⟩)
      ((call.perform ledger).2.cell token id) := by
  rw [Call.perform, transaction]
  cases h : call.run ledger with
  | error e =>
      have hother : act token id ⟨ledger, call, .error e⟩ = .other := by
        rw [act]
        split
        · cases call <;> rfl
        · rfl
      simp only [hother]
      exact .other _
  | ok r =>
      obtain ⟨outcome, ledger'⟩ := r
      cases call with
      | admitText => exact admit_cell ho hb ht hid h
      | install => exact install_cell ht h
      | execute => exact execute_cell ht h
      | change =>
          obtain ⟨route, -, rfl, rfl⟩ := change_cases h
          simp only [cell_setMeta_ne (opKey_ne_routeKey hid).symm]
          exact .other _

end Perform

end Pikamux.Channel
