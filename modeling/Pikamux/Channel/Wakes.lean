import Pikamux.Channel.Continuation

/-!
# Channel — Wakes

One operation of the phone wakes its conversation at most once, under whichever launch its retries
arrive.  The text of an operation is stored for the launch that admitted it; which launch that was
is stored for the conversation.  So a retry under another launch finds the first one (`Settled`),
and so does a receipt.

* `wakes_once` — no conversation is woken twice for one operation; a retry that is let through
  admits nothing and is refused with another text; a receipt shows the operation of the first
  launch.
-/

namespace Pikamux.Channel

open Std Support Json

/-! ### Requests -/

/-- `serve_packet` up to the admission: what a request asks for. -/
def servedCall (binding : Binding) (packet : Value) : Except String Call := do
  ensure (packet["action"].asStr = some "send") "Unknown private native request"
  let suppliedId ← context "Operation UUID missing" packet["operation_id"].asStr
  let id ← parseUuid suppliedId
  let text ← context "Message text missing" packet["text"].asStr
  return .admitText binding id text

/-- The conversation and the operation that `serve_packet` wakes after an admission. -/
def wake (made : Made) : Option (String × String) :=
  match made.call, made.result with
  | .admitText binding id _, .ok (.admitted true) =>
      (Uuid.canonical id).map fun id => (binding.thread, id)
  | _, _ => none

def receiptValue (id : String) (op : Operation) : Value :=
  .object [
    ("message", .string (if op.reply.isSome then "Native attested reply recorded"
      else "Native delivery remains unconfirmed; do not resend this operation")),
    ("messageId", .string id),
    ("state", .string (if op.reply.isSome then "delivered" else "unknown")),
    ("turnId", .null)]

/-- `thread_receipt`.  It is not a transaction: other calls may come between its reads, so each has
a ledger of its own. -/
def threadReceipt (watching owning bound stored : Ledger) (thread id : String) :
    Except String (Option Value) := do
  ensure (watching.watched.contains thread) "Original conversation no longer watched"
  let key ← operationOwnerKey thread id
  match owning.metadata[key]? with
  | none => return none
  | some row => do
      let token ← row.asText
      let boundThread := bound.metadata["claude-channel:" ++ token ++ ":thread"]?
      ensure ((boundThread.bind fun row => row.asText.toOption) = some thread)
        "Original operation belongs to a different thread"
      let key ← tokenOperationKey token id
      match stored.metadata[key]? with
      | none => return none
      | some row => return some (receiptValue id (← row.asOperation))

/-! ### Between the calls -/

/-- What the rest of the program does between calls: it writes no row of the channel, the
conversation of a launch included. -/
structure Quiet (launched : String → String) (ledger ledger' : Ledger) : Prop where
  elsewhere : Elsewhere launched ledger ledger'
  threads : ∀ binding, ledger'.metadata[threadKey binding]? = ledger.metadata[threadKey binding]?

abbrev QuietCalls (launched : String → String) (start : Ledger) (calls : List Made) (now : Ledger) :
    Prop :=
  History Call.perform (Quiet launched) start calls now

section Run

variable {launched : String → String} {start now ledger ledger' : Ledger} {calls : List Made}
  {binding : Binding} {id text : String}

theorem threadKey_inj {binding binding' : Binding} :
    threadKey binding = threadKey binding' ↔ binding.token = binding'.token := by
  constructor
  · intro h
    have hl := (toList_append₂ ..).symm.trans ((congrArg String.toList h).trans (toList_append₂ ..))
    rw [List.append_cancel_left_eq, List.append_cancel_right_eq] at hl
    exact String.toList_injective hl
  · intro h
    exact congrArg (fun token => "claude-channel:" ++ token ++ ":thread") h

/-- The operation was admitted for this launch: its text is stored for it, and the launch for the
conversation. -/
structure Settled (launched : String → String) (binding : Binding) (id text : String)
    (ledger : Ledger) : Prop where
  bound : Bound launched ledger
  owned : Owned launched ledger
  stored : ∃ op, ledger.operation binding.token id = some op ∧ op.text = text
  thread : ledger.metadata[threadKey binding]? = some (.text binding.thread)

/-- The row that names the conversation of a launch stays. -/
theorem thread_perform (hb : Bound launched ledger) (hthread : binding.thread = launched binding.token)
    (h : ledger.metadata[threadKey binding]? = some (.text binding.thread)) (call : Call) :
    (call.perform ledger).2.metadata[threadKey binding]? = some (.text binding.thread) := by
  rw [Call.perform, transaction]
  cases hrun : call.run ledger with
  | error e => exact h
  | ok r =>
      obtain ⟨outcome, ledger'⟩ := r
      cases call with
      | admitText other raw text =>
          obtain ⟨i, hi, hauth, hcases⟩ := admit_cases hrun
          have hi := Canonical.of_parse hi
          have hrow : (ledger.setMeta (threadKey other) (.text other.thread)).metadata[
              threadKey binding]? = some (.text binding.thread) := by
            rw [metadata_setMeta]
            split
            case isTrue hkey =>
              rw [hauth.thread hb, hthread, threadKey_inj.mp hkey]
            case isFalse => exact h
          rcases hcases with ⟨-, rfl⟩ | ⟨-, -, -, -, rfl⟩
          · exact hrow
          · rw [metadata_setMeta, if_neg (opKey_ne_threadKey hi), metadata_setMeta,
              if_neg ownerKey_ne_threadKey, hrow]
      | install other input issued =>
          obtain ⟨_, i, _, _, -, hi, -, -, -, -, rfl⟩ := install_cases hrun
          rw [metadata_setMeta, if_neg (opKey_ne_threadKey hi), h]
      | execute other short arguments nativeId now =>
          obtain ⟨i, _, _, _, _, _, _, -, hi, -, -, -, -, -, -, -, rfl⟩ := execute_cases hrun
          rw [metadata_setMeta, if_neg (opKey_ne_threadKey hi), h]
      | change other update =>
          obtain ⟨_, -, -, rfl⟩ := change_cases hrun
          rw [metadata_setMeta, if_neg routeKey_ne_threadKey, h]

theorem Settled.history (h : Settled launched binding id text ledger) (ht : Canonical binding.token)
    (hid : Canonical id) (hthread : binding.thread = launched binding.token)
    (hcalls : QuietCalls launched ledger calls now) : Settled launched binding id text now := by
  refine hcalls.invariant (fun now => Settled launched binding id text now) h ?_ ?_
  · intro call u hu
    obtain ⟨op, hop, htext⟩ := hu.stored
    have hone : Calls launched u _ _ := History.nil.call call
    obtain ⟨op', hop', htext', -⟩ := operation_kept hone hu.bound hu.owned ht hid hop
    exact ⟨fun token thread hl => hu.bound token thread (Call.launches_perform call u ▸ hl),
      hu.owned.perform hu.bound call, ⟨op', hop', htext'.trans htext⟩,
      thread_perform hu.bound hthread hu.thread call⟩
  · intro u u' hd hu
    obtain ⟨op, hop, htext⟩ := hu.stored
    exact ⟨hd.elsewhere.bound, hu.owned.elsewhere hd.elsewhere,
      ⟨op, (hd.elsewhere.operation _ _).trans hop, htext⟩, (hd.threads binding).trans hu.thread⟩

/-- The first admission settles the operation. -/
theorem settled_of_admitted {raw : String} (hb : Bound launched ledger)
    (ho : Owned launched ledger) (hid : Uuid.canonical raw = some id)
    (h : admitText binding raw text ledger = .ok (.admitted true, ledger')) :
    Settled launched binding id text ledger' ∧ Canonical binding.token ∧
      Canonical binding.thread ∧ binding.thread = launched binding.token := by
  have hperform : ((Call.admitText binding raw text).perform ledger).2 = ledger' := by
    rw [Call.perform, transaction, Call.run, h]
  have howned := ho.perform hb (.admitText binding raw text)
  rw [hperform] at howned
  obtain ⟨i, hi, hauth, ⟨hfalse, -⟩ | ⟨-, hthread, htoken, -, rfl⟩⟩ := admit_cases h
  · cases hfalse
  · obtain rfl : i = id := Option.some.inj (hi.symm.trans hid)
    have hi := Canonical.of_parse hi
    refine ⟨⟨hb, howned, ⟨_, operation_setMeta_self _, rfl⟩, ?_⟩, htoken, hthread, hauth.thread hb⟩
    rw [metadata_setMeta, if_neg (opKey_ne_threadKey hi), metadata_setMeta,
      if_neg ownerKey_ne_threadKey, metadata_setMeta, if_pos rfl]

theorem Settled.owner (h : Settled launched binding id text ledger) (ht : Canonical binding.token)
    (hid : Canonical id) (hthread : binding.thread = launched binding.token) :
    ledger.metadata[ownerKey binding.thread id]? = some (.text binding.token) := by
  obtain ⟨op, hop, -⟩ := h.stored
  rw [hthread]
  exact (h.owned _ id op ht hid hop).2

theorem metadata_of_operation {token : String} {op : Operation}
    (h : ledger.operation token id = some op) :
    ledger.metadata[opKey token id]? = some (.operation op) := by
  rw [Ledger.operation] at h
  split at h
  case h_1 o ho => rw [ho, Option.some.inj h]
  case h_2 => cases h

/-- What an admission does after the first one: the checks, and the comparison of the texts. -/
theorem admitText_settled {other : Binding} {raw text' : String}
    (h : Settled launched binding id text ledger) (ht : Canonical binding.token)
    (hc : Canonical binding.thread) (hthread : binding.thread = launched binding.token)
    (hother : other.thread = binding.thread) (hid : Uuid.canonical raw = some id) :
    admitText other raw text' ledger = do
      ensure (bounded text') "Message exceeds native channel bound"
      requireAuthority ledger other
      checkRoute (← readRoute ledger other) true
      ensure (text = text') "Operation UUID reused for different text"
      return (.admitted false, ledger.setMeta (threadKey other) (.text other.thread)) := by
  have hcanon := Canonical.of_parse hid
  obtain ⟨op, hop, rfl⟩ := h.stored
  have howner := h.owner ht hcanon hthread
  have hfound : alreadyAdmitted (ledger.setMeta (threadKey other) (.text other.thread)) other id
      text' = (ensure (op.text = text') "Operation UUID reused for different text").map
        fun _ => true := by
    have hkey : operationOwnerKey other.thread id = .ok (ownerKey other.thread id) :=
      (operationOwnerKey_eq_ok hcanon).mpr ⟨hother ▸ hc, rfl⟩
    have hop' : tokenOperationKey binding.token id = .ok (opKey binding.token id) :=
      (tokenOperationKey_eq_ok hcanon).mpr ⟨ht, rfl⟩
    rw [alreadyAdmitted, hkey, ok_bind, metadata_setMeta, if_neg ownerKey_ne_threadKey.symm, hother,
      howner]
    simp only [Row.asText, ok_bind, hop', metadata_setMeta,
      if_neg (opKey_ne_threadKey hcanon).symm, metadata_of_operation hop, context_some,
      Row.asOperation]
    cases ensure (op.text = text') "Operation UUID reused for different text" <;> rfl
  rw [admitText, parseUuid_eq_ok.mpr hid, ok_bind]
  simp only [hfound]
  refine bind_congr fun _ => bind_congr fun _ => bind_congr fun _ => bind_congr fun _ => ?_
  cases ensure (op.text = text') "Operation UUID reused for different text" <;> rfl

/-- The checks before the operation is looked at let the admission through. -/
structure LetThrough (ledger : Ledger) (binding : Binding) (text : String) : Prop where
  bound : bounded text = true
  authority : requireAuthority ledger binding = .ok ()
  route : ∃ route, readRoute ledger binding = .ok route ∧ checkRoute route true = .ok ()

section Retry

variable {other : Binding} {raw text' : String} {outcome : Outcome}

/-- An admission after the first one that succeeds admits nothing. -/
theorem Settled.readmitted (h : Settled launched binding id text ledger)
    (ht : Canonical binding.token) (hc : Canonical binding.thread)
    (hthread : binding.thread = launched binding.token) (hother : other.thread = binding.thread)
    (hid : Uuid.canonical raw = some id)
    (hrun : admitText other raw text' ledger = .ok (outcome, ledger')) :
    outcome = .admitted false ∧ text = text' ∧
      ledger' = ledger.setMeta (threadKey other) (.text other.thread) := by
  rw [admitText_settled h ht hc hthread hother hid] at hrun
  simp only [bind_eq_ok, ensure_eq_ok, decide_eq_true_eq, pure_eq_ok, Prod.mk.injEq] at hrun
  obtain ⟨_, -, _, -, _, -, _, -, _, htext, rfl, rfl⟩ := hrun
  exact ⟨rfl, htext, rfl⟩

/-- One with the same text succeeds when the checks let it through. -/
theorem Settled.accepts (h : Settled launched binding id text ledger)
    (ht : Canonical binding.token) (hc : Canonical binding.thread)
    (hthread : binding.thread = launched binding.token) (hother : other.thread = binding.thread)
    (hid : Uuid.canonical raw = some id) (hlet : LetThrough ledger other text) :
    admitText other raw text ledger =
      .ok (.admitted false, ledger.setMeta (threadKey other) (.text other.thread)) := by
  obtain ⟨route, hroute, hcheck⟩ := hlet.route
  simp only [admitText_settled h ht hc hthread hother hid, hlet.bound, hlet.authority, hroute,
    hcheck, ensure_true, ok_bind, decide_true]
  rfl

end Retry

/-! ### Runs -/

theorem bound_owned (h : QuietCalls launched start calls now) (hb : Bound launched start)
    (ho : Owned launched start) : Bound launched now ∧ Owned launched now := by
  refine h.invariant (fun now => Bound launched now ∧ Owned launched now) ⟨hb, ho⟩ ?_ ?_
  · rintro call u ⟨hb, ho⟩
    exact ⟨fun token thread hl => hb token thread (Call.launches_perform call u ▸ hl),
      ho.perform hb call⟩
  · rintro u u' hd ⟨-, ho⟩
    exact ⟨hd.elsewhere.bound, ho.elsewhere hd.elsewhere⟩

/-- The call has admitted the operation for the first time. -/
structure First (binding : Binding) (id text : String) (made : Made) : Prop where
  call : ∃ raw, made.call = .admitText binding raw text ∧ Uuid.canonical raw = some id
  result : made.result = .ok (.admitted true)

/-- The call asks for the operation again, under whichever launch and in whichever spelling. -/
structure Again (thread id text : String) (other : Binding) (made : Made) : Prop where
  call : ∃ raw, made.call = .admitText other raw text ∧ Uuid.canonical raw = some id
  thread : other.thread = thread

theorem wake_eq_some {made : Made} {woken : String × String} (h : wake made = some woken) :
    ∃ binding text, First binding woken.2 text made ∧ binding.thread = woken.1 := by
  unfold wake at h
  split at h
  case h_1 binding raw text hcall hresult =>
    obtain ⟨id, hid, rfl⟩ := Option.map_eq_some_iff.mp h
    exact ⟨binding, text, ⟨⟨raw, hcall, hid⟩, hresult⟩, rfl⟩
  case h_2 => cases h

theorem admitText_of_made {made : Made} {raw : String} {outcome : Outcome}
    (hcall : made.call = .admitText binding raw text)
    (hresult : made.result = (made.call.perform made.before).1)
    (hok : made.result = .ok outcome) :
    admitText binding raw text made.before = .ok (outcome, (made.call.perform made.before).2) := by
  rw [hcall] at hresult ⊢
  rw [hok] at hresult
  rw [Call.perform, transaction, Call.run] at hresult ⊢
  cases hrun : admitText binding raw text made.before with
  | error e =>
      rw [hrun] at hresult
      cases hresult
  | ok r =>
      rw [hrun] at hresult
      obtain rfl := Except.ok.inj hresult
      rfl

/-- After the first admission the operation is settled. -/
theorem First.settled {made : Made} {pre post : List Made} (hfirst : First binding id text made)
    (hb : Bound launched start) (ho : Owned launched start)
    (h : QuietCalls launched start (pre ++ made :: post) now) :
    Canonical id ∧ Canonical binding.token ∧ Canonical binding.thread ∧
      binding.thread = launched binding.token ∧
      Settled launched binding id text (made.call.perform made.before).2 := by
  obtain ⟨hpre, hresult, -⟩ := h.split
  obtain ⟨raw, hcall, hid⟩ := hfirst.call
  obtain ⟨hb, ho⟩ := bound_owned hpre hb ho
  obtain ⟨hsettled, ht, hc, hthread⟩ := settled_of_admitted hb ho hid
    (admitText_of_made hcall hresult hfirst.result)
  exact ⟨Canonical.of_parse hid, ht, hc, hthread, hsettled⟩

/-- What holds of the operations that were admitted. -/
structure WokenOnce (launched : String → String) (calls : List Made) (now : Ledger) : Prop where
  /-- No conversation is woken twice for one operation. -/
  once : (calls.filterMap wake).Nodup
  /-- A later admission stores no operation; it succeeds only with the same text and admits
  nothing, and with the same text it succeeds when the checks let it through. -/
  again : ∀ pre made post binding id text, calls = pre ++ made :: post →
    First binding id text made → ∀ later ∈ post, ∀ other text',
    Again binding.thread id text' other later →
      (∀ outcome, later.result = .ok outcome → outcome = .admitted false ∧ text = text') ∧
      (text = text' → LetThrough later.before other text →
        later.result = .ok (.admitted false)) ∧
      ∀ token id, Canonical id → (later.call.perform later.before).2.operation token id =
        later.before.operation token id
  /-- A receipt shows the operation that is stored for the first launch, whatever is called between
  its reads. -/
  receipt : ∀ pre made post binding id text, calls = pre ++ made :: post →
    First binding id text made → ∀ watching owning bound stored between between' between'' raw,
    QuietCalls launched now between owning → QuietCalls launched owning between' bound →
    QuietCalls launched bound between'' stored → Uuid.canonical raw = some id →
    watching.watched.contains binding.thread = true →
    ∃ op, stored.operation binding.token id = some op ∧ op.text = text ∧
      threadReceipt watching owning bound stored binding.thread raw =
        .ok (some (receiptValue raw op))

theorem woken_once (hb : Bound launched start) (ho : Owned launched start)
    (h : QuietCalls launched start calls now) : (calls.filterMap wake).Nodup := by
  rw [List.Nodup, List.pairwise_filterMap]
  refine pairwise_of_split fun pre later post hl made hmade woken hwoken woken' hwoken' hsame => ?_
  subst hl hsame
  obtain ⟨binding, text, hfirst, hthread⟩ := wake_eq_some hwoken
  obtain ⟨other, text', hlater, hother⟩ := wake_eq_some hwoken'
  obtain ⟨-, hresult, mid, hmid⟩ := h.between hmade
  obtain ⟨hpre, -, -⟩ := h.split
  obtain ⟨before, after, rfl⟩ := List.append_of_mem hmade
  obtain ⟨hid, ht, hc, hlaunched, hsettled⟩ := hfirst.settled hb ho hpre
  have hsettled := hsettled.history ht hid hlaunched hmid
  obtain ⟨raw, hcall, hraw⟩ := hlater.call
  obtain ⟨hfalse, -, -⟩ := hsettled.readmitted ht hc hlaunched (hother.trans hthread.symm) hraw
    (admitText_of_made hcall hresult hlater.result)
  cases hfalse

theorem receipt_settled {watching owning bound stored : Ledger} {raw : String}
    (howning : Settled launched binding id text owning)
    (hbound : Settled launched binding id text bound)
    (hstored : Settled launched binding id text stored)
    (ht : Canonical binding.token) (hc : Canonical binding.thread) (hid : Canonical id)
    (hthread : binding.thread = launched binding.token) (hraw : Uuid.canonical raw = some id)
    (hwatched : watching.watched.contains binding.thread = true) :
    ∃ op, stored.operation binding.token id = some op ∧ op.text = text ∧
      threadReceipt watching owning bound stored binding.thread raw =
        .ok (some (receiptValue raw op)) := by
  obtain ⟨op, hop, htext⟩ := hstored.stored
  have hkey : operationOwnerKey binding.thread raw = .ok (ownerKey binding.thread id) := by
    simp [operationOwnerKey, parseUuid_eq_ok.mpr hc, parseUuid_eq_ok.mpr hraw]
    rfl
  have hop' : tokenOperationKey binding.token raw = .ok (opKey binding.token id) := by
    simp [tokenOperationKey, parseUuid_eq_ok.mpr ht, parseUuid_eq_ok.mpr hraw]
    rfl
  have hrow : bound.metadata["claude-channel:" ++ binding.token ++ ":thread"]? =
      some (.text binding.thread) := hbound.thread
  refine ⟨op, hop, htext, ?_⟩
  simp only [threadReceipt, hwatched, ensure_true, ok_bind, hkey, howning.owner ht hid hthread,
    Row.asText, hrow, Option.bind_some, Except.toOption, decide_true, hop',
    metadata_of_operation hop, Row.asOperation]
  rfl

/-- One operation of the phone wakes its conversation at most once, whichever launches its retries
come under. -/
theorem wakes_once (hb : Bound launched start) (ho : Owned launched start)
    (h : QuietCalls launched start calls now) : WokenOnce launched calls now where
  once := woken_once hb ho h
  again := by
    rintro pre made post binding id text rfl hfirst later hlater other text' ⟨⟨raw, hcall, hraw⟩, hother⟩
    obtain ⟨hid, ht, hc, hlaunched, hsettled⟩ := hfirst.settled hb ho h
    obtain ⟨-, -, hpost⟩ := h.split
    obtain ⟨before, after, rfl⟩ := List.append_of_mem hlater
    obtain ⟨hmid, hresult, -⟩ := hpost.split
    have hsettled := hsettled.history ht hid hlaunched hmid
    refine ⟨fun outcome hok => ?_, fun htext hlet => ?_, fun token i hi => ?_⟩
    · have hrun := admitText_of_made hcall hresult hok
      obtain ⟨hfalse, htext, -⟩ := hsettled.readmitted ht hc hlaunched hother hraw hrun
      exact ⟨hfalse, htext⟩
    · subst htext
      have hrun := hsettled.accepts ht hc hlaunched hother hraw hlet
      rw [hresult, hcall, Call.perform, transaction, Call.run, hrun]
    · rw [hcall, Call.perform, transaction, Call.run]
      cases hrun : admitText other raw text' later.before with
      | error e => rfl
      | ok r =>
          obtain ⟨outcome, next⟩ := r
          obtain ⟨-, -, rfl⟩ := hsettled.readmitted ht hc hlaunched hother hraw hrun
          exact operation_setMeta_ne (opKey_ne_threadKey hi).symm _
  receipt := by
    rintro pre made post binding id text rfl hfirst watching owning bound stored _ _ _ raw howning
      hbound hstored hraw hwatched
    obtain ⟨hid, ht, hc, hlaunched, hsettled⟩ := hfirst.settled hb ho h
    obtain ⟨-, -, hpost⟩ := h.split
    have hsettled := (hsettled.history ht hid hlaunched hpost).history ht hid hlaunched howning
    have hsettled' := hsettled.history ht hid hlaunched hbound
    exact receipt_settled hsettled hsettled' (hsettled'.history ht hid hlaunched hstored) ht hc hid
      hlaunched hraw hwatched

end Run

/-! ### A message that is sent three times -/

/-- The same launch, and the operation in capitals. -/
def retriedCalls : List Call :=
  [.admitText deliveredBinding deliveredId "Run the tests.",
    .admitText deliveredBinding "16FD2706-8BAF-433B-82EB-8C7FADA847DA" "Run the tests.",
    .admitText deliveredBinding deliveredId "Run them.",
    .change deliveredBinding .revoked,
    .admitText deliveredBinding deliveredId "Run the tests."]

theorem delivered_bound : Bound (fun _ => deliveredBinding.thread) deliveredStart := by
  intro token thread hl
  rw [deliveredStart, ExtTreeMap.getElem?_insert] at hl
  split at hl
  · cases hl
    rfl
  · simp at hl

theorem delivered_owned : Owned (fun _ => deliveredBinding.thread) deliveredStart := by
  intro token id op _ _ hop
  have hrow : deliveredStart.metadata[opKey token id]? = none ∨
      deliveredStart.metadata[opKey token id]? = some (.route ⟨true, true, false⟩) := by
    rw [deliveredStart, ExtTreeMap.getElem?_insert]
    split
    · exact .inr rfl
    · exact .inl (by simp)
  rcases hrow with hrow | hrow <;> rw [Ledger.operation, hrow] at hop <;> cases hop

theorem ok_of_toOption {result : Except String Outcome} {outcome : Outcome}
    (h : result.toOption = some outcome) : result = .ok outcome := by
  cases result with
  | error e => cases h
  | ok a => rw [Option.some.inj h]

theorem wakes_once_retried : ∃ calls now,
    QuietCalls (fun _ => deliveredBinding.thread) deliveredStart calls now ∧
      calls.map Entry.call = retriedCalls ∧
      WokenOnce (fun _ => deliveredBinding.thread) calls now := by
  have h : QuietCalls (fun _ => deliveredBinding.thread) deliveredStart _ _ :=
    History.replay deliveredStart retriedCalls
  exact ⟨_, _, h, rfl, wakes_once delivered_bound delivered_owned h⟩

/-- The message is sent again when its route was revoked. -/
def revokedCalls : List Call :=
  [.admitText deliveredBinding deliveredId "Run the tests.", .change deliveredBinding .revoked,
    .admitText deliveredBinding deliveredId "Run the tests."]

/-- A retry with the text of the first admission is refused once the route was revoked. -/
theorem retry_refused : ¬∀ calls now,
    QuietCalls (fun _ => deliveredBinding.thread) deliveredStart calls now →
      ∀ pre first post binding id text, calls = pre ++ first :: post →
        First binding id text first → ∀ later ∈ post, ∀ other,
        Again binding.thread id text other later → later.result = .ok (.admitted false) := by
  intro hrepeats
  obtain ⟨calls, now, h, hcalls, hresults⟩ : ∃ calls now,
      QuietCalls (fun _ => deliveredBinding.thread) deliveredStart calls now ∧
        calls.map Entry.call = revokedCalls ∧
        calls.map (fun made : Made => made.result.toOption) =
          [some (.admitted true), some .changed, none] :=
    ⟨_, _, History.replay deliveredStart revokedCalls, rfl, by decide +kernel⟩
  obtain ⟨first, calls, rfl, hfirst, hcalls⟩ := List.map_eq_cons_iff.mp hcalls
  obtain ⟨revoking, calls, rfl, -, hcalls⟩ := List.map_eq_cons_iff.mp hcalls
  obtain ⟨last, calls, rfl, hlast, -⟩ := List.map_eq_cons_iff.mp hcalls
  simp only [List.map_cons, List.cons.injEq] at hresults
  obtain ⟨hadmitted, -, hrefused, -⟩ := hresults
  have hid : Uuid.canonical deliveredId = some deliveredId := by decide +kernel
  have hrepeated := hrepeats _ _ h [] first _ deliveredBinding deliveredId "Run the tests." rfl
    ⟨⟨deliveredId, hfirst, hid⟩, ok_of_toOption hadmitted⟩ last
    (List.mem_cons_of_mem _ List.mem_cons_self) deliveredBinding ⟨⟨deliveredId, hlast, hid⟩, rfl⟩
  rw [hrepeated] at hrefused
  cases hrefused

end Pikamux.Channel
