import Pikamux.Channel.Refine

/-!
# Channel — Continuation

The release of continuation content over any history: the phone's sender, the native hook, the
channel server and the session lifecycle call in any order and at any time, refused calls and
whatever the rest of the program does in between included.  For every launch and operation the
content is one-use, ordered and attested (`continuation_release`).
-/

namespace Pikamux.Channel

open Std Support Json

/-- A history of calls on the ledger. -/
abbrev Calls (launched : String → String) (start : Ledger) (calls : List Made) (now : Ledger) :
    Prop :=
  History Call.perform (Elsewhere launched) start calls now

def Call.binding : Call → Binding
  | admitText binding .. | install binding .. | execute binding .. | change binding .. => binding

/-- The call is one of the session lifecycle. -/
def Call.lifecycle : Call → Bool
  | change .. => true
  | _ => false

section Made

variable (token id : String)

/-- The call admitted the operation with `text`. -/
def Admitted (text : String) (made : Made) : Prop :=
  ∃ binding raw, made.call = .admitText binding raw text ∧ binding.token = token ∧
    Uuid.canonical raw = some id ∧ made.result = .ok (.admitted true)

/-- The call installed the attestation `p` for the operation. -/
def Installed (p : Attestation) (made : Made) : Prop :=
  ∃ binding input short, made.call = .install binding input p.issued ∧ binding.token = token ∧
    attested binding input p.issued = .ok (short, id, p) ∧ made.result = .ok .attested

/-- The call executed the tool `short` on the operation and returned `text`. -/
def Executed (short text : String) (made : Made) : Prop :=
  ∃ binding arguments canonical nativeId now,
    made.call = .execute binding short arguments nativeId now ∧ binding.token = token ∧
    canonicalArguments short arguments = .ok (id, canonical) ∧ made.result = .ok (.executed text)

end Made

/-- What holds of the operation `id` of the launch `token` after `calls`. -/
structure Released (token id : String) (calls : List Made) (now : Ledger) : Prop where
  /-- An admitted text never changes, and a stored reply stays. -/
  text : ∀ pre made post op, calls = pre ++ made :: post →
    made.before.operation token id = some op →
    ∃ op', now.operation token id = some op' ∧ op'.text = op.text ∧
      ∀ r, op.reply = some r → op'.reply = some r
  /-- The text is returned at most once. -/
  fetchedOnce : calls.Pairwise fun a b =>
    ¬ ((∃ text, Executed token id "fetch_message" text a) ∧
      ∃ text, Executed token id "fetch_message" text b)
  /-- What is returned is the text that was admitted. -/
  fetched : ∀ pre made post text, calls = pre ++ made :: post →
    Executed token id "fetch_message" text made → ∃ a ∈ pre, Admitted token id text a
  /-- A reply is stored at most once. -/
  repliedOnce : calls.Pairwise fun a b =>
    ¬ ((∃ text, Executed token id "reply" text a) ∧ ∃ text, Executed token id "reply" text b)
  /-- A stored reply was stored by a tool call. -/
  stored : ∀ op r, now.operation token id = some op → op.reply = some r →
    ∃ made ∈ calls, ∃ text, Executed token id "reply" text made
  /-- A reply is stored after the text was released. -/
  replied : ∀ pre made post text, calls = pre ++ made :: post →
    Executed token id "reply" text made →
    ∃ a ∈ pre, ∃ text, Executed token id "fetch_message" text a
  /-- A tool call consumes an attestation of itself that is at most `ttl` old and was installed
  since the last successful one. -/
  attested : ∀ pre made post binding short arguments nativeId now canonical text,
    calls = pre ++ made :: post → made.call = .execute binding short arguments nativeId now →
    binding.token = token → canonicalArguments short arguments = .ok (id, canonical) →
    made.result = .ok (.executed text) →
    ∃ before x since p, pre = before ++ x :: since ∧ Installed token id p x ∧
      p.toolId = nativeId ∧ p.toolName = toolName binding short ∧ p.arguments = canonical ∧
      p.issued ≤ now ∧ now ≤ p.issued + ttl ∧
      ∀ y ∈ since, ∀ short text, ¬ Executed token id short text y
  /-- A refused call leaves the ledger as it was. -/
  refused : ∀ made ∈ calls, ∀ e, made.result = .error e →
    (made.call.perform made.before).2 = made.before
  /-- A revoked route refuses every later admission, attestation and execution. -/
  revoked : ∀ pre made post binding route, calls = pre ++ made :: post →
    binding.token = token → made.before.metadata[routeKey binding]? = some (.route route) →
    route.revoked = true → ∀ later ∈ made :: post, later.call.binding.token = token →
    later.call.lifecycle = false → ∃ e, later.result = .error e

/-! ### Calls and their acts -/

section Acts

variable {token id : String} {made : Made}

theorem target_admitText {binding : Binding} {raw text : String}
    (h : (Call.admitText binding raw text).target = some (token, id)) :
    binding.token = token ∧ Uuid.canonical raw = some id := by
  rw [Call.target, Option.map_eq_some_iff] at h
  obtain ⟨i, hi, e⟩ := h
  cases e
  exact ⟨rfl, hi⟩

theorem target_install {binding : Binding} {input : Value} {issued : Nat}
    (h : (Call.install binding input issued).target = some (token, id)) :
    binding.token = token ∧ ∃ short p, attested binding input issued = .ok (short, id, p) := by
  rw [Call.target] at h
  cases ha : attested binding input issued with
  | error e =>
      rw [ha] at h
      cases h
  | ok r =>
      obtain ⟨short, i, p⟩ := r
      rw [ha] at h
      cases h
      exact ⟨rfl, short, p, rfl⟩

theorem target_execute {binding : Binding} {short nativeId : String} {arguments : Value}
    {now : Nat} (h : (Call.execute binding short arguments nativeId now).target =
      some (token, id)) :
    binding.token = token ∧ ∃ canonical, canonicalArguments short arguments = .ok (id, canonical) := by
  rw [Call.target] at h
  cases ha : canonicalArguments short arguments with
  | error e =>
      rw [ha] at h
      cases h
  | ok r =>
      obtain ⟨i, canonical⟩ := r
      rw [ha] at h
      cases h
      exact ⟨rfl, canonical, rfl⟩

/-- What an act says of the call. -/
def Shows (token id : String) (made : Made) : Act String Attestation String → Prop
  | .admitText text => Admitted token id text made
  | .attest p => ∃ binding input issued short, made.call = .install binding input issued ∧
      binding.token = token ∧ attested binding input issued = .ok (short, id, p) ∧
      ∃ outcome, made.result = .ok outcome
  | .fetch _ text => Executed token id "fetch_message" text made
  | .reply _ _ => ∃ text, Executed token id "reply" text made
  | .other => True

theorem shows_act (token id : String) (made : Made) : Shows token id made (act token id made) := by
  obtain ⟨before, call, result⟩ := made
  rw [act]
  split
  case isFalse => trivial
  case isTrue htarget =>
    cases call with
    | admitText binding raw text =>
        obtain ⟨ht, hid⟩ := target_admitText htarget
        cases result with
        | error => trivial
        | ok outcome =>
            cases outcome with
            | admitted fresh =>
                cases fresh with
                | true => exact ⟨binding, raw, rfl, ht, hid, rfl⟩
                | false => trivial
            | attested | executed | changed => trivial
    | install binding input issued =>
        obtain ⟨ht, short, p, hattested⟩ := target_install htarget
        cases result with
        | error => trivial
        | ok outcome =>
            rw [targetAct]
            simp only [hattested]
            exact ⟨binding, input, issued, short, rfl, ht, hattested, outcome, rfl⟩
    | execute binding short arguments nativeId now =>
        obtain ⟨ht, canonical, hargs⟩ := target_execute htarget
        cases result with
        | error => trivial
        | ok outcome =>
            cases outcome with
            | admitted | attested | changed => trivial
            | executed text =>
                rw [targetAct]
                dsimp only
                split
                case h_1 p hp =>
                  by_cases hs : short = "fetch_message"
                  · subst hs
                    rw [if_pos rfl]
                    exact ⟨binding, arguments, canonical, nativeId, now, rfl, ht, hargs, rfl⟩
                  · obtain rfl := (canonicalArguments_spec hargs).2.2.resolve_left hs
                    rw [if_neg hs]
                    exact ⟨text, binding, arguments, canonical, nativeId, now, rfl, ht, hargs, rfl⟩
                case h_2 => trivial
    | change => cases htarget

theorem perform_ok {call : Call} {before : Ledger} {outcome : Outcome}
    (h : (call.perform before).1 = .ok outcome) :
    call.run before = .ok (outcome, (call.perform before).2) := by
  rw [Call.perform, transaction] at h ⊢
  cases hr : call.run before with
  | error e =>
      rw [hr] at h
      cases h
  | ok r =>
      rw [hr] at h
      cases h
      rfl

/-- A transaction that fails is rolled back. -/
theorem perform_error {call : Call} {before : Ledger} {e : String}
    (h : (call.perform before).1 = .error e) : (call.perform before).2 = before := by
  rw [Call.perform, transaction] at h ⊢
  cases hr : call.run before with
  | error e => rfl
  | ok r =>
      rw [hr] at h
      cases h

theorem Shows.installed {p : Attestation} (h : Shows token id made (.attest p))
    (hp : made.result = (made.call.perform made.before).1) : Installed token id p made := by
  obtain ⟨binding, input, issued, short, hcall, ht, hattested, outcome, hresult⟩ := h
  have hissued : issued = p.issued := by
    simp only [attested, bind_eq_ok, pure_eq_ok, Prod.mk.injEq] at hattested
    obtain ⟨_, -, _, -, _, -, _, -, _, -, _, -, -, -, rfl⟩ := hattested
    rfl
  rw [hcall] at hp
  obtain ⟨_, _, _, _, -, -, -, -, -, rfl, -⟩ :=
    install_cases (perform_ok (hp.symm.trans hresult))
  subst hissued
  exact ⟨binding, input, short, hcall, ht, hattested, hresult⟩

/-- A successful tool call consumes the attestation its operation had, which is valid for it. -/
theorem act_of_execute {binding : Binding} {short nativeId text : String}
    {arguments canonical : Value} {now : Nat} (ht : binding.token = token)
    (hcall : made.call = .execute binding short arguments nativeId now)
    (hargs : canonicalArguments short arguments = .ok (id, canonical))
    (hresult : made.result = .ok (.executed text))
    (hp : made.result = (made.call.perform made.before).1) :
    ∃ p u, validateAttestation p binding short nativeId canonical now = .ok u ∧
      act token id made = if short = "fetch_message" then .fetch p text
        else .reply p (arguments["text"].asStr.getD "") := by
  obtain ⟨before, call, result⟩ := made
  dsimp only at hcall hresult hp
  subst hcall hresult
  obtain ⟨id', canonical', op, _, p, _, u, hargs', -, -, -, hop, hproof, hvalid, -, -, -⟩ :=
    execute_cases (perform_ok hp.symm)
  rw [hargs] at hargs'
  cases hargs'
  have htarget : (Call.execute binding short arguments nativeId now).target = some (token, id) := by
    rw [Call.target, hargs, ← ht]
    rfl
  have hcell : (before.cell token id).bind Cell.proof = some p := by
    rw [← ht, cell_of_operation hop]
    exact hproof
  refine ⟨p, u, hvalid, ?_⟩
  rw [act, if_pos htarget, targetAct]
  simp only [hcell]

theorem Executed.act {short text : String} (h : Executed token id short text made)
    (hp : made.result = (made.call.perform made.before).1) :
    (act token id made).uses.isSome = true ∧
      (short = "fetch_message" → ∃ p, Channel.act token id made = .fetch p text) ∧
      (short = "reply" → ∃ p r, Channel.act token id made = .reply p r) := by
  obtain ⟨_, _, _, _, _, hcall, ht, hargs, hresult⟩ := h
  obtain ⟨p, _, -, hact⟩ := act_of_execute ht hcall hargs hresult hp
  rw [hact]
  refine ⟨?_, ?_, ?_⟩
  · split <;> rfl
  · intro hs
    exact ⟨p, if_pos hs⟩
  · intro hs
    exact ⟨p, _, if_neg (by rw [hs]; decide)⟩

end Acts

/-! ### The run -/

/-- The invariant of a history. -/
structure Kept (launched : String → String) (token id : String) (calls : List Made)
    (now : Ledger) : Prop where
  bound : Bound launched now
  owned : Owned launched now
  explained : Explained (calls.map (act token id)) (now.cell token id)

section Run

variable {launched : String → String} {token id : String} {start now : Ledger} {calls : List Made}

theorem kept (h : Calls launched start calls now) (hb : Bound launched start)
    (hu : Unused start) (ht : Canonical token) (hid : Canonical id) :
    Kept launched token id calls now := by
  refine h.invariant_entries (fun calls now => Kept launched token id calls now) ?_ ?_ ?_
  · refine ⟨hb, fun t i op _ _ hop => ?_, ?_⟩
    · rw [hu t i] at hop
      cases hop
    · rw [Ledger.cell, hu token id]
      exact .nil
  · intro calls now call _ hk
    refine ⟨?_, hk.owned.perform hk.bound call, ?_⟩
    · intro t thread hl
      rw [Call.launches_perform] at hl
      exact hk.bound t thread hl
    · rw [List.map_append]
      exact hk.explained.step (perform_cell hk.owned hk.bound ht hid call)
  · intro calls now now' _ hd hk
    refine ⟨hd.bound, hk.owned.elsewhere hd, ?_⟩
    rw [Ledger.cell, hd.operation]
    exact hk.explained

/-- An admitted operation is kept, its text unchanged. -/
theorem operation_kept {op : Operation} (h : Calls launched start calls now)
    (hb : Bound launched start) (ho : Owned launched start) (ht : Canonical token)
    (hid : Canonical id) (hop : start.operation token id = some op) :
    ∃ op', now.operation token id = some op' ∧ op'.text = op.text ∧
      ∀ r, op.reply = some r → op'.reply = some r := by
  suffices hk : Bound launched now ∧ Owned launched now ∧
      ∃ op', now.operation token id = some op' ∧ op'.text = op.text ∧
        ∀ r, op.reply = some r → op'.reply = some r from hk.2.2
  refine h.invariant (fun now => Bound launched now ∧ Owned launched now ∧
    ∃ op', now.operation token id = some op' ∧ op'.text = op.text ∧
      ∀ r, op.reply = some r → op'.reply = some r)
    ⟨hb, ho, op, hop, rfl, fun _ h => h⟩ ?_ ?_
  · rintro call u ⟨hb, ho, op₁, hop₁, htext, hreply⟩
    have hstep := perform_cell ho hb ht hid call
    rw [cell_of_operation hop₁] at hstep
    obtain ⟨c, hc, hctext, hcreply⟩ := hstep.kept
    obtain ⟨op₂, hop₂, rfl⟩ := Option.map_eq_some_iff.mp hc
    refine ⟨fun t thread hl => hb t thread (Call.launches_perform call u ▸ hl),
      ho.perform hb call, op₂, hop₂, hctext.trans htext, fun r hr => hcreply r (hreply r hr)⟩
  · rintro u u' hd ⟨-, ho, op₁, hop₁, hrest⟩
    exact ⟨hd.bound, ho.elsewhere hd, op₁, (hd.operation token id).trans hop₁, hrest⟩

/-! ### Revocation -/

/-- The route of a launch is revoked. -/
def Revoked (ledger : Ledger) (binding : Binding) : Prop :=
  ∃ route, ledger.metadata[routeKey binding]? = some (.route route) ∧ route.revoked = true

theorem Revoked.setMeta {ledger : Ledger} {binding : Binding} (h : Revoked ledger binding)
    {key : String} (hk : key ≠ routeKey binding) (row : Row) :
    Revoked (ledger.setMeta key row) binding := by
  obtain ⟨route, hroute, hr⟩ := h
  exact ⟨route, by rw [metadata_setMeta, if_neg hk, hroute], hr⟩

theorem RouteUpdate.revoked_apply (update : RouteUpdate) {route : Route}
    (h : route.revoked = true) : (update.apply route).revoked = true := by
  cases update <;> simp [RouteUpdate.apply, h]

/-- No call opens a revoked route. -/
theorem Revoked.perform {ledger : Ledger} {binding : Binding} (h : Revoked ledger binding)
    (call : Call) : Revoked (call.perform ledger).2 binding := by
  rw [Call.perform, transaction]
  cases hr : call.run ledger with
  | error e => exact h
  | ok r =>
      obtain ⟨outcome, ledger'⟩ := r
      cases call with
      | admitText b raw text =>
          obtain ⟨id, hraw, -, ⟨-, rfl⟩ | ⟨-, -, -, -, rfl⟩⟩ := admit_cases hr
          · exact h.setMeta routeKey_ne_threadKey.symm _
          · exact ((h.setMeta routeKey_ne_threadKey.symm _).setMeta ownerKey_ne_routeKey _).setMeta
              (opKey_ne_routeKey (Canonical.of_parse hraw)) _
      | install =>
          obtain ⟨_, _, _, _, -, hid, -, -, -, -, rfl⟩ := install_cases hr
          exact h.setMeta (opKey_ne_routeKey hid) _
      | execute =>
          obtain ⟨_, _, _, _, _, _, _, -, hid, -, -, -, -, -, -, -, rfl⟩ := execute_cases hr
          exact h.setMeta (opKey_ne_routeKey hid) _
      | change b update =>
          obtain ⟨route, hread, -, rfl⟩ := change_cases hr
          by_cases hk : routeKey b = routeKey binding
          · obtain ⟨old, hold, hrevoked⟩ := h
            rw [readRoute, hk, hold] at hread
            obtain rfl : old = route := Except.ok.inj hread
            exact ⟨update.apply old, by rw [metadata_setMeta, if_pos hk],
              update.revoked_apply hrevoked⟩
          · exact h.setMeta hk _

theorem Revoked.history {binding : Binding} (h : Revoked start binding)
    (hc : Calls launched start calls now) : Revoked now binding := by
  refine hc.invariant (fun ledger => Revoked ledger binding) h (fun call _ hu => hu.perform call) ?_
  rintro u u' hd ⟨route, hroute, hr⟩
  exact ⟨route, (hd.rows _ (.inl ⟨binding, rfl⟩)).trans hroute, hr⟩

/-- A call that needs the route is refused. -/
theorem Revoked.refuses {ledger : Ledger} {binding : Binding} (h : Revoked ledger binding)
    {call : Call} (ht : call.binding.token = binding.token) (hl : call.lifecycle = false) :
    ∃ e, (call.perform ledger).1 = .error e := by
  cases hres : (call.perform ledger).1 with
  | error e => exact ⟨e, rfl⟩
  | ok outcome =>
      have hauth : Authorised ledger call.binding := by
        have hrun := perform_ok hres
        cases call with
        | admitText => exact (admit_cases hrun).choose_spec.2.1
        | install =>
            obtain ⟨_, _, _, _, -, -, hauth, -⟩ := install_cases hrun
            exact hauth
        | execute =>
            obtain ⟨_, _, _, _, _, _, _, -, -, hauth, -⟩ := execute_cases hrun
            exact hauth
        | change => cases hl
      obtain ⟨route, hroute, hr⟩ := h
      rw [← routeKey_inj.mpr ht] at hroute
      rw [hauth.open_ route hroute] at hr
      cases hr

/-! ### The laws -/

section Laws

variable (hb : Bound launched start) (hu : Unused start) (ht : Canonical token) (hid : Canonical id)
include hb hu ht hid

/-- A recorded call is a step of the cell that the calls before it explain. -/
theorem split_step {pre post : List Made} {made : Made}
    (h : Calls launched start (pre ++ made :: post) now) :
    Explained (pre.map (act token id)) (made.before.cell token id) ∧
      CellStep (made.before.cell token id) (act token id made)
        ((made.call.perform made.before).2.cell token id) := by
  obtain ⟨hpre, hresult, -⟩ := h.split
  have hk := kept hpre hb hu ht hid
  refine ⟨hk.explained, ?_⟩
  have hstep := perform_cell hk.owned hk.bound ht hid made.call
  rwa [← hresult] at hstep

theorem once_fetched (h : Calls launched start calls now) :
    calls.Pairwise fun a b => ¬ ((∃ text, Executed token id "fetch_message" text a) ∧
      ∃ text, Executed token id "fetch_message" text b) := by
  refine pairwise_of_split fun pre b post hl a ha => ?_
  rintro ⟨⟨text, hfa⟩, text', hfb⟩
  subst hl
  obtain ⟨p, hp⟩ := (hfa.act (h.performed a (List.mem_append_left _ ha))).2.1 rfl
  obtain ⟨q, hq⟩ := (hfb.act h.split.2.1).2.1 rfl
  obtain ⟨hexplained, hstep⟩ := split_step hb hu ht hid h
  rw [hq] at hstep
  have hnone := (hexplained.fetch hstep).1 _ (List.mem_map_of_mem ha)
  rw [hp] at hnone
  cases hnone

theorem once_replied (h : Calls launched start calls now) :
    calls.Pairwise fun a b => ¬ ((∃ text, Executed token id "reply" text a) ∧
      ∃ text, Executed token id "reply" text b) := by
  refine pairwise_of_split fun pre b post hl a ha => ?_
  rintro ⟨⟨text, hfa⟩, text', hfb⟩
  subst hl
  obtain ⟨p, r, hp⟩ := (hfa.act (h.performed a (List.mem_append_left _ ha))).2.2 rfl
  obtain ⟨q, r', hq⟩ := (hfb.act h.split.2.1).2.2 rfl
  obtain ⟨hexplained, hstep⟩ := split_step hb hu ht hid h
  rw [hq] at hstep
  have hnone := (hexplained.answer hstep).1 _ (List.mem_map_of_mem ha)
  rw [hp] at hnone
  cases hnone

theorem fetched_admitted {pre post : List Made} {made : Made} {text : String}
    (h : Calls launched start (pre ++ made :: post) now)
    (hf : Executed token id "fetch_message" text made) : ∃ a ∈ pre, Admitted token id text a := by
  obtain ⟨p, hp⟩ := (hf.act h.split.2.1).2.1 rfl
  obtain ⟨hexplained, hstep⟩ := split_step hb hu ht hid h
  rw [hp] at hstep
  obtain ⟨a, ha, hact⟩ := List.mem_map.mp (hexplained.fetch hstep).2
  have hshows := shows_act token id a
  rw [hact] at hshows
  exact ⟨a, ha, hshows⟩

theorem replied_fetched {pre post : List Made} {made : Made} {text : String}
    (h : Calls launched start (pre ++ made :: post) now)
    (hf : Executed token id "reply" text made) :
    ∃ a ∈ pre, ∃ text, Executed token id "fetch_message" text a := by
  obtain ⟨p, r, hp⟩ := (hf.act h.split.2.1).2.2 rfl
  obtain ⟨hexplained, hstep⟩ := split_step hb hu ht hid h
  rw [hp] at hstep
  obtain ⟨b, hmem, hfetch⟩ := (hexplained.answer hstep).2
  obtain ⟨a, ha, rfl⟩ := List.mem_map.mp hmem
  have hshows := shows_act token id a
  generalize act token id a = b at hshows hfetch
  cases b with
  | fetch p text => exact ⟨a, ha, text, hshows⟩
  | _ => cases hfetch

theorem stored_replied (h : Calls launched start calls now) {op : Operation} {r : String}
    (hop : now.operation token id = some op) (hr : op.reply = some r) :
    ∃ made ∈ calls, ∃ text, Executed token id "reply" text made := by
  have hk := kept h hb hu ht hid
  obtain ⟨b, hmem, hreply⟩ :=
    (hk.explained.reply op.cell (cell_of_operation hop)).mp (Option.isSome_of_eq_some hr)
  obtain ⟨a, ha, rfl⟩ := List.mem_map.mp hmem
  have hshows := shows_act token id a
  generalize act token id a = b at hshows hreply
  cases b with
  | reply p r => exact ⟨a, ha, hshows⟩
  | _ => cases hreply

theorem executed_attested {pre post : List Made} {made : Made} {binding : Binding}
    {short nativeId text : String} {arguments canonical : Value} {time : Nat}
    (h : Calls launched start (pre ++ made :: post) now)
    (hcall : made.call = .execute binding short arguments nativeId time)
    (htoken : binding.token = token)
    (hargs : canonicalArguments short arguments = .ok (id, canonical))
    (hresult : made.result = .ok (.executed text)) :
    ∃ before x since p, pre = before ++ x :: since ∧ Installed token id p x ∧
      p.toolId = nativeId ∧ p.toolName = toolName binding short ∧ p.arguments = canonical ∧
      p.issued ≤ time ∧ time ≤ p.issued + ttl ∧
      ∀ y ∈ since, ∀ short text, ¬ Executed token id short text y := by
  obtain ⟨p, u, hvalid, hact⟩ := act_of_execute htoken hcall hargs hresult h.split.2.1
  have huses : (act token id made).uses = some p := by
    rw [hact]
    split <;> rfl
  obtain ⟨hexplained, hstep⟩ := split_step hb hu ht hid h
  obtain ⟨preActs, sinceActs, hsplit, hsince⟩ := hexplained.consumed hstep huses
  obtain ⟨before, rest, rfl, -, hrest⟩ := List.map_eq_append_iff.mp hsplit
  obtain ⟨x, since, rfl, hx, rfl⟩ := List.map_eq_cons_iff.mp hrest
  have hshows := shows_act token id x
  rw [hx] at hshows
  simp only [validateAttestation, bind_eq_ok, ensure_eq_ok, Bool.and_eq_true, decide_eq_true_eq] at hvalid
  obtain ⟨_, ⟨⟨hid', hname⟩, heq⟩, hissued, hage⟩ := hvalid
  obtain ⟨-, ⟨m, rfl⟩, -⟩ := canonicalArguments_spec hargs
  refine ⟨before, x, since, p, rfl, hshows.installed ?_, hid', hname, eq_strings heq, hissued,
    by omega, fun y hy short text hex => ?_⟩
  · exact h.performed x (by simp)
  · have hused := (hex.act (h.performed y (by simp [hy]))).1
    rw [hsince _ (List.mem_map_of_mem hy)] at hused
    cases hused

/-- **Continuation content is one-use, ordered and attested.** -/
theorem continuation_release (h : Calls launched start calls now) :
    Released token id calls now where
  text pre made post op hl hop := by
    subst hl
    obtain ⟨hpre, -, hpost⟩ := h.split
    have hk := kept hpre hb hu ht hid
    exact operation_kept ((History.nil.call made.call).trans hpost) hk.bound hk.owned ht hid hop
  fetchedOnce := once_fetched hb hu ht hid h
  fetched pre made post text hl hf := by
    subst hl
    exact fetched_admitted hb hu ht hid h hf
  repliedOnce := once_replied hb hu ht hid h
  stored op r hop hr := stored_replied hb hu ht hid h hop hr
  replied pre made post text hl hf := by
    subst hl
    exact replied_fetched hb hu ht hid h hf
  attested pre made post binding short arguments nativeId time canonical text hl hcall htoken
      hargs hresult := by
    subst hl
    exact executed_attested hb hu ht hid h hcall htoken hargs hresult
  refused made hm e he := perform_error ((h.performed made hm).symm.trans he)
  revoked pre made post binding route hl htoken hroute hr later hlater htoken' hlife := by
    subst hl
    have hrevoked : Revoked made.before binding := ⟨route, hroute, hr⟩
    obtain ⟨-, hresult, hpost⟩ := h.split
    rw [← htoken] at htoken'
    rcases List.mem_cons.mp hlater with rfl | hmem
    · rw [hresult]
      exact hrevoked.refuses htoken' hlife
    · obtain ⟨between, rest, rfl⟩ := List.append_of_mem hmem
      obtain ⟨hbetween, hresult', -⟩ := hpost.split
      rw [hresult']
      exact ((hrevoked.perform made.call).history hbetween).refuses htoken' hlife

end Laws

end Run

/-! ### A delivered message -/

def deliveredBinding : Binding where
  token := "0f8fad5b-d9cb-469f-a165-70867728950e"
  thread := "7c9e6679-7425-40de-944b-e07fc1f90ae7"
  nativePid := 41
  nativeStart := 7
  serverName := "pika"

/-- A watched conversation whose launch is certified and whose channel has started. -/
def deliveredStart : Ledger where
  sessions := (∅ : ExtTreeMap String Status compare).insert deliveredBinding.thread .ready
  watched := (∅ : ExtTreeSet String compare).insert deliveredBinding.thread
  launches := (∅ : ExtTreeMap String (Provider × String) compare).insert deliveredBinding.token
    (.claude, deliveredBinding.thread)
  owners := (∅ : ExtTreeMap String RecoveryOwner compare).insert deliveredBinding.thread
    ⟨41, 7, deliveredBinding.token⟩
  metadata := (∅ : ExtTreeMap String Row compare).insert (routeKey deliveredBinding)
    (.route ⟨true, true, false⟩)

def deliveredId : String := "16fd2706-8baf-433b-82eb-8c7fada847da"

/-- What the native hook reads before a tool call. -/
def deliveredHook (short toolId : String) (arguments : Value) : Value :=
  .object [("hook_event_name", .string "PreToolUse"),
    ("session_id", .string deliveredBinding.thread), ("tool_input", arguments),
    ("tool_name", .string (toolName deliveredBinding short)), ("tool_use_id", .string toolId)]

def fetchArguments : Value := .object [("operation_id", .string deliveredId)]

def replyArguments : Value :=
  .object [("operation_id", .string deliveredId), ("text", .string "Done.")]

/-- The message is fetched and answered once each, both attested; the other calls are refused. -/
def deliveredCalls : List Call :=
  [.admitText deliveredBinding deliveredId "Run the tests.",
    .execute deliveredBinding "fetch_message" fetchArguments "toolu_1" 100,
    .install deliveredBinding (deliveredHook "fetch_message" "toolu_1" fetchArguments) 100,
    .execute deliveredBinding "fetch_message" fetchArguments "toolu_1" 105,
    .execute deliveredBinding "fetch_message" fetchArguments "toolu_1" 106,
    .install deliveredBinding (deliveredHook "reply" "toolu_2" replyArguments) 200,
    .execute deliveredBinding "reply" replyArguments "toolu_2" 260]

theorem continuation_release_delivered :
    ∃ calls now, Calls (fun _ => deliveredBinding.thread) deliveredStart calls now ∧
      (calls.map fun made : Made => Support.succeeds made.result) = [true, false, true, true, false, true, true] ∧
      Released deliveredBinding.token deliveredId calls now := by
  have hbound : Bound (fun _ => deliveredBinding.thread) deliveredStart := by
    intro token thread hl
    rw [deliveredStart, ExtTreeMap.getElem?_insert] at hl
    split at hl
    · cases hl
      rfl
    · simp at hl
  have hunused : Unused deliveredStart := by
    intro token id
    have hrow : deliveredStart.metadata[opKey token id]? = none ∨
        deliveredStart.metadata[opKey token id]? = some (.route ⟨true, true, false⟩) := by
      rw [deliveredStart, ExtTreeMap.getElem?_insert]
      split
      · exact .inr rfl
      · exact .inl (by simp)
    rcases hrow with hrow | hrow <;> rw [Ledger.operation, hrow]
  have h : History Call.perform (Elsewhere fun _ => deliveredBinding.thread) deliveredStart _ _ :=
    History.replay deliveredStart deliveredCalls
  exact ⟨_, _, h, by decide +kernel,
    continuation_release hbound hunused (by decide +kernel) (by decide +kernel) h⟩

end Pikamux.Channel
