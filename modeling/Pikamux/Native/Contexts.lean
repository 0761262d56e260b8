import Pikamux.Native.Recovery

/-!
# Native — Contexts

A retired conversation is never used again, whatever the order in which conversations are admitted,
recorded and retired and memory is forgotten.

* `Moved`, `Rebound` — how one statement changes the contexts and the binding.
* `Later`, `Fenced` — what others may do to a call without the launch lock, and to one that has it.
* `Undisturbed` — nothing came between a check and the statement that it was made for.
* `native_contexts` — the law of an undisturbed run.
-/

namespace Pikamux.Native

open Support Support.Program

inductive ContextCall where
  | requireContext (profile scope : String) (thread : Option String)
  | requireCurrentContext (profile scope : String)
  | recordContext (profile scope thread : String)
  | recordThread (profile scope launchToken thread : String)
  | freshContext (profile scope request : String)
  /-- Something is forgotten. -/
  | forget
  /-- `bind_launch`: a launch has reported its conversation. -/
  | bindLaunch (launchToken : String) (provider : Provider) (thread : String)
  deriving DecidableEq

inductive ContextReply where
  | admitted (thread : Option String)
  | recorded (epoch : Nat)
  | recovered (receipt : Recovery)
  | done
  deriving DecidableEq, Repr

abbrev ContextReplies := Except NativeError ContextReply

/-- Whether a call takes the launch lock. -/
def ContextCall.wants : ContextCall → Bool
  | recordThread .. | freshContext .. => true
  | _ => false

def ContextCall.action (held : Bool) : ContextCall → Action ContextReply
  | requireContext profile scope thread => do
      Native.requireContext profile scope thread
      return .admitted thread
  | requireCurrentContext profile scope => do
      let thread ← Native.requireCurrentContext profile scope
      return .admitted thread
  | recordContext profile scope thread => do
      let epoch ← Native.recordContext profile scope thread
      return .recorded epoch
  | recordThread profile scope launchToken thread => do
      Native.recordThread profile scope launchToken thread held
      return .done
  | freshContext profile scope request => do
      require held (.refused "Pika is opening in another window. No second conversation was started.")
      let receipt ← Native.freshContext profile scope request
      return .recovered receipt
  | forget => do
      transaction fun _ home => .ok ((), { home with epoch := home.epoch + 1 })
      return .done
  | bindLaunch launchToken provider thread => do
      transaction fun _ home =>
        let launches := home.launches.insert? launchToken (provider, thread)
        .ok ((), { home with launches := launches.getD home.launches })
      return .done

def ContextCall.code (call : ContextCall) (held : Bool) : Program Chance Home ContextReplies :=
  (call.action held).run

abbrev Contexts := Locked Chance Home ContextReplies ContextCall

abbrev ContextMove := Locked.Move Chance ContextCall

abbrev ContextAnswer := Locked.Answer Home ContextReplies ContextCall

abbrev ContextEntry := Entry Contexts ContextMove (Option ContextAnswer)

def contexts (m : ContextMove) (machine : Contexts) : Option ContextAnswer × Contexts :=
  machine.move ContextCall.wants ContextCall.code m

/-! ### Contexts and bindings -/

/-- The retirement of a conversation has begun. -/
def Begun (thread : String) (s : Home) : Prop :=
  ∃ c, s.contexts.get? thread = some c ∧ c.state ≠ .active

def Retired (thread : String) (s : Home) : Prop :=
  ∃ c, s.contexts.get? thread = some c ∧ c.state = .retired

def RetiredBy (request thread : String) (s : Home) : Prop :=
  ∃ c, s.contexts.get? thread = some c ∧ c.retirementId = some request ∧ c.state = .retired

/-- The binding is about this conversation. -/
def Recorded (thread : String) (s : Home) : Prop :=
  ∃ b, s.binding = some b ∧
    (b.threadId = some thread ∨ s.launches.get? b.launchToken = some (.codex, thread))

/-- At most one context of a profile is not retired. -/
def Single (s : Home) : Prop :=
  ∀ thread other c c', s.contexts.get? thread = some c → s.contexts.get? other = some c' →
    c.profile = c'.profile → c.state ≠ .retired → c'.state ≠ .retired → thread = other

/-- A request retires one conversation. -/
def Exact (s : Home) : Prop :=
  ∀ thread other c c' request, s.contexts.get? thread = some c → s.contexts.get? other = some c' →
    c.retirementId = some request → c'.retirementId = some request → thread = other

/-- There is a binding, and it was made before now. -/
def Bound (s : Home) : Prop := ∃ b, s.binding = some b ∧ b.memoryEpoch ≤ s.epoch

/-- A conversation may be admitted that has no row, or one that was made since and is active. -/
def Reusable (epoch : Nat) (thread : Option String) (s : Home) : Prop :=
  ∀ named, thread = some named → ∀ c, s.contexts.get? named = some c →
    c.state = .active ∧ epoch ≤ c.memoryEpoch

/-! ### What one statement does -/

/-- What a later row keeps of an earlier one. -/
structure Context.Later (c c' : Context) : Prop where
  profile : c'.profile = c.profile
  memoryEpoch : c'.memoryEpoch = c.memoryEpoch
  begun : c.state ≠ .active → c'.state ≠ .active
  retired : c.state = .retired → c' = c

/-- What every call may rely on. -/
structure Later (s t : Home) : Prop where
  epoch : s.epoch ≤ t.epoch
  contexts : ∀ thread c, s.contexts.get? thread = some c →
    ∃ c', t.contexts.get? thread = some c' ∧ c.Later c'
  binding : ∀ b, s.binding = some b → ∃ b', t.binding = some b' ∧ b.memoryEpoch ≤ b'.memoryEpoch

/-- What a call that has the launch lock may rely on. -/
structure Fenced (s t : Home) : Prop where
  epoch : s.epoch ≤ t.epoch
  kept : ∀ thread c, s.contexts.get? thread = some c → t.contexts.get? thread = some c
  added : ∀ thread c, s.contexts.get? thread = none → t.contexts.get? thread = some c →
    c.state = .active ∧ c.retirementId = none
  binding : ∀ b, s.binding = some b → t.binding = some b
  launches : ∀ token thread, t.launches.get? token = some (.codex, thread) →
    s.launches.get? token = some (.codex, thread) ∨ ¬ Retired thread s

/-- One row is written. -/
def Wrote (thread : String) (c : Context) (s t : Home) : Prop :=
  ∀ other, t.contexts.get? other = if other = thread then some c else s.contexts.get? other

/-- How a statement changes the contexts. -/
inductive Moved (held : Bool) (s t : Home) : Prop where
  | same (h : t.contexts = s.contexts)
  | inserted (thread : String) (c : Context) (hnew : s.contexts.get? thread = none)
      (hactive : c.state = .active) (hid : c.retirementId = none)
      (honly : ∀ other c', s.contexts.get? other = some c' → c'.profile = c.profile →
        c'.state ≠ .active)
      (hwrote : Wrote thread c s t)
  | staged (thread request : String) (c : Context) (hheld : held = true)
      (hstate : c.state = .retiring) (hid : c.retirementId = some request)
      (hold : ∀ c', s.contexts.get? thread = some c' → c'.state ≠ .retired ∧
        c'.profile = c.profile ∧ c'.memoryEpoch = c.memoryEpoch)
      (honly : ∀ other c', s.contexts.get? other = some c' → c'.profile = c.profile →
        c'.state ≠ .retired → other = thread)
      (hexact : ∀ other c', s.contexts.get? other = some c' → c'.retirementId = some request →
        other = thread)
      (hwrote : Wrote thread c s t)
  | retired (thread : String) (c : Context) (hheld : held = true)
      (hold : s.contexts.get? thread = some c) (hstate : c.state = .retiring)
      (hwrote : Wrote thread { c with state := .retired } s t)

/-- How a statement of a call that has the launch lock changes the binding. -/
inductive Rebound (call : ContextCall) (started s t : Home) : Prop where
  | recorded (b : Binding) (thread : String) (hold : s.binding = some b)
      (hnew : t.binding = some { b with threadId := some thread })
      (hactive : ∃ c, t.contexts.get? thread = some c ∧ c.state = .active)
      (hcall : ∀ profile scope request, call ≠ .freshContext profile scope request)
  | replaced (b b' : Binding) (hold : s.binding = some b) (hnew : t.binding = some b')
      (hthread : b'.threadId = none) (hle : b.memoryEpoch ≤ b'.memoryEpoch)
      (hepoch : b'.memoryEpoch ≤ t.epoch)
      (hrequest : ∀ profile scope request, call = .freshContext profile scope request →
        ∀ thread, RetiredBy request thread started → Recorded thread started)

/-- What one statement of a call does. -/
structure Allowed (held : Bool) (call : ContextCall) (started s t : Home) : Prop where
  epoch : s.epoch ≤ t.epoch
  contexts : Moved held s t
  binding : t.binding = s.binding ∨ held = true ∧ Rebound call started s t

/-- Nothing came between a check and the statement that it was made for: no other context of the
profile is being retired when one is recorded.  Launches name conversations that are not retired,
and a new launch token is not in use. -/
structure Undisturbed (s t : Home) : Prop where
  recorded : ∀ thread c, s.contexts.get? thread = none → t.contexts.get? thread = some c →
    c.state = .active → ∀ other c', s.contexts.get? other = some c' → c'.profile = c.profile →
      c'.state ≠ .retiring
  launches : ∀ token thread, t.launches.get? token = some (.codex, thread) →
    s.launches.get? token = some (.codex, thread) ∨ ¬ Retired thread s
  tokens : ∀ b b', s.binding = some b → t.binding = some b' → b'.launchToken ≠ b.launchToken →
    t.launches.get? b'.launchToken = none

section Relations

variable {s t u : Home} {held : Bool} {call : ContextCall} {started : Home} {thread : String}
  {c : Context}

theorem Context.Later.refl (c : Context) : c.Later c := ⟨rfl, rfl, id, fun _ => rfl⟩

theorem Context.Later.trans {c c' c'' : Context} (h : c.Later c') (h' : c'.Later c'') :
    c.Later c'' where
  profile := h'.profile.trans h.profile
  memoryEpoch := h'.memoryEpoch.trans h.memoryEpoch
  begun hc := h'.begun (h.begun hc)
  retired hc := by
    have hc' := h.retired hc
    subst hc'
    exact h'.retired hc

theorem Later.refl (s : Home) : Later s s :=
  ⟨le_rfl, fun _ c hc => ⟨c, hc, .refl c⟩, fun b hb => ⟨b, hb, le_rfl⟩⟩

theorem Later.trans (h : Later s t) (h' : Later t u) : Later s u where
  epoch := h.epoch.trans h'.epoch
  contexts thread c hc := by
    obtain ⟨c', hc', hlater⟩ := h.contexts thread c hc
    obtain ⟨c'', hc'', hlater'⟩ := h'.contexts thread c' hc'
    exact ⟨c'', hc'', hlater.trans hlater'⟩
  binding b hb := by
    obtain ⟨b', hb', hle⟩ := h.binding b hb
    obtain ⟨b'', hb'', hle'⟩ := h'.binding b' hb'
    exact ⟨b'', hb'', hle.trans hle'⟩

theorem Later.retired (h : Later s t) (hs : Retired thread s) : Retired thread t := by
  obtain ⟨c, hc, hstate⟩ := hs
  obtain ⟨c', hc', hlater⟩ := h.contexts thread c hc
  exact ⟨c, (hlater.retired hstate) ▸ hc', hstate⟩

theorem Later.begun (h : Later s t) (hs : Begun thread s) : Begun thread t := by
  obtain ⟨c, hc, hstate⟩ := hs
  obtain ⟨c', hc', hlater⟩ := h.contexts thread c hc
  exact ⟨c', hc', hlater.begun hstate⟩

theorem Fenced.later (h : Fenced s t) : Later s t where
  epoch := h.epoch
  contexts thread c hc := ⟨c, h.kept thread c hc, .refl c⟩
  binding b hb := ⟨b, h.binding b hb, le_rfl⟩

theorem Fenced.refl (s : Home) : Fenced s s where
  epoch := le_rfl
  kept _ _ hc := hc
  added _ _ hnone hc := by
    rw [hnone] at hc
    cases hc
  binding _ hb := hb
  launches _ _ hl := .inl hl

theorem Fenced.trans (h : Fenced s t) (h' : Fenced t u) : Fenced s u where
  epoch := h.epoch.trans h'.epoch
  kept thread c hc := h'.kept thread c (h.kept thread c hc)
  added thread c hnone hc := by
    cases ht : t.contexts.get? thread with
    | none => exact h'.added thread c ht hc
    | some c' =>
        have hc' := h'.kept thread c' ht
        rw [hc] at hc'
        cases hc'
        exact h.added thread c hnone ht
  binding b hb := h'.binding b (h.binding b hb)
  launches token thread hl := by
    rcases h'.launches token thread hl with hl | hnot
    · exact h.launches token thread hl
    · exact .inr fun hs => hnot (h.later.retired hs)

/-- A context that names a request was there before. -/
theorem Fenced.named (h : Fenced s t) {request : String} (hc : t.contexts.get? thread = some c)
    (hid : c.retirementId = some request) : s.contexts.get? thread = some c := by
  cases hs : s.contexts.get? thread with
  | none =>
      have hadded := (h.added thread c hs hc).2
      rw [hid] at hadded
      cases hadded
  | some c' =>
      have hc' := h.kept thread c' hs
      rw [hc] at hc'
      cases hc'
      rfl

theorem Fenced.exact (h : Fenced s t) (hs : Exact s) : Exact t :=
  fun thread other c c' request hc hc' hid hid' =>
    hs thread other c c' request (h.named hc hid) (h.named hc' hid') hid hid'

/-- What is recorded of a retired conversation was recorded before. -/
theorem Fenced.recorded (h : Fenced s t) (hbound : s.binding.isSome = true)
    (hretired : Retired thread s) (ht : Recorded thread t) : Recorded thread s := by
  obtain ⟨b, hb⟩ := Option.isSome_iff_exists.mp hbound
  obtain ⟨b', hb', hthread⟩ := ht
  rw [h.binding b hb] at hb'
  cases hb'
  refine ⟨b, hb, hthread.imp_right fun hl => ?_⟩
  exact (h.launches b.launchToken thread hl).resolve_right fun hnot => hnot hretired

theorem Moved.contexts (h : Moved held s t) (hc : s.contexts.get? thread = some c) :
    ∃ c', t.contexts.get? thread = some c' ∧ c.Later c' := by
  have hkept {other : String} {row : Context} (hwrote : Wrote other row s t)
      (hne : thread ≠ other) : ∃ c', t.contexts.get? thread = some c' ∧ c.Later c' :=
    ⟨c, by rw [hwrote thread, if_neg hne, hc], .refl c⟩
  cases h with
  | same h => exact ⟨c, h ▸ hc, .refl c⟩
  | inserted other row hnew _ _ _ hwrote =>
      refine hkept hwrote ?_
      rintro rfl
      rw [hnew] at hc
      cases hc
  | staged other request row _ hstate _ hold _ _ hwrote =>
      by_cases heq : thread = other
      · subst heq
        obtain ⟨hnot, hprofile, hepoch⟩ := hold c hc
        refine ⟨row, by rw [hwrote thread, if_pos rfl], ⟨hprofile.symm, hepoch.symm, ?_, ?_⟩⟩
        · intro _
          rw [hstate]
          decide
        · exact fun h => absurd h hnot
      · exact hkept hwrote heq
  | retired other row _ hold hstate hwrote =>
      by_cases heq : thread = other
      · subst heq
        rw [hold] at hc
        cases hc
        refine ⟨{ c with state := .retired }, by rw [hwrote thread, if_pos rfl],
          ⟨rfl, rfl, by simp, fun h => ?_⟩⟩
        rw [hstate] at h
        cases h
      · exact hkept hwrote heq

theorem Allowed.refl (s : Home) : Allowed held call started s s := ⟨le_rfl, .same rfl, .inl rfl⟩

theorem Allowed.later (h : Allowed held call started s t) : Later s t where
  epoch := h.epoch
  contexts _ _ hc := h.contexts.contexts hc
  binding b hb := by
    rcases h.binding with hsame | ⟨-, hrebound⟩
    · exact ⟨b, hsame ▸ hb, le_rfl⟩
    · cases hrebound with
      | recorded b' thread hold hnew =>
          rw [hold] at hb
          cases hb
          exact ⟨_, hnew, le_rfl⟩
      | replaced b' b'' hold hnew _ hle =>
          rw [hold] at hb
          cases hb
          exact ⟨b'', hnew, hle⟩

/-- What a call without the launch lock does is within what the one with the lock relies on. -/
theorem Allowed.fenced (h : Allowed false call started s t) (hcalm : Undisturbed s t) :
    Fenced s t where
  epoch := h.epoch
  kept thread c hc := by
    cases h.contexts with
    | same h => exact h ▸ hc
    | inserted other row hnew _ _ _ hwrote =>
        rw [hwrote thread, if_neg, hc]
        rintro rfl
        rw [hnew] at hc
        cases hc
    | staged _ _ _ hheld => cases hheld
    | retired _ _ hheld => cases hheld
  added thread c hnone hc := by
    cases h.contexts with
    | same h =>
        rw [h, hnone] at hc
        cases hc
    | inserted other row hnew hactive hid _ hwrote =>
        rw [hwrote thread] at hc
        split at hc
        · cases hc
          exact ⟨hactive, hid⟩
        · rw [hnone] at hc
          cases hc
    | staged _ _ _ hheld => cases hheld
    | retired _ _ hheld => cases hheld
  binding b hb := by
    rcases h.binding with hsame | ⟨hheld, -⟩
    · exact hsame ▸ hb
    · cases hheld
  launches := hcalm.launches

end Relations

/-! ### Every call -/

/-- What a call may rely on. -/
def relies : Bool → Home → Home → Prop
  | true => Fenced
  | false => Later

theorem relies_refl (held : Bool) (s : Home) : relies held s s := by
  cases held
  · exact Later.refl s
  · exact Fenced.refl s

theorem relies_trans {held : Bool} {s t u : Home} (h : relies held s t) (h' : relies held t u) :
    relies held s u := by
  cases held
  · exact Later.trans h h'
  · exact Fenced.trans h h'

theorem relies_later {held : Bool} {s t : Home} (h : relies held s t) : Later s t := by
  cases held
  · exact h
  · exact Fenced.later h

/-- What a call does and what it returns when it succeeds. -/
abbrev Runs {α : Type} (held : Bool) (call : ContextCall) (started : Home)
    (post : α → Home → Prop) (p : Action α) (s : Home) : Prop :=
  Yields (relies held) (Allowed held call started) post p s

section Calls

variable {held : Bool} {call : ContextCall} {started s : Home} {profile scope : String}
  {α : Type} {f : Home → Except NativeError α}

/-- What is read is true when it is read. -/
theorem runs_query : Runs held call started (fun a t => relies held s t ∧ f t = .ok a)
    (query f) s :=
  yields_query Allowed.refl fun _ _ ht hf => ⟨ht, hf⟩

theorem runs_check {x : Except NativeError α} :
    Runs held call started (fun a t => t = s ∧ x = .ok a) (check x) s :=
  yields_check fun _ hx => ⟨rfl, hx⟩

theorem runs_epochOf : Runs held call started
    (fun epoch t => relies held s t ∧ s.epoch ≤ epoch ∧ epoch ≤ t.epoch)
    (epochOf profile scope) s := by
  refine Yields.bind runs_query ?_
  rintro _ t ⟨ht, -⟩
  refine Yields.bind runs_check ?_
  rintro _ _ ⟨rfl, -⟩
  refine runs_query.imp ?_
  rintro epoch u ⟨hu, hepoch⟩
  cases hepoch
  exact ⟨relies_trans ht hu, (relies_later ht).epoch.trans (relies_later hu).epoch, le_rfl⟩

theorem runs_requireNoOther {thread : Option String} : Runs held call started
    (fun _ t => relies held s t) (requireNoOther profile thread) s := by
  cases thread with
  | none => exact yields_pure (relies_refl held s)
  | some thread =>
      refine Yields.bind runs_check ?_
      rintro _ _ ⟨rfl, -⟩
      exact runs_query.imp fun _ t ht => ht.1

/-- What was checked when a conversation is admitted. -/
theorem runs_requireContext {thread : Option String} : Runs held call started
    (fun _ t => ∃ u, relies held s u ∧ relies held u t ∧ Reusable s.epoch thread u)
    (requireContext profile scope thread) s := by
  refine Yields.bind runs_epochOf ?_
  rintro epoch t ⟨ht, hle, -⟩
  refine Yields.bind runs_requireNoOther fun _ u hu => Yields.bind runs_query ?_
  rintro row v ⟨hv, hrow⟩
  cases hrow
  refine Yields.bind runs_check ?_
  rintro _ v ⟨rfl, hsaved⟩
  refine runs_query.imp fun _ w hw => ?_
  refine ⟨v, relies_trans ht (relies_trans hu hv), hw.1, ?_⟩
  rintro named rfl c hc
  rw [requireSavedContext, savedContext, hc, ensure_eq_ok, Option.all_some, Bool.and_eq_true,
    Bool.and_eq_true, decide_eq_true_iff, decide_eq_true_iff] at hsaved
  exact ⟨hsaved.2, hsaved.1.2.symm ▸ hle⟩

/-- It was so from the start. -/
theorem Reusable.before {epoch : Nat} {thread : Option String} {t : Home} (hlater : Later s t)
    (h : Reusable epoch thread t) : Reusable epoch thread s := by
  intro named hnamed c hc
  obtain ⟨c', hc', hrow⟩ := hlater.contexts named c hc
  obtain ⟨hactive, hle⟩ := h named hnamed c' hc'
  refine ⟨?_, hrow.memoryEpoch ▸ hle⟩
  by_contra hnot
  exact hrow.begun hnot hactive

theorem Reusable.since {thread : Option String} {t : Home} (hlater : Later s t)
    (h : Reusable t.epoch thread t) : Reusable s.epoch thread s :=
  Reusable.before hlater fun named hnamed c hc =>
    (h named hnamed c hc).imp_right hlater.epoch.trans

/-- A row that may be admitted stays so, and one that is added is. -/
theorem Fenced.active {s t : Home} {thread : String} (h : Fenced s t)
    (hs : ∀ c, s.contexts.get? thread = some c → c.state = .active) :
    ∀ c, t.contexts.get? thread = some c → c.state = .active := by
  intro c hc
  cases hrow : s.contexts.get? thread with
  | none => exact (h.added thread c hrow hc).1
  | some c' =>
      have hc' := h.kept thread c' hrow
      rw [hc] at hc'
      cases hc'
      exact hs c hrow

theorem insertContext_eq {thread : String} {current : Nat} {r : Unit × Home}
    (h : insertContext profile scope thread current s = .ok r) :
    (r.2 = s ∧ (s.contexts.get? thread).isSome = true) ∨
    ∃ c rows, s.contexts.insert? thread c = some rows ∧ r.2 = { s with contexts := rows } ∧
      c.state = .active ∧ c.retirementId = none ∧ c.profile = profile ∧ c.scope = scope ∧
      ∀ other c', s.contexts.get? other = some c' → c'.profile = c.profile →
        c'.state ≠ .active := by
  rw [insertContext] at h
  split at h
  · rename_i hcontains
    cases h
    exact .inl ⟨rfl, hcontains⟩
  · obtain ⟨_, honly, h⟩ := bind_eq_ok.mp h
    obtain ⟨rows, hinsert, h⟩ := bind_eq_ok.mp h
    rw [context_eq_ok] at hinsert
    cases h
    refine .inr ⟨_, rows, hinsert, rfl, rfl, rfl, rfl, rfl,
      fun other c' hc' hprofile hactive => ?_⟩
    rw [ensure_eq_ok, Bool.not_eq_true'] at honly
    have hany : (s.contexts.any fun _ context =>
        context.profile = profile && context.state = .active) = true :=
      Table.any_iff.mpr ⟨other, c', hc', by simpa using ⟨hprofile, hactive⟩⟩
    rw [honly] at hany
    cases hany

/-- `INSERT … ON CONFLICT(thread_id) DO NOTHING`. -/
theorem insertContext_moved (held : Bool) {thread : String} {current : Nat} {r : Unit × Home}
    (h : insertContext profile scope thread current s = .ok r) :
    Allowed held call started s r.2 ∧ relies held s r.2 ∧
      (r.2.contexts.get? thread = s.contexts.get? thread ∧
          (s.contexts.get? thread).isSome = true ∨
        ∃ c, r.2.contexts.get? thread = some c ∧ c.state = .active) := by
  rcases insertContext_eq h with ⟨hsame, hsome⟩ | ⟨c, rows, hinsert, hsame, hactive, hid, -, -, honly⟩
  · rw [hsame]
    exact ⟨.refl s, relies_refl held s, .inl ⟨rfl, hsome⟩⟩
  · rw [hsame]
    have hget := Table.get?_insert? hinsert
    have hnew := (Table.insert?_eq_some.mp hinsert).1
    have hallowed (held : Bool) : Allowed held call started s { s with contexts := rows } :=
      ⟨le_rfl, .inserted thread c hnew hactive hid honly hget, .inl rfl⟩
    refine ⟨hallowed held, ?_, .inr ⟨c, by rw [hget, if_pos rfl], hactive⟩⟩
    cases held with
    | false => exact (hallowed false).later
    | true =>
        refine ⟨le_rfl, fun other c' hc' => ?_, fun other c' hnone hc' => ?_, fun _ hb => hb,
          fun _ _ hl => .inl hl⟩
        · rw [hget, if_neg, hc']
          rintro rfl
          rw [hnew] at hc'
          cases hc'
        · rw [hget] at hc'
          split at hc'
          · cases hc'
            exact ⟨hactive, hid⟩
          · rw [hnone] at hc'
            cases hc'

/-- A conversation that is recorded could be admitted; with the launch lock it still is. -/
theorem runs_recordContext {thread : String} : Runs held call started
    (fun _ t => relies held s t ∧ Reusable s.epoch (some thread) s ∧
      (held = true → ∃ c, t.contexts.get? thread = some c ∧ c.state = .active))
    (recordContext profile scope thread) s := by
  refine Yields.bind runs_check ?_
  rintro _ s ⟨rfl, -⟩
  refine Yields.bind runs_requireContext ?_
  rintro _ t ⟨u, hu, ht, hreusable⟩
  refine Yields.bind runs_epochOf ?_
  rintro current v ⟨hv, -⟩
  refine yields_bind (fun _ t => relies held s t ∧
    (held = true → ∃ c, t.contexts.get? thread = some c ∧ c.state = .active))
    (yields_transaction Allowed.refl fun _ w _ x hw h => ?_) fun _ x hx =>
      yields_pure ⟨hx.1, hreusable.before (relies_later hu), hx.2⟩
  obtain ⟨hallowed, hrelies, hrow⟩ := insertContext_moved held h
  refine ⟨hallowed, relies_trans hu (relies_trans ht (relies_trans hv (relies_trans hw hrelies))),
    ?_⟩
  rintro rfl
  rcases hrow with ⟨hsame, hsome⟩ | hactive
  · obtain ⟨c, hc⟩ := Option.isSome_iff_exists.mp hsome
    have huw : Fenced u w := Fenced.trans ht (Fenced.trans hv hw)
    exact ⟨c, hsame.trans hc, huw.active (fun c hc => (hreusable thread rfl c hc).1) c hc⟩
  · exact hactive

theorem existingBinding_eq {home : Home} {b : Option Binding}
    (h : existingBinding profile scope home = .ok b) : home.binding = b := by
  rw [existingBinding] at h
  split at h
  · rename_i hnone
    cases h
    exact hnone
  · rename_i existing hsome
    obtain ⟨_, -, h⟩ := bind_eq_ok.mp h
    obtain ⟨_, -, h⟩ := bind_eq_ok.mp h
    obtain ⟨_, -, h⟩ := bind_eq_ok.mp h
    cases h
    exact hsome

theorem runs_bindScope (hbound : Bound s) : Runs held call started
    (fun b t => relies held s t ∧ t.binding = some b) (bindScope profile scope) s := by
  refine Yields.bind runs_query ?_
  rintro b t ⟨ht, hb⟩
  have hb := existingBinding_eq hb
  cases b with
  | some existing => exact yields_pure ⟨ht, hb⟩
  | none =>
      obtain ⟨b, hs, -⟩ := hbound
      obtain ⟨b', hb', -⟩ := (relies_later ht).binding b hs
      rw [hb] at hb'
      cases hb'

/-- The binding was made at this epoch or after it. -/
def BoundSince (epoch : Nat) (s : Home) : Prop :=
  ∃ b, s.binding = some b ∧ epoch ≤ b.memoryEpoch

theorem Later.boundSince {t : Home} {epoch : Nat} (h : Later s t) (hs : BoundSince epoch s) :
    BoundSince epoch t := by
  obtain ⟨b, hb, hle⟩ := hs
  obtain ⟨b', hb', hle'⟩ := h.binding b hb
  exact ⟨b', hb', hle.trans hle'⟩

theorem runs_saveThread {b : Binding} {thread : String} (hb : s.binding = some b)
    (hactive : ∃ c, s.contexts.get? thread = some c ∧ c.state = .active)
    (hcall : ∀ profile scope request, call ≠ .freshContext profile scope request) :
    Runs true call started (fun _ t => t.binding = some { b with threadId := some thread })
      (saveBinding { b with threadId := some thread }) s := by
  refine yields_transaction Allowed.refl ?_
  rintro i t _ _ ht ⟨⟩
  refine ⟨⟨le_rfl, .same rfl, .inr ⟨rfl, ?_⟩⟩, rfl⟩
  obtain ⟨c, hc, hstate⟩ := hactive
  exact .recorded b thread (Fenced.binding ht b hb) rfl ⟨c, Fenced.kept ht thread c hc, hstate⟩ hcall

theorem runs_recordParsed {launchToken parsed : String} {b : Binding} (hb : s.binding = some b)
    (hcall : ∀ profile scope request, call ≠ .freshContext profile scope request) :
    Runs held call started
      (fun _ t => Reusable s.epoch (some parsed) s ∧ BoundSince s.epoch t)
      (recordParsed profile scope launchToken parsed b held) s := by
  refine Yields.bind runs_query ?_
  rintro _ t ⟨ht, hepoch⟩
  have hle : s.epoch ≤ b.memoryEpoch := by
    rw [requireEpoch, ensure_eq_ok, decide_eq_true_iff] at hepoch
    exact hepoch ▸ (relies_later ht).epoch
  have hsince : BoundSince s.epoch s := ⟨b, hb, hle⟩
  cases hthread : b.threadId with
  | some expected =>
      refine Yields.bind runs_check ?_
      rintro _ t ⟨rfl, -⟩
      refine Yields.bind runs_recordContext ?_
      rintro _ u ⟨hu, hrow, -⟩
      refine yields_pure ⟨?_, ?_⟩
      · exact hrow.since (relies_later ht)
      · exact (relies_later (relies_trans ht hu)).boundSince hsince
  | none =>
      refine Yields.bind runs_check ?_
      rintro _ t ⟨rfl, -⟩
      refine Yields.bind runs_query ?_
      rintro _ u ⟨hu, -⟩
      refine Yields.bind runs_recordContext ?_
      rintro _ v ⟨hv, hrow, hactive⟩
      have hrow := hrow.since (relies_later (relies_trans ht hu))
      have hsv := relies_trans ht (relies_trans hu hv)
      cases held with
      | false => exact yields_pure ⟨hrow, (relies_later hsv).boundSince hsince⟩
      | true =>
          exact (runs_saveThread (Fenced.binding hsv b hb) (hactive rfl) hcall).imp
            fun _ w hw => ⟨hrow, _, hw, hle⟩

theorem runs_recordThread {launchToken thread : String} (hbound : Bound s)
    (hcall : ∀ profile scope request, call ≠ .freshContext profile scope request) :
    Runs held call started
      (fun _ t => (∃ parsed, Uuid.canonical thread = some parsed ∧
        Reusable s.epoch (some parsed) s) ∧ BoundSince s.epoch t)
      (recordThread profile scope launchToken thread held) s := by
  refine Yields.bind (runs_bindScope hbound) ?_
  rintro b t ⟨ht, hb⟩
  refine Yields.bind runs_check ?_
  rintro parsed t ⟨rfl, hparsed⟩
  rw [context_eq_ok] at hparsed
  have hlater := relies_later ht
  refine (runs_recordParsed hb hcall).imp ?_
  rintro _ u ⟨hrow, hepoch⟩
  obtain ⟨b', hb', hle⟩ := hepoch
  exact ⟨⟨parsed, hparsed, hrow.since hlater⟩, b', hb', hlater.epoch.trans hle⟩

theorem runs_requireCurrentContext : Runs held call started
    (fun thread t => Reusable s.epoch thread s ∧ BoundSince s.epoch t)
    (requireCurrentContext profile scope) s := by
  refine Yields.bind runs_query ?_
  rintro b t ⟨ht, hb⟩
  refine Yields.bind runs_check ?_
  rintro _ t ⟨rfl, -⟩
  rw [context_eq_ok] at hb
  refine Yields.bind runs_query ?_
  rintro _ u ⟨hu, hepoch⟩
  refine Yields.bind runs_query ?_
  rintro thread v ⟨hv, -⟩
  refine Yields.bind runs_requireContext ?_
  rintro _ w ⟨x, hx, hw, hrow⟩
  refine yields_pure ?_
  have htv := relies_trans hu hv
  refine ⟨(hrow.before (relies_later hx)).since (relies_later (relies_trans ht htv)), ?_⟩
  have hle : s.epoch ≤ b.memoryEpoch := by
    rw [requireEpoch, ensure_eq_ok, decide_eq_true_iff] at hepoch
    exact hepoch ▸ (relies_later (relies_trans ht hu)).epoch
  exact (relies_later (relies_trans htv (relies_trans hx hw))).boundSince ⟨b, hb, hle⟩

end Calls

/-! ### Fresh contexts -/

section Fresh

variable {call : ContextCall} {started s t : Home} {profile scope request thread : String}
  {b : Binding} {epoch : Nat}

/-- This is the binding, and the epoch has been reached. -/
def BoundTo (b : Binding) (epoch : Nat) (s : Home) : Prop :=
  s.binding = some b ∧ epoch ≤ s.epoch

/-- A context that is being retired by this request. -/
def RetiringBy (request thread : String) (s : Home) : Prop :=
  ∃ c, s.contexts.get? thread = some c ∧ c.retirementId = some request ∧ c.state = .retiring

theorem Fenced.boundTo (h : Fenced s t) (hs : BoundTo b epoch s) : BoundTo b epoch t :=
  ⟨h.binding b hs.1, hs.2.trans h.epoch⟩

theorem Fenced.retiringBy (h : Fenced s t) (hs : RetiringBy request thread s) :
    RetiringBy request thread t := by
  obtain ⟨c, hc, hrow⟩ := hs
  exact ⟨c, h.kept thread c hc, hrow⟩

theorem upsertRetiring_wrote {current : Nat} {r : Unit × Home}
    (hrow : ∀ c, s.contexts.get? thread = some c →
      c.state ≠ .retired ∧ c.profile = profile ∧ c.scope = scope)
    (h : upsertRetiring profile scope request thread current s = .ok r) :
    ∃ c rows, r.2 = { s with contexts := rows } ∧ Wrote thread c s r.2 ∧ c.state = .retiring ∧
      c.retirementId = some request ∧ c.profile = profile ∧ c.scope = scope ∧
      ∀ c', s.contexts.get? thread = some c' → c'.memoryEpoch = c.memoryEpoch := by
  rw [upsertRetiring] at h
  split at h
  · rename_i hcontains
    cases h
    obtain ⟨c, hc⟩ := Option.isSome_iff_exists.mp hcontains
    obtain ⟨hnot, hprofile, hscope⟩ := hrow c hc
    refine ⟨{ c with state := .retiring, retirementId := some request }, _, rfl, ?_, rfl, rfl,
      hprofile, hscope, fun c' hc' => ?_⟩
    · intro other
      change (s.contexts.modify thread _).get? other = _
      rw [Table.get?_modify]
      by_cases heq : other = thread
      · subst heq
        rw [if_pos rfl, if_pos rfl, hc, Option.map_some, if_pos hnot]
      · rw [if_neg heq, if_neg heq]
    · rw [hc] at hc'
      cases hc'
      rfl
  · rename_i hcontains
    obtain ⟨rows, hinsert, h⟩ := bind_eq_ok.mp h
    rw [context_eq_ok] at hinsert
    cases h
    refine ⟨_, rows, rfl, Table.get?_insert? hinsert, rfl, rfl, rfl, rfl, fun c' hc' => ?_⟩
    rw [(Table.insert?_eq_some.mp hinsert).1] at hc'
    cases hc'

/-- What the statement of `stage_retirement` checks, and the row that it writes. -/
theorem stage_eq {current : Nat} {r : Unit × Home}
    (h : stage profile scope request thread current s = .ok r) :
    (∀ c, s.contexts.get? thread = some c →
      c.state ≠ .retired ∧ c.profile = profile ∧ c.scope = scope) ∧
    (∀ other c, s.contexts.get? other = some c → c.profile = profile → c.state ≠ .retired →
      other = thread) ∧
    ∃ c rows, r.2 = { s with contexts := rows } ∧ Wrote thread c s r.2 ∧ c.state = .retiring ∧
      c.retirementId = some request ∧ c.profile = profile ∧ c.scope = scope ∧
      ∀ c', s.contexts.get? thread = some c' → c'.memoryEpoch = c.memoryEpoch := by
  obtain ⟨_, hactual, h⟩ := bind_eq_ok.mp h
  obtain ⟨_, hother, h⟩ := bind_eq_ok.mp h
  have hrow (c : Context) (hc : s.contexts.get? thread = some c) :
      c.state ≠ .retired ∧ c.profile = profile ∧ c.scope = scope := by
    rw [ensure_eq_ok, hc, Option.all_some, Bool.and_eq_true, Bool.and_eq_true,
      decide_eq_true_iff, decide_eq_true_iff, decide_eq_true_iff] at hactual
    exact ⟨hactual.2, hactual.1⟩
  refine ⟨hrow, fun other c hc hprofile hnot => ?_, upsertRetiring_wrote hrow h⟩
  by_contra hne
  rw [ensure_eq_ok, Bool.not_eq_true'] at hother
  have hany : otherContext profile thread s = true :=
    Table.any_iff.mpr ⟨other, c, hc, by simp [hprofile, hnot, hne]⟩
  rw [hother] at hany
  cases hany

/-- The statement of `stage_retirement`. -/
theorem stage_moved {current : Nat} {r : Unit × Home}
    (hexact : ∀ other c, s.contexts.get? other = some c → c.retirementId = some request →
      other = thread)
    (hb : BoundTo b epoch s) (h : stage profile scope request thread current s = .ok r) :
    Allowed true call started s r.2 ∧ BoundTo b epoch r.2 ∧ RetiringBy request thread r.2 := by
  obtain ⟨hrow, honly, c, rows, hsame, hwrote, hstate, hid, hprofile, -, hepoch⟩ := stage_eq h
  have hmoved : Moved true s r.2 :=
    .staged thread request c rfl hstate hid (fun c' hc' => ⟨(hrow c' hc').1,
      (hrow c' hc').2.1.trans hprofile.symm, hepoch c' hc'⟩)
      (fun other c' hc' hc'profile => honly other c' hc' (hc'profile.trans hprofile)) hexact hwrote
  have hthread : r.2.contexts.get? thread = some c := by rw [hwrote, if_pos rfl]
  refine ⟨⟨?_, hmoved, .inl ?_⟩, ?_, ⟨c, hthread, hid, hstate⟩⟩
  · rw [hsame]
  · rw [hsame]
  · rw [hsame]
    exact hb

theorem retire_wrote {c : Context} (hc : s.contexts.get? thread = some c)
    (hid : c.retirementId = some request) (hstate : c.state = .retiring) :
    Wrote thread { c with state := .retired } s (retire request thread s) := by
  intro other
  change (s.contexts.modify thread _).get? other = _
  rw [Table.get?_modify]
  by_cases heq : other = thread
  · subst heq
    rw [if_pos rfl, if_pos rfl, hc, Option.map_some, if_pos]
    simp [hid, hstate]
  · rw [if_neg heq, if_neg heq]

/-- The statement of `complete_retirement`. -/
theorem retire_moved (h : RetiringBy request thread s) (hb : BoundTo b epoch s) :
    Allowed true call started s (retire request thread s) ∧
      BoundTo b epoch (retire request thread s) := by
  obtain ⟨c, hc, hid, hstate⟩ := h
  exact ⟨⟨le_rfl, .retired thread c rfl hc hstate (retire_wrote hc hid hstate), .inl rfl⟩, hb⟩

/-- What changes neither the contexts nor the binding. -/
structure Quiet (s t : Home) : Prop where
  epoch : s.epoch ≤ t.epoch
  contexts : t.contexts = s.contexts
  binding : t.binding = s.binding

theorem Quiet.refl (s : Home) : Quiet s s := ⟨le_rfl, rfl, rfl⟩

theorem Quiet.allowed {held : Bool} (h : Quiet s t) : Allowed held call started s t :=
  ⟨h.epoch, .same h.contexts, .inl h.binding⟩

theorem Quiet.boundTo (h : Quiet s t) (hs : BoundTo b epoch s) : BoundTo b epoch t :=
  ⟨h.binding.trans hs.1, hs.2.trans h.epoch⟩

theorem within_quiet {α : Type} {f : Chance → Home → α × Home} (hf : ∀ i s, Quiet s (f i s).2) :
    Within Quiet (transaction fun i home => .ok (f i home) : Action α).run := by
  refine within_transaction Quiet.refl fun i s a t h => ?_
  have ht : (f i s).2 = t := congrArg Prod.snd (Except.ok.inj h)
  exact ht ▸ hf i s

/-- Neither the conversations nor their bindings change. -/
structure Aside (s t : Home) : Prop where
  profile : t.profile = s.profile
  epoch : s.epoch ≤ t.epoch
  binding : t.binding = s.binding
  contexts : t.contexts = s.contexts
  launches : t.launches = s.launches

theorem Aside.refl (s : Home) : Aside s s := ⟨rfl, le_rfl, rfl, rfl, rfl⟩

theorem Aside.quiet (h : Aside s t) : Quiet s t := ⟨h.epoch, h.contexts, h.binding⟩

theorem within_aside {α : Type} {f : Chance → Home → α × Home} (hf : ∀ i s, Aside s (f i s).2) :
    Within Aside (transaction fun i home => .ok (f i home) : Action α).run := by
  refine within_transaction Aside.refl fun i s a t h => ?_
  have ht : (f i s).2 = t := congrArg Prod.snd (Except.ok.inj h)
  exact ht ▸ hf i s

theorem within_finishRevocation {name : String} {epoch : Option Nat} :
    Within Aside (finishRevocation name epoch).run := by
  cases epoch with
  | some epoch => exact within_aside fun _ s => ⟨rfl, le_rfl, rfl, rfl, rfl⟩
  | none =>
      refine within_check fun _ => ?_
      refine within_bind (within_aside fun _ s => ⟨rfl, Nat.le_succ _, rfl, rfl, rfl⟩) fun _ => ?_
      refine within_bind (within_query Aside.refl) fun epoch => ?_
      refine within_bind (within_aside fun _ s => ⟨rfl, le_rfl, rfl, rfl, rfl⟩) fun _ => ?_
      exact within_aside fun _ s => ⟨rfl, le_rfl, rfl, rfl, rfl⟩

theorem within_finishEach (pending : List (String × Option Nat)) :
    Within Aside (finishEach pending).run := by
  induction pending with
  | nil => exact within_pure
  | cons row rest ih => exact within_bind within_finishRevocation fun _ => ih

theorem within_finishRevocations : Within Aside finishRevocations.run :=
  within_bind (within_query Aside.refl) within_finishEach

theorem within_recovered : Within Aside recovered.run :=
  within_aside fun _ s => ⟨rfl, le_rfl, rfl, rfl, rfl⟩

theorem aside_attach : Within Aside attach.run :=
  within_aside fun _ s => ⟨rfl, le_rfl, rfl, rfl, rfl⟩

theorem within_controllerRecovered : Within Aside controllerRecovered.run := by
  refine within_bind within_finishRevocations fun _ => within_bind within_recovered fun _ => ?_
  exact within_aside fun _ s => ⟨rfl, le_rfl, rfl, rfl, rfl⟩

/-- A quiet statement of a call that has the launch lock. -/
theorem runs_quiet {α : Type} {f : Chance → Home → α × Home} (hb : BoundTo b epoch s)
    (hf : ∀ i s, Quiet s (f i s).2) : Runs true call started (fun _ t => BoundTo b epoch t)
      (transaction fun i home => .ok (f i home) : Action α) s := by
  refine yields_transaction Allowed.refl fun i t a u ht h => ?_
  have hu : (f i t).2 = u := congrArg Prod.snd (Except.ok.inj h)
  subst hu
  exact ⟨(hf i t).allowed, (hf i t).boundTo (Fenced.boundTo ht hb)⟩

theorem runs_completeRetirement (h : RetiringBy request thread s) (hb : BoundTo b epoch s) :
    Runs true call started (fun _ t => BoundTo b epoch t) (completeRetirement request thread) s := by
  refine yields_bind (fun _ t => BoundTo b epoch t) (yields_transaction Allowed.refl ?_)
    fun _ t ht => ?_
  · rintro i t _ _ ht ⟨⟩
    exact retire_moved (Fenced.retiringBy ht h) (Fenced.boundTo ht hb)
  · refine Yields.bind (runs_quiet ht fun _ _ => ⟨le_rfl, rfl, rfl⟩) fun _ u hu => ?_
    exact runs_quiet hu fun _ _ => ⟨le_rfl, rfl, rfl⟩

/-- Only the conversation that a request names first is retired by it. -/
theorem priorOf_exact (hs : Exact s) (h : Fenced s t)
    (hprior : (priorOf request s).all (fun old => old = thread) = true) :
    ∀ other c, t.contexts.get? other = some c → c.retirementId = some request →
      other = thread := by
  intro other c hc hid
  have hrow := h.named hc hid
  cases hfind : s.contexts.rows.find? fun row => row.2.retirementId = some request with
  | none =>
      rw [List.find?_eq_none] at hfind
      exact absurd (by simpa using hid) (hfind _ (Table.mem_rows_iff.mpr hrow))
  | some row =>
      obtain ⟨first, c'⟩ := row
      have hmem := Table.mem_rows_iff.mp (List.mem_of_find?_eq_some hfind)
      have hid' : c'.retirementId = some request := by
        simpa using List.find?_some hfind
      rw [priorOf, hfind, Option.map_some, Option.all_some, decide_eq_true_iff] at hprior
      exact (hs other first c c' request hrow hmem hid hid').trans hprior

theorem runs_retireContext {recorded : Option String} (hs : Exact s) (hb : BoundTo b epoch s) :
    Runs true call started (fun _ t => BoundTo b epoch t)
      (retireContext profile scope request recorded) s := by
  refine Yields.bind runs_epochOf ?_
  rintro current t ⟨ht, -⟩
  refine Yields.bind runs_query ?_
  rintro prior u ⟨hu, ⟨⟩⟩
  refine Yields.bind runs_check ?_
  rintro thread _ ⟨rfl, -⟩
  refine Yields.bind runs_check ?_
  rintro _ _ ⟨rfl, -⟩
  refine yields_bind (fun _ t => BoundTo b epoch t ∧ RetiringBy request thread t)
    (Yields.bind runs_check ?_) ?_
  · rintro _ u ⟨rfl, hprior⟩
    rw [ensure_eq_ok] at hprior
    have hsu : Fenced s u := Fenced.trans ht hu
    refine yields_transaction Allowed.refl fun _ v _ _ hv h => ?_
    exact stage_moved (priorOf_exact (hsu.exact hs) hv hprior) ((hsu.trans hv).boundTo hb) h
  · rintro _ v ⟨hv, hretiring⟩
    refine yields_bind (fun _ t => BoundTo b epoch t ∧ RetiringBy request thread t)
      (yields_transaction Allowed.refl fun i w a x hw h => ?_) ?_
    · obtain ⟨_, -, h⟩ := bind_eq_ok.mp h
      cases h
      exact ⟨.refl w, Fenced.boundTo hw hv, Fenced.retiringBy hw hretiring⟩
    · rintro _ w ⟨hw, hretiring⟩
      exact Yields.bind (runs_completeRetirement hretiring hw) fun _ x hx => yields_pure hx

theorem runs_newUuid (hb : BoundTo b epoch s) :
    Runs true call started (fun _ t => BoundTo b epoch t) newUuid s := by
  refine yields_transaction Allowed.refl fun i t a u ht h => ?_
  obtain ⟨_, -, h⟩ := bind_eq_ok.mp h
  cases h
  exact ⟨.refl t, Fenced.boundTo ht hb⟩

theorem runs_finishRetirement (hb : BoundTo b epoch s) (hle : b.memoryEpoch ≤ epoch)
    (hrequest : ∀ profile scope request, call = .freshContext profile scope request →
      ∀ thread, RetiredBy request thread started → Recorded thread started) :
    Runs true call started (fun _ _ => True) (finishRetirement b) s := by
  refine Yields.bind (runs_newUuid hb) fun token t ht => ?_
  refine Yields.bind runs_query ?_
  rintro epoch u ⟨hu, ⟨⟩⟩
  have hle := hle.trans (Fenced.boundTo hu ht).2
  have hb : BoundTo b u.epoch u := ⟨(Fenced.boundTo hu ht).1, le_rfl⟩
  refine Yields.bind runs_query ?_
  rintro thread v ⟨hv, -⟩
  have hb := Fenced.boundTo hv hb
  refine yields_bind (fun _ t => BoundTo b u.epoch t) ?_ fun _ w hw => ?_
  · cases thread with
    | none => exact yields_pure hb
    | some thread => exact runs_quiet hb fun _ _ => ⟨le_rfl, rfl, rfl⟩
  · refine yields_bind (fun _ _ => True) (yields_transaction Allowed.refl ?_)
      fun _ x _ => ?_
    · rintro i x _ _ hx ⟨⟩
      have hb := Fenced.boundTo hx hw
      exact ⟨⟨le_rfl, .same rfl, .inr ⟨rfl, .replaced b _ hb.1 rfl rfl hle hb.2 hrequest⟩⟩, trivial⟩
    · exact (within_bind aside_attach fun _ => within_controllerRecovered).yields
        fun _ _ h => h.quiet.allowed

theorem runs_completedReceipt : Runs true call started
    (fun receipt t => Fenced s t ∧
      (retiredBy request t).map Prod.fst = receipt.map Recovery.retiredThread)
    (completedReceipt profile scope request) s := by
  refine Yields.bind runs_check ?_
  rintro _ s ⟨rfl, -⟩
  refine Yields.bind runs_epochOf ?_
  rintro current t ⟨ht, -⟩
  refine Yields.bind runs_query ?_
  rintro row u ⟨hu, ⟨⟩⟩
  have hsu : Fenced s u := Fenced.trans ht hu
  cases hrow : retiredBy request u with
  | none => exact yields_pure ⟨hsu, by rw [hrow]; rfl⟩
  | some row =>
      refine Yields.bind runs_check ?_
      rintro _ u ⟨rfl, -⟩
      exact yields_pure ⟨hsu, by rw [hrow]; rfl⟩

/-- The receipt of a request is about the conversation that it retired. -/
theorem retiredBy_eq (hs : Exact s) (h : RetiredBy request thread s) :
    (retiredBy request s).map Prod.fst = some thread := by
  obtain ⟨c, hc, hid, hstate⟩ := h
  cases hfind : retiredBy request s with
  | none =>
      rw [retiredBy, List.find?_eq_none] at hfind
      exact absurd (by simp [hid, hstate]) (hfind _ (Table.mem_rows_iff.mpr hc))
  | some row =>
      obtain ⟨first, c'⟩ := row
      have hmem := Table.mem_rows_iff.mp (List.mem_of_find?_eq_some hfind)
      have hfound := List.find?_some hfind
      rw [Bool.and_eq_true, decide_eq_true_iff] at hfound
      exact congrArg some (hs first thread c' c request hmem hc hfound.1 hid)

theorem Fenced.retiredBy (h : Fenced s t) (hs : RetiredBy request thread s) :
    RetiredBy request thread t := by
  obtain ⟨c, hc, hrow⟩ := hs
  exact ⟨c, h.kept thread c hc, hrow⟩

theorem recordedThread_recorded {home : Home} (hb : home.binding = some b)
    (h : recordedThread b home = .ok (some thread)) : Recorded thread home := by
  obtain ⟨_, hlaunch, h⟩ := bind_eq_ok.mp h
  have h : b.threadId.or ((home.launches.get? b.launchToken).map Prod.snd) = some thread :=
    Except.ok.inj h
  refine ⟨b, hb, ?_⟩
  cases hthread : b.threadId with
  | some named =>
      rw [hthread] at h
      exact .inl h
  | none =>
      rw [hthread, Option.none_or, Option.map_eq_some_iff] at h
      obtain ⟨⟨provider, named⟩, hget, rfl⟩ := h
      rw [ensure_eq_ok, hget, Option.all_some, Bool.and_eq_true, decide_eq_true_iff] at hlaunch
      have hcodex : provider = .codex := hlaunch.1
      subst hcodex
      exact .inr hget

theorem runs_recoverContext {recorded : Option String} (hs : Exact s) (hb : BoundTo b epoch s) :
    Runs true call started (fun _ t => BoundTo b epoch t)
      (recoverContext profile scope request recorded) s := by
  refine Yields.bind runs_completedReceipt ?_
  rintro receipt t ⟨ht, -⟩
  cases receipt with
  | some receipt => exact yields_pure (ht.boundTo hb)
  | none => exact runs_retireContext (ht.exact hs) (ht.boundTo hb)

theorem runs_freshContext (hbound : Bound s) (hs : Exact s) :
    Runs true (.freshContext profile scope request) s (fun _ _ => True)
      (freshContext profile scope request) s := by
  refine Yields.bind (runs_bindScope hbound) ?_
  rintro b t ⟨ht, hb⟩
  refine Yields.bind runs_check ?_
  rintro _ t ⟨rfl, -⟩
  refine Yields.bind runs_completedReceipt ?_
  rintro receipt u ⟨hu, hreceipt⟩
  have hsu : Fenced s u := Fenced.trans ht hu
  have hb : BoundTo b b.memoryEpoch u := by
    obtain ⟨b', hb', hle⟩ := hbound
    have hb'' := Fenced.binding ht b' hb'
    rw [hb] at hb''
    cases hb''
    exact hsu.boundTo ⟨hb', hle⟩
  have hretired (thread : String) (h : RetiredBy request thread s) :
      receipt.map Recovery.retiredThread = some thread :=
    hreceipt.symm.trans (retiredBy_eq (hsu.exact hs) (hsu.retiredBy h))
  cases receipt with
  | some receipt =>
      refine Yields.bind runs_query ?_
      rintro recorded v ⟨hv, hrecorded⟩
      have hbv := Fenced.boundTo hv hb
      by_cases heq : recorded = some receipt.retiredThread
      · rw [if_pos heq]
        subst heq
        refine Yields.bind (runs_finishRetirement hbv le_rfl ?_) fun _ w _ => yields_pure trivial
        rintro _ _ _ ⟨⟩ thread hthread
        cases hretired thread hthread
        obtain ⟨c, hc, -, hstate⟩ := hthread
        refine Fenced.recorded (hsu.trans hv) ?_ ⟨c, hc, hstate⟩
          (recordedThread_recorded hbv.1 hrecorded)
        obtain ⟨b', hb', -⟩ := hbound
        rw [hb']
        rfl
      · rw [if_neg heq]
        exact yields_pure trivial
  | none =>
      refine Yields.bind runs_query ?_
      rintro recorded v ⟨hv, -⟩
      refine Yields.bind (runs_recoverContext ((hsu.trans hv).exact hs) (Fenced.boundTo hv hb))
        fun result w hw => Yields.bind runs_check ?_
      rintro _ w ⟨rfl, -⟩
      refine Yields.bind (runs_finishRetirement hw le_rfl ?_) fun _ x _ => yields_pure trivial
      rintro _ _ _ ⟨⟩ thread hthread
      cases hretired thread hthread

end Fresh

/-! ### Runs -/

/-- An admission that succeeds is of no conversation whose retirement had begun when it was asked
for, nor of one or on a binding that was made before the last time something was forgotten. -/
def Sound (call : ContextCall) (started : Home) (reply : ContextReplies) (t : Home) : Prop :=
  ∀ answer, reply = .ok answer → match call with
    | .requireContext _ _ thread => Reusable started.epoch thread started
    | .recordContext _ _ thread => Reusable started.epoch (some thread) started
    | .requireCurrentContext _ _ => ∃ thread, answer = .admitted thread ∧
        Reusable started.epoch thread started ∧ BoundSince started.epoch t
    | .recordThread _ _ _ thread => (∃ parsed, Uuid.canonical thread = some parsed ∧
        Reusable started.epoch (some parsed) started) ∧ BoundSince started.epoch t
    | .freshContext _ _ _ | .forget | .bindLaunch _ _ _ => True

/-- What is known of every state of a run. -/
structure Known (s : Home) : Prop where
  bound : Bound s
  exact : Exact s

section Specification

variable {held : Bool} {call : ContextCall} {started s t : Home}

theorem Moved.exact (h : Moved held s t) (hs : Exact s) : Exact t := by
  -- a row that is written names no request, or one that no other row names
  have hwritten {thread : String} {row : Context} (hwrote : Wrote thread row s t)
      (hrow : ∀ other c request, s.contexts.get? other = some c → c.retirementId = some request →
        row.retirementId = some request → other = thread) : Exact t := by
    intro one two c c' request hc hc' hid hid'
    rw [hwrote] at hc hc'
    by_cases hone : one = thread
    · by_cases htwo : two = thread
      · exact hone.trans htwo.symm
      · rw [if_pos hone] at hc
        rw [if_neg htwo] at hc'
        cases hc
        exact absurd (hrow two c' request hc' hid' hid) htwo
    · rw [if_neg hone] at hc
      by_cases htwo : two = thread
      · rw [if_pos htwo] at hc'
        cases hc'
        exact absurd (hrow one c request hc hid hid') hone
      · rw [if_neg htwo] at hc'
        exact hs one two c c' request hc hc' hid hid'
  cases h with
  | same h => exact fun one two c c' request hc hc' => hs one two c c' request (h ▸ hc) (h ▸ hc')
  | inserted thread row _ _ hid _ hwrote =>
      refine hwritten hwrote fun _ _ request _ _ h => ?_
      rw [hid] at h
      cases h
  | staged thread request row _ _ hid _ _ hexact hwrote =>
      refine hwritten hwrote fun other c request' hc hrow h => ?_
      rw [hid] at h
      cases h
      exact hexact other c hc hrow
  | retired thread row _ hold _ hwrote =>
      exact hwritten hwrote fun other c request hc hrow h =>
        hs other thread c row request hc hold hrow h

theorem Allowed.known (h : Allowed held call started s t) (hs : Known s) : Known t where
  exact := h.contexts.exact hs.exact
  bound := by
    obtain ⟨b, hb, hle⟩ := hs.bound
    rcases h.binding with hsame | ⟨-, hrebound⟩
    · exact ⟨b, hsame ▸ hb, hle.trans h.epoch⟩
    · cases hrebound with
      | recorded b' thread hold hnew =>
          rw [hold] at hb
          cases hb
          exact ⟨_, hnew, hle.trans h.epoch⟩
      | replaced b' b'' hold hnew _ _ hepoch => exact ⟨b'', hnew, hepoch⟩

theorem Sound.stable {reply : ContextReplies} (h : Sound call started reply s)
    (hlater : Later s t) : Sound call started reply t := by
  intro answer hanswer
  have h := h answer hanswer
  cases call with
  | requireContext profile scope thread => exact h
  | recordContext profile scope thread => exact h
  | requireCurrentContext profile scope =>
      obtain ⟨thread, hthread, hrow, hsince⟩ := h
      exact ⟨thread, hthread, hrow, hlater.boundSince hsince⟩
  | recordThread profile scope launchToken thread => exact ⟨h.1, hlater.boundSince h.2⟩
  | freshContext profile scope request => trivial
  | forget => trivial
  | bindLaunch launchToken provider thread => trivial

/-- Every call keeps to its specification. -/
theorem ContextCall.runs (call : ContextCall) (hs : Known s) :
    Sat (relies held) (Allowed held call s) (Sound call s) (call.code held) s := by
  cases call with
  | requireContext profile scope thread =>
      refine Yields.bind runs_requireContext ?_
      rintro _ t ⟨u, hu, -, hrow⟩
      exact yields_pure (hrow.before (relies_later hu))
  | recordContext profile scope thread =>
      refine Yields.bind runs_recordContext ?_
      rintro _ t ⟨-, hrow, -⟩
      exact yields_pure hrow
  | requireCurrentContext profile scope =>
      refine Yields.bind runs_requireCurrentContext ?_
      rintro thread t ⟨hrow, hsince⟩
      exact yields_pure ⟨thread, rfl, hrow, hsince⟩
  | recordThread profile scope launchToken thread =>
      exact Yields.bind (runs_recordThread hs.bound fun _ _ _ h => by cases h) fun _ t h =>
        yields_pure h
  | freshContext profile scope request =>
      refine Yields.bind runs_check ?_
      rintro _ t ⟨rfl, hheld⟩
      rw [ensure_eq_ok] at hheld
      subst hheld
      exact Yields.bind (runs_freshContext hs.bound hs.exact) fun _ _ _ => yields_pure trivial
  | forget =>
      refine yields_bind (fun _ _ => True) ?_ fun _ _ _ => yields_pure trivial
      exact (within_quiet fun _ _ => ⟨Nat.le_succ _, rfl, rfl⟩).yields fun _ _ h => h.allowed
  | bindLaunch launchToken provider thread =>
      refine yields_bind (fun _ _ => True) ?_ fun _ _ _ => yields_pure trivial
      exact (within_quiet fun _ _ => ⟨le_rfl, rfl, rfl⟩).yields fun _ _ h => h.allowed

theorem contexts_specified : Locked.Specified ContextCall.code Undisturbed relies Allowed Sound
    Known where
  refl := relies_refl
  trans _ _ _ _ := relies_trans
  relied held held' call started s t hone h hcalm := by
    cases held' with
    | false => exact h.later
    | true =>
        cases held with
        | false => exact h.fenced hcalm
        | true => exact absurd ⟨rfl, rfl⟩ hone
  stable _ _ _ _ _ _ h hrely := h.stable (relies_later hrely)
  known _ _ _ _ _ hs h _ := h.known hs
  started _ call _ hs := call.runs hs

theorem Moved.single (h : Moved held s t) (hcalm : Undisturbed s t) (hs : Single s) : Single t := by
  -- beside a row that is written every other one of its profile is retired
  have hwritten {thread : String} {row : Context} (hwrote : Wrote thread row s t)
      (hrow : ∀ other c, s.contexts.get? other = some c → c.profile = row.profile →
        c.state ≠ .retired → other = thread) : Single t := by
    intro one two c c' hc hc' hprofile hstate hstate'
    rw [hwrote] at hc hc'
    by_cases hone : one = thread
    · by_cases htwo : two = thread
      · exact hone.trans htwo.symm
      · rw [if_pos hone] at hc
        rw [if_neg htwo] at hc'
        cases hc
        exact absurd (hrow two c' hc' hprofile.symm hstate') htwo
    · rw [if_neg hone] at hc
      by_cases htwo : two = thread
      · rw [if_pos htwo] at hc'
        cases hc'
        exact absurd (hrow one c hc hprofile hstate) hone
      · rw [if_neg htwo] at hc'
        exact hs one two c c' hc hc' hprofile hstate hstate'
  cases h with
  | same h => exact fun one two c c' hc hc' => hs one two c c' (h ▸ hc) (h ▸ hc')
  | inserted thread row hnew hactive _ honly hwrote =>
      refine hwritten hwrote fun other c hc hprofile hstate => ?_
      have hthread : t.contexts.get? thread = some row := by rw [hwrote, if_pos rfl]
      have hretiring := hcalm.recorded thread row hnew hthread hactive other c hc hprofile
      have hnot := honly other c hc hprofile
      cases hc : c.state with
      | active => exact absurd hc hnot
      | retiring => exact absurd hc hretiring
      | retired => exact absurd hc hstate
  | staged thread request row _ _ _ _ honly _ hwrote => exact hwritten hwrote honly
  | retired thread row _ hold hstate hwrote =>
      refine hwritten hwrote fun other c hc hprofile hnot => ?_
      refine hs other thread c row hc hold hprofile hnot ?_
      rw [hstate]
      decide

/-- The launch token of the binding. -/
def tokenOf (s : Home) : Option String := s.binding.map Binding.launchToken

/-- A binding that is not about a retired conversation does not come to be about it, and one that
gets a new launch token is not about it. -/
theorem Allowed.unrecorded (h : Allowed held call started s t) (hcalm : Undisturbed s t)
    {thread : String} (hretired : Retired thread s)
    (hs : tokenOf t = tokenOf s → ¬ Recorded thread s) : ¬ Recorded thread t := by
  rintro ⟨b', hb', hthread⟩
  have hlaunch (token : String) (hl : t.launches.get? token = some (.codex, thread)) :
      s.launches.get? token = some (.codex, thread) :=
    (hcalm.launches token thread hl).resolve_right fun hnot => hnot hretired
  rcases h.binding with hsame | ⟨-, hrebound⟩
  · refine hs (by rw [tokenOf, hsame, tokenOf]) ⟨b', hsame ▸ hb', hthread.imp_right ?_⟩
    exact hlaunch b'.launchToken
  · cases hrebound with
    | recorded b named hold hnew hactive =>
        rw [hnew] at hb'
        cases hb'
        have htoken : tokenOf t = tokenOf s := by
          rw [tokenOf, hnew, tokenOf, hold]
          rfl
        rcases hthread with hthread | hl
        · -- an active conversation is not a retired one
          cases hthread
          obtain ⟨c, hc, hstate⟩ := hactive
          obtain ⟨c', hc', hstate'⟩ := h.later.retired hretired
          rw [hc] at hc'
          cases hc'
          rw [hstate] at hstate'
          cases hstate'
        · exact hs htoken ⟨b, hold, .inr (hlaunch _ hl)⟩
    | replaced b b'' hold hnew hnone =>
        rw [hnew] at hb'
        cases hb'
        rcases hthread with hthread | hl
        · rw [hnone] at hthread
          cases hthread
        · by_cases htoken : b'.launchToken = b.launchToken
          · refine hs ?_ ⟨b, hold, .inr (htoken ▸ hlaunch _ hl)⟩
            rw [tokenOf, hnew, tokenOf, hold, Option.map_some, Option.map_some, htoken]
          · rw [hcalm.tokens b b' hold hnew htoken] at hl
            cases hl

/-- A conversation becomes the current one only while its context is active. -/
theorem Allowed.current (h : Allowed held call started s t) {thread : String} {b : Binding}
    (hb : t.binding = some b) (hthread : b.threadId = some thread)
    (hnot : ∀ b, s.binding = some b → b.threadId ≠ some thread) :
    ∃ c, t.contexts.get? thread = some c ∧ c.state = .active := by
  rcases h.binding with hsame | ⟨-, hrebound⟩
  · exact absurd hthread (hnot b (hsame ▸ hb))
  · cases hrebound with
    | recorded b' named hold hnew hactive =>
        rw [hnew] at hb
        cases hb
        cases hthread
        exact hactive
    | replaced b' b'' hold hnew hnone =>
        rw [hnew] at hb
        cases hb
        rw [hnone] at hthread
        cases hthread

/-- A request that is repeated leaves a binding alone that is not about what it retired. -/
theorem Allowed.repeated {profile scope request thread : String}
    (h : Allowed held (.freshContext profile scope request) started s t)
    (hretired : RetiredBy request thread started) (hnot : ¬ Recorded thread started) :
    t.binding = s.binding := by
  rcases h.binding with hsame | ⟨-, hrebound⟩
  · exact hsame
  · cases hrebound with
    | recorded b named hold hnew hactive hcall => exact absurd rfl (hcall profile scope request)
    | replaced b b' hold hnew _ _ _ hrequest =>
        exact absurd (hrequest profile scope request rfl thread hretired) hnot

end Specification

/-- The home has been bound, and no conversation was recorded yet. -/
structure Opened (s : Home) : Prop where
  bound : Bound s
  unused : s.contexts = ∅

theorem Opened.known {s : Home} (h : Opened s) : Known s where
  bound := h.bound
  exact thread other c c' request hc := by
    rw [h.unused] at hc
    cases hc

theorem Opened.single {s : Home} (h : Opened s) : Single s := by
  intro thread other c c' hc
  rw [h.unused] at hc
  cases hc

/-- **Contexts.**  In an undisturbed run at most one context of a profile is not retired.  What has
begun to be retired stays so; an admission that is asked for after that, or after something was
forgotten, does not succeed for what was made before.  A conversation becomes the current one only
while its context is active, no later binding is about a retired one, and a request that is repeated
does not change a binding that is not about the conversation it retired. -/
theorem native_contexts {start : Home} (hstart : Opened start)
    {entries entries' : List ContextEntry} {machine later : Contexts}
    (h : History contexts NoDrift { shared := start } entries machine)
    (hcalm : Locked.Calm ContextCall.wants ContextCall.code Undisturbed entries)
    (h' : History contexts NoDrift machine entries' later)
    (hcalm' : Locked.Calm ContextCall.wants ContextCall.code Undisturbed entries')
    (m : ContextMove) (hlast : Undisturbed later.shared (contexts m later).2.shared) :
    Single later.shared ∧
      (∀ thread, Begun thread machine.shared → Begun thread later.shared) ∧
      (∀ answer, (contexts m later).1 = some answer →
        Sound answer.call answer.started answer.result later.shared) ∧
      (∀ b thread, (contexts m later).2.shared.binding = some b → b.threadId = some thread →
        (∀ b, later.shared.binding = some b → b.threadId ≠ some thread) →
        ∃ c, (contexts m later).2.shared.contexts.get? thread = some c ∧ c.state = .active) ∧
      (∀ thread, Retired thread machine.shared → tokenOf later.shared ≠ tokenOf machine.shared →
        ¬ Recorded thread later.shared) ∧
      ∀ job profile scope request thread, later.holder = some job →
        job.call = .freshContext profile scope request →
        RetiredBy request thread job.started → ¬ Recorded thread job.started →
        (contexts m later).2.shared.binding = later.shared.binding := by
  have hidle : Locked.Satisfied relies Allowed Sound Known ({ shared := start } : Contexts) :=
    .idle hstart.known
  obtain ⟨hmachine, hsingle⟩ := hidle.run contexts_specified Single hstart.single
    (fun _ _ _ _ _ _ hs hguar hcalm => hguar.contexts.single hcalm hs) h hcalm
  obtain ⟨hlater, hsingle⟩ := hmachine.run contexts_specified Single hsingle
    (fun _ _ _ _ _ _ hs hguar hcalm => hguar.contexts.single hcalm hs) h' hcalm'
  obtain ⟨-, hmove, hanswer⟩ := hlater.move ContextCall.wants contexts_specified m hlast
  refine ⟨hsingle, fun thread hthread => ?_, hanswer, ?_, ?_, ?_⟩
  · exact (hmachine.run contexts_specified (Begun thread) hthread
      (fun _ _ _ _ _ _ hs hguar _ => hguar.later.begun hs) h' hcalm').2
  · intro b thread hb hthread hnot
    rcases hmove with hsame | ⟨place, job, -, hguar⟩
    · change (contexts m later).2.shared = later.shared at hsame
      rw [hsame] at hb
      exact absurd hthread (hnot b hb)
    · exact hguar.current hb hthread hnot
  · intro thread hretired htoken
    refine ((hmachine.run contexts_specified
      (fun s => Retired thread s ∧ (tokenOf s = tokenOf machine.shared ∨ ¬ Recorded thread s))
      ⟨hretired, .inl rfl⟩ ?_ h' hcalm').2.2).resolve_left htoken
    rintro held call started s t - ⟨hs, hrecorded⟩ hguar hcalm
    refine ⟨hguar.later.retired hs, ?_⟩
    by_cases hsame : tokenOf t = tokenOf machine.shared
    · exact .inl hsame
    · refine .inr (hguar.unrecorded hcalm hs fun htokens => hrecorded.resolve_left fun h => ?_)
      exact hsame (htokens.trans h)
  · intro job profile scope request thread hjob hcall hretired hnot
    rcases hmove with hsame | ⟨place, other, hother, hguar⟩
    · exact congrArg Home.binding hsame
    · cases place with
      | holder =>
          have heq : later.holder = some other := hother
          rw [hjob] at heq
          cases heq
          rw [hcall] at hguar
          exact hguar.repeated hretired hnot
      | other place =>
          rcases hguar.binding with hsame | ⟨hheld, -⟩
          · exact hsame
          · cases hheld

/-! ### A context that is recorded while another one is retired -/

def exampleProfile : String := "00000000-0000-4000-8000-000000000001"

/-- The conversation of an earlier runtime, which the binding adopted. -/
def adoptedThread : String := "00000000-0000-4000-8000-000000000002"

def otherThread : String := "00000000-0000-4000-8000-000000000003"

def boundHome : Home where
  profile := exampleProfile
  binding := some {
    profile := exampleProfile
    scope := "personal"
    launchToken := "00000000-0000-4000-8000-000000000004"
    threadId := some adoptedThread
    memoryEpoch := 0 }

theorem boundHome_opened : Opened boundHome := ⟨⟨_, rfl, le_rfl⟩, rfl⟩

def recordOther : ContextMove := .start (.recordContext exampleProfile "personal" otherThread)

def stepOther : ContextMove := .advance (.other 0) {}

/-- Nothing is recorded next to another context, and the binding and the launches stay. -/
def alone (s t : Home) : Bool :=
  (t.contexts.rows = s.contexts.rows || s.contexts.rows = []) && t.binding = s.binding &&
    t.launches.rows = s.launches.rows

theorem undisturbed_of_alone {s t : Home} (h : alone s t = true) : Undisturbed s t := by
  rw [alone, Bool.and_eq_true, Bool.and_eq_true, Bool.or_eq_true, decide_eq_true_iff,
    decide_eq_true_iff, decide_eq_true_iff, decide_eq_true_iff] at h
  obtain ⟨⟨hcontexts, hbinding⟩, hlaunches⟩ := h
  refine ⟨fun thread c hnew hc _ other c' hc' => ?_, fun token thread hl => .inl ?_,
    fun b b' hb hb' hne => ?_⟩
  · rcases hcontexts with hsame | hempty
    · rw [Table.get?, hsame] at hc
      rw [Table.get?, hc] at hnew
      cases hnew
    · rw [Table.get?, hempty] at hc'
      cases hc'
  · rw [Table.get?, ← hlaunches]
    exact hl
  · rw [hbinding, hb] at hb'
    cases hb'
    exact absurd rfl hne

def recordedRun : List ContextEntry × Contexts :=
  replay contexts { shared := boundHome } (recordOther :: List.replicate 9 stepOther)

theorem recordedRun_calm : Locked.Calm ContextCall.wants ContextCall.code Undisturbed recordedRun.1 := by
  have hall : (recordedRun.1.all fun e =>
      alone e.before.shared (contexts e.call e.before).2.shared) = true := by
    decide +kernel
  exact fun e he => undisturbed_of_alone (List.all_eq_true.mp hall e he)

/-- The law at the start of a run in which one conversation is recorded. -/
theorem native_contexts_recorded : Single recordedRun.2.shared :=
  (native_contexts boundHome_opened (History.replay _ _) recordedRun_calm .nil (by simp [Locked.Calm])
    stepOther (undisturbed_of_alone (by decide +kernel))).1

/-- Another conversation is checked, the adopted one begins to be retired, the other is recorded. -/
def disturbedMoves : List ContextMove :=
  recordOther :: List.replicate 7 stepOther ++
    .start (.freshContext exampleProfile "personal" "00000000-0000-4000-8000-000000000005") ::
    List.replicate 12 (.advance .holder {}) ++ [stepOther]

def disturbedRun : List ContextEntry × Contexts :=
  replay contexts { shared := boundHome } disturbedMoves

/-- Two contexts of one profile are not retired: between the check of the one and its statement the
retirement of the other began. -/
theorem native_contexts_disturbed : ∃ (start : Home) (entries : List ContextEntry)
    (machine : Contexts), Opened start ∧
    History contexts NoDrift { shared := start } entries machine ∧ ¬ Single machine.shared := by
  have hrows : disturbedRun.2.shared.contexts.rows.map (fun row => (row.1, row.2.state)) =
      [(adoptedThread, .retiring), (otherThread, .active)] ∧
      (disturbedRun.2.shared.contexts.rows.all fun row => row.2.profile = exampleProfile) := by
    decide +kernel
  obtain ⟨hrows, hprofile⟩ := hrows
  refine ⟨boundHome, _, disturbedRun.2, boundHome_opened, History.replay _ _, fun hsingle => ?_⟩
  have hrow {thread : String} {state : ContextState}
      (hmem : (thread, state) ∈ [(adoptedThread, ContextState.retiring), (otherThread, .active)]) :
      ∃ c, disturbedRun.2.shared.contexts.get? thread = some c ∧ c.state = state ∧
        c.profile = exampleProfile := by
    rw [← hrows, List.mem_map] at hmem
    obtain ⟨⟨named, c⟩, hc, heq⟩ := hmem
    cases heq
    exact ⟨c, Table.mem_rows_iff.mp hc, rfl,
      of_decide_eq_true (List.all_eq_true.mp hprofile _ hc)⟩
  obtain ⟨c, hc, hstate, hprofile⟩ := hrow (List.mem_cons_self ..)
  obtain ⟨c', hc', hstate', hprofile'⟩ := hrow (List.mem_cons_of_mem _ (List.mem_cons_self ..))
  have hsame := hsingle adoptedThread otherThread c c' hc hc' (hprofile.trans hprofile'.symm)
    (by simp [hstate]) (by simp [hstate'])
  exact absurd hsame (by decide)

end Pikamux.Native
