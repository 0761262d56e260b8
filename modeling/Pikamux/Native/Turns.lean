import Pikamux.Native.Home

/-!
# Native — Turns

`assistant_native_turns.rs`: a turn of the native CLI has a receipt.  The intent to dispatch it and
the dispatch are two statements; other processes may write between them.

* `Evolves` — what one statement of a call may do to the receipts.
* `Issues` — a call is about to return a receipt that says dispatched.
* `native_turns` — the law of a run; the receipt is true exactly when nobody wrote in between.
-/

namespace Pikamux.Native

open Support Support.Program

structure Receipt where
  requestId : String
  sessionId : String
  state : TurnState
  modelCalls : Option Nat := none
  deriving DecidableEq, Repr

/-- `exact`. -/
def exact (request session : String) : Except NativeError Unit := do
  ensure (request ≠ "" && request.utf8ByteSize ≤ 256 && !request.toList.any Lifecycle.isControl)
    (.refused "Native hook requires the exact provider turn_id")
  parseUuid session

/-! ### Before a turn -/

/-- `NO_CALL_LIMIT`. -/
def noCallLimit : Nat := 2 ^ 63 - 1

def requireCapacity (maxConcurrent : Nat) (home : Home) : Except NativeError Unit :=
  let occupied := home.policy.reservations.rows.countP fun row =>
    row.2.state = .reserved || row.2.state = .dispatched
  ensure (occupied < maxConcurrent) (.refused "Shared assistant dispatch concurrency is occupied")

def recordIntent (request session scope : String) (now : Int) (home : Home) :
    Except NativeError (Unit × Home) := do
  ensure (!home.turns.contains request)
    (.refused ("Native turn already has a durable dispatch receipt; automatic replay is " ++
      "forbidden"))
  ensure (!home.turns.any fun _ turn => turn.state.unresolved)
    (.refused ("Native turn delivery is unfinished or unknown; fresh-context recovery is " ++
      "required"))
  let turns ← context (.database "UNIQUE constraint failed")
    (home.turns.insert? request { session, scope, state := .intent, updatedAt := now })
  return ((), { home with turns })

/-- `UPDATE … SET state='dispatched' … WHERE request_id=? AND state='intent'`. -/
def dispatchTurn (request : String) (now : Int) (home : Home) : Home :=
  { home with
    turns := home.turns.modify request fun turn =>
      if turn.state = .intent then { turn with state := .dispatched, updatedAt := now } else turn }

def dispatchUnderPolicy (scope request session : String) : Action Receipt := do
  let config ← query fun home => .ok home.policy.config
  require (config.maxTotalCalls = noCallLimit)
    (.refused ("Native Codex hooks cannot enforce a hard model-call limit: a user turn may contain " ++
      "multiple model requests. Native dispatch requires the explicitly selected unlimited policy; " ++
      "finite max_calls is unsupported"))
  requireForeground scope
  query (requireCapacity config.maxConcurrent)
  transaction fun i => recordIntent request session scope i.now
  transaction fun i home =>
    .ok ({ requestId := request, sessionId := session, state := .dispatched : Receipt },
      dispatchTurn request i.now home)

/-- `before_submit`. -/
def beforeSubmit (scope request session : String) : Action Receipt := do
  check (exact request session)
  let profile ← query fun home => .ok home.profile
  requireContext profile scope (some session)
  attach
  requireForeground scope
  dispatchUnderPolicy scope request session

/-! ### After a turn -/

/-- `close_adapter`: how many turns it closed. -/
def closeAdapter (scope session request : String) : Action Nat := do
  check (exact request session)
  transaction fun i home =>
    let named (turn : Turn) := turn.scope = scope && turn.session = session &&
      (turn.state = .intent || turn.state = .dispatched)
    .ok (if (home.turns.get? request).any named then 1 else 0, { home with
      turns := home.turns.modify request fun turn =>
        if named turn then { turn with state := .unknown, updatedAt := i.now } else turn })

/-- The state after the end of a turn: what is not open any more stays as it is. -/
def finishedState (prior : TurnState) (interrupted : Bool) : TurnState :=
  if prior = .unknown || prior = .acknowledged || prior = .completed then prior
  else if interrupted then .unknown
  else .completed

def finish (scope request session : String) (interrupted : Bool) : Action Receipt := do
  check (exact request session)
  transaction fun i home => do
    let turn ← context (.refused "Native outcome does not match an exact durable turn receipt")
      ((home.turns.get? request).filter fun turn => turn.session = session && turn.scope = scope)
    let state := finishedState turn.state interrupted
    return ({ requestId := request, sessionId := session, state : Receipt }, { home with
      turns := home.turns.modify request fun turn => { turn with state, updatedAt := i.now } })

/-- `recovered`. -/
def recovered : Action Unit := transaction fun i home =>
  .ok ((), { home with
    turns := home.turns.update fun _ turn =>
      if turn.state.unresolved then { turn with state := .acknowledged, updatedAt := i.now }
      else turn })

/-! ### Runs -/

inductive TurnCall where
  | beforeSubmit (scope request session : String)
  | finish (scope request session : String) (interrupted : Bool)
  | closeAdapter (scope session request : String)
  | recovered
  /-- Everything but the receipts of turns changes. -/
  | elsewhere (home : Home)

inductive TurnReply where
  | receipt (receipt : Receipt)
  | closed (turns : Nat)
  | done
  deriving DecidableEq, Repr

def TurnCall.action : TurnCall → Action TurnReply
  | beforeSubmit scope request session => do
      let receipt ← Native.beforeSubmit scope request session
      return .receipt receipt
  | finish scope request session interrupted => do
      let receipt ← Native.finish scope request session interrupted
      return .receipt receipt
  | closeAdapter scope session request => do
      let closed ← Native.closeAdapter scope session request
      return .closed closed
  | recovered => do
      let _ ← Native.recovered
      return .done
  | elsewhere home => do
      let _ ← transaction fun _ s => .ok ((), { home with turns := s.turns })
      return .done

abbrev TurnReplies := Except NativeError TurnReply

def TurnCall.code (call : TurnCall) : Program Chance Home TurnReplies := call.action.run

/-- Connections to one ledger of turns. -/
abbrev Ledgers := Pool Chance Home TurnReplies TurnCall

abbrev LedgerMove := Move Chance TurnCall

abbrev LedgerEntry := Entry Ledgers LedgerMove (Option (Answer TurnReplies TurnCall))

def ledgers (m : LedgerMove) (pool : Ledgers) : Option (Answer TurnReplies TurnCall) × Ledgers :=
  pool.move TurnCall.code m

/-! ### What one statement may do -/

/-- How a call may change the state of a turn. -/
def TurnCall.mayChange : TurnCall → String → TurnState → TurnState → Prop
  | beforeSubmit _ named _, request, old, new =>
      request = named ∧ old = .intent ∧ new = .dispatched
  | finish _ named _ _, request, old, new =>
      request = named ∧ (new = old ∨
        (old = .intent ∨ old = .dispatched) ∧ (new = .unknown ∨ new = .completed))
  | closeAdapter _ _ named, request, old, new =>
      request = named ∧ (old = .intent ∨ old = .dispatched) ∧ new = .unknown
  | recovered, _, old, new => old.unresolved = true ∧ new = .acknowledged
  | elsewhere _, _, _, _ => False

/-- What one statement of a call does to the receipts. -/
structure Evolves (call : TurnCall) (s t : Home) : Prop where
  kept : ∀ request turn, s.turns.get? request = some turn → ∃ turn',
    t.turns.get? request = some turn' ∧
      (turn' = turn ∨ call.mayChange request turn.state turn'.state)
  added : ∀ request turn, s.turns.get? request = none → t.turns.get? request = some turn →
    (∃ scope session, call = .beforeSubmit scope request session) ∧ turn.state = .intent ∧
      ∀ other row, s.turns.get? other = some row → row.state.unresolved = false

section Steps

variable {call : TurnCall} {s t : Home} {request : String} {turn : Turn}

theorem Evolves.of_turns (h : t.turns = s.turns) : Evolves call s t where
  kept request turn hturn := ⟨turn, h ▸ hturn, .inl rfl⟩
  added request turn hnone hturn := by
    rw [h, hnone] at hturn
    cases hturn

theorem Evolves.refl (s : Home) : Evolves call s s := .of_turns rfl

/-- Rows are changed one by one. -/
theorem Evolves.update {f : String → Turn → Turn}
    (h : ∀ request turn, s.turns.get? request = some turn →
      f request turn = turn ∨ call.mayChange request turn.state (f request turn).state) :
    Evolves call s { s with turns := s.turns.update f } where
  kept request turn hturn := by
    refine ⟨f request turn, ?_, h request turn hturn⟩
    change (s.turns.update f).get? request = _
    rw [Table.get?_update, hturn]
    rfl
  added request turn hnone hturn := by
    change (s.turns.update f).get? request = _ at hturn
    rw [Table.get?_update, hnone] at hturn
    cases hturn

/-- One row is changed. -/
theorem Evolves.modify {f : Turn → Turn}
    (h : ∀ turn, s.turns.get? request = some turn →
      f turn = turn ∨ call.mayChange request turn.state (f turn).state) :
    Evolves call s { s with turns := s.turns.modify request f } := by
  refine Evolves.update fun other turn hturn => ?_
  split
  · rename_i heq
    subst heq
    exact h turn hturn
  · exact .inl rfl

theorem recordIntent_evolves {session scope : String} {now : Int} {r : Unit × Home}
    (h : recordIntent request session scope now s = .ok r) :
    Evolves (.beforeSubmit scope request session) s r.2 := by
  obtain ⟨_, -, h⟩ := bind_eq_ok.mp h
  obtain ⟨_, hfinished, h⟩ := bind_eq_ok.mp h
  obtain ⟨turns, hinsert, h⟩ := bind_eq_ok.mp h
  rw [context_eq_ok] at hinsert
  cases h
  have hget := Table.get?_insert? hinsert
  refine ⟨fun other turn hturn => ⟨turn, ?_, .inl rfl⟩, fun other turn hnone hturn => ?_⟩
  · change turns.get? other = _
    rw [hget, if_neg, hturn]
    rintro rfl
    rw [(Table.insert?_eq_some.mp hinsert).1] at hturn
    cases hturn
  · change turns.get? other = _ at hturn
    rw [hget] at hturn
    split at hturn
    · rename_i heq
      subst heq
      cases hturn
      refine ⟨⟨scope, session, rfl⟩, rfl, fun other row hrow => ?_⟩
      by_contra hunresolved
      rw [ensure_eq_ok, Bool.not_eq_true'] at hfinished
      have hany : (s.turns.any fun _ turn => turn.state.unresolved) = true :=
        Table.any_iff.mpr ⟨other, row, hrow, by simpa using hunresolved⟩
      rw [hfinished] at hany
      cases hany
    · rw [hnone] at hturn
      cases hturn

/-! ### Every call -/

theorem within_attach : Within (Evolves call) attach.run := by
  refine within_transaction Evolves.refl ?_
  rintro i s _ _ ⟨⟩
  exact .of_turns rfl

theorem within_beforeSubmit {scope session : String} :
    Within (Evolves (.beforeSubmit scope request session)) (beforeSubmit scope request session).run := by
  refine within_check fun _ => within_bind (within_query Evolves.refl) fun profile => ?_
  refine within_bind (within_requireContext Evolves.refl) fun _ => within_bind within_attach fun _ => ?_
  refine within_bind (within_requireForeground Evolves.refl) fun _ => ?_
  refine within_bind (within_query Evolves.refl) fun config => within_check fun _ => ?_
  refine within_bind (within_requireForeground Evolves.refl) fun _ => ?_
  refine within_bind (within_query Evolves.refl) fun _ => ?_
  refine within_bind (within_transaction Evolves.refl fun i s _ _ h => recordIntent_evolves h)
    fun _ => within_transaction Evolves.refl ?_
  rintro i s _ _ ⟨⟩
  refine .modify fun turn _ => ?_
  split
  · rename_i hintent
    exact .inr ⟨rfl, hintent, rfl⟩
  · exact .inl rfl

theorem within_finish {scope session : String} {interrupted : Bool} :
    Within (Evolves (.finish scope request session interrupted))
      (finish scope request session interrupted).run := by
  refine within_check fun _ => within_transaction Evolves.refl ?_
  intro i s _ _ h
  obtain ⟨turn, hturn, h⟩ := bind_eq_ok.mp h
  rw [context_eq_ok, Option.filter_eq_some_iff] at hturn
  cases h
  refine .modify fun turn' hturn' => .inr ⟨rfl, ?_⟩
  rw [hturn.1] at hturn'
  cases hturn'
  simp only [finishedState]
  cases turn.state <;> cases interrupted <;> simp

theorem within_closeAdapter {scope session : String} :
    Within (Evolves (.closeAdapter scope session request))
      (closeAdapter scope session request).run := by
  refine within_check fun _ => within_transaction Evolves.refl ?_
  rintro i s _ _ ⟨⟩
  refine .modify fun turn _ => ?_
  split
  · rename_i hnamed
    rw [Bool.and_eq_true, Bool.or_eq_true, decide_eq_true_iff, decide_eq_true_iff] at hnamed
    exact .inr ⟨rfl, hnamed.2, rfl⟩
  · exact .inl rfl

/-- Every call changes receipts only as it may. -/
theorem TurnCall.within (call : TurnCall) : Within (Evolves call) call.code := by
  cases call with
  | beforeSubmit scope request session => exact within_bind within_beforeSubmit fun _ => within_pure
  | finish scope request session interrupted => exact within_bind within_finish fun _ => within_pure
  | closeAdapter scope session request => exact within_bind within_closeAdapter fun _ => within_pure
  | recovered =>
      refine within_bind (within_transaction Evolves.refl ?_) fun _ => within_pure
      rintro i s _ _ ⟨⟩
      refine .update fun request turn _ => ?_
      split
      · rename_i hunresolved
        exact .inr ⟨hunresolved, rfl⟩
      · exact .inl rfl
  | elsewhere home =>
      refine within_bind (within_transaction Evolves.refl ?_) fun _ => within_pure
      rintro i s _ _ ⟨⟩
      exact .of_turns rfl

end Steps

/-! ### The law of a run -/

/-- At most one turn is open. -/
def OneUnresolved (home : Home) : Prop :=
  ∀ request request' turn turn', home.turns.get? request = some turn →
    home.turns.get? request' = some turn' → turn.state.unresolved = true →
    turn'.state.unresolved = true → request = request'

theorem TurnCall.mayChange.unresolved {call : TurnCall} {request : String} {old new : TurnState}
    (h : call.mayChange request old new) (hnew : new.unresolved = true) : old.unresolved = true := by
  cases call with
  | beforeSubmit => rw [h.2.1]; rfl
  | finish =>
      rcases h.2 with rfl | ⟨hold | hold, -⟩
      · exact hnew
      · rw [hold]; rfl
      · rw [hold]; rfl
  | closeAdapter => rcases h.2.1 with hold | hold <;> rw [hold] <;> rfl
  | recovered => exact h.1
  | elsewhere => exact h.elim

theorem Evolves.oneUnresolved {call : TurnCall} {s t : Home} (h : Evolves call s t)
    (hs : OneUnresolved s) : OneUnresolved t := by
  -- What is open now was open before, or is the only one.
  have hopen (request : String) (turn : Turn) (hturn : t.turns.get? request = some turn)
      (hunresolved : turn.state.unresolved = true) :
      (∃ turn', s.turns.get? request = some turn' ∧ turn'.state.unresolved = true) ∨
        s.turns.get? request = none ∧
          ∀ other row, s.turns.get? other = some row → row.state.unresolved = false := by
    cases hold : s.turns.get? request with
    | none => exact .inr ⟨rfl, (h.added request turn hold hturn).2.2⟩
    | some turn' =>
        obtain ⟨turn'', hturn'', hchange⟩ := h.kept request turn' hold
        rw [hturn] at hturn''
        cases hturn''
        rcases hchange with rfl | hchange
        · exact .inl ⟨_, rfl, hunresolved⟩
        · exact .inl ⟨_, rfl, hchange.unresolved hunresolved⟩
  intro request request' turn turn' hturn hturn' hun hun'
  rcases hopen request turn hturn hun with ⟨row, hrow, hopened⟩ | ⟨hnone, hnew⟩
  · rcases hopen request' turn' hturn' hun' with ⟨row', hrow', hopened'⟩ | ⟨hnone', hnew'⟩
    · exact hs request request' row row' hrow hrow' hopened hopened'
    · rw [hnew' request row hrow] at hopened
      cases hopened
  · rcases hopen request' turn' hturn' hun' with ⟨row', hrow', hopened'⟩ | ⟨hnone', hnew'⟩
    · rw [hnew request' row' hrow'] at hopened'
      cases hopened'
    · -- both are new: one statement adds one row
      obtain ⟨⟨_, _, hcall⟩, -⟩ := h.added request turn hnone hturn
      obtain ⟨⟨_, _, hcall'⟩, -⟩ := h.added request' turn' hnone' hturn'
      rw [hcall] at hcall'
      cases hcall'
      rfl

/-- The turn that a late callback names. -/
def TurnCall.late : TurnCall → Option String
  | finish _ request _ _ => some request
  | closeAdapter _ _ request => some request
  | _ => none

/-- A late callback changes the turn it names, and adds none. -/
theorem Evolves.others {call : TurnCall} {s t : Home} {named request : String}
    (h : Evolves call s t) (hlate : call.late = some named) (hne : request ≠ named) :
    t.turns.get? request = s.turns.get? request := by
  cases hold : s.turns.get? request with
  | none =>
      cases hnew : t.turns.get? request with
      | none => rfl
      | some turn =>
          obtain ⟨⟨_, _, rfl⟩, -⟩ := h.added request turn hold hnew
          cases hlate
  | some turn =>
      obtain ⟨turn', hturn', hchange⟩ := h.kept request turn hold
      rcases hchange with rfl | hchange
      · exact hturn'
      · cases call with
        | finish => exact absurd (hchange.1.trans (Option.some.inj hlate)) hne
        | closeAdapter => exact absurd (hchange.1.trans (Option.some.inj hlate)) hne
        | beforeSubmit => cases hlate
        | recovered => cases hlate
        | elsewhere => cases hlate

/-- The ledgers after a move. -/
def after (e : LedgerEntry) : Ledgers := (ledgers e.call e.before).2

def turnState (home : Home) (request : String) : Option TurnState :=
  (home.turns.get? request).map Turn.state

/-- The move admits a turn. -/
def Admits (request : String) (e : LedgerEntry) : Prop :=
  e.before.shared.turns.get? request = none ∧ (after e).shared.turns.get? request ≠ none

/-- After the move a call returns a receipt that says dispatched. -/
def Issues (request : String) (e : LedgerEntry) : Prop :=
  ∃ scope session receipt, (after e).reached = e.before.reached ++
    [(.beforeSubmit scope request session, .ok (.receipt receipt))] ∧ receipt.state = .dispatched

/-- The move dispatches a turn. -/
def Dispatches (request : String) (e : LedgerEntry) : Prop :=
  turnState e.before.shared request ≠ some .dispatched ∧
    turnState (after e).shared request = some .dispatched

/-- What the last statement of a call does, and what it returns. -/
def TurnCall.closing : TurnCall → Home → Home → TurnReply → Prop
  | beforeSubmit _ request _, s, t, _ => ∃ now, t = dispatchTurn request now s
  | _, _, _, _ => True

theorem TurnCall.ends (call : TurnCall) : Ends call.closing call.action := by
  cases call with
  | beforeSubmit scope request session =>
      have hends : Ends (fun s t (_ : Receipt) => ∃ now, t = dispatchTurn request now s)
          (Native.beforeSubmit scope request session) := by
        refine .after _ fun _ => .after _ fun profile => .after _ fun _ => .after _ fun _ => ?_
        refine .after _ fun _ => .after _ fun config => .after _ fun _ => .after _ fun _ => ?_
        refine .after _ fun _ => .after _ fun _ => ends_transaction ?_
        rintro i s _ _ ⟨⟩
        exact ⟨i.now, rfl⟩
      exact hends.map fun _ _ _ h => h
  | finish scope request session interrupted =>
      exact Ends.map (.after _ fun _ => ends_transaction fun _ _ _ _ _ => trivial)
        fun _ _ _ (_ : True) => trivial
  | closeAdapter scope session request =>
      exact Ends.map (.after _ fun _ => ends_transaction fun _ _ _ _ _ => trivial)
        fun _ _ _ (_ : True) => trivial
  | recovered => exact Ends.map (ends_transaction fun _ _ _ _ _ => trivial) fun _ _ _ (_ : True) => trivial
  | elsewhere home =>
      exact Ends.map (ends_transaction fun _ _ _ _ _ => trivial) fun _ _ _ (_ : True) => trivial

/-- The dispatch changes the row exactly when it finds the intent. -/
theorem dispatches_iff (s : Home) (request : String) (now : Int) :
    (turnState s request ≠ some .dispatched ∧
      turnState (dispatchTurn request now s) request = some .dispatched) ↔
      turnState s request = some .intent := by
  simp only [turnState, dispatchTurn, Table.get?_modify, if_pos, Option.map_map]
  cases s.turns.get? request with
  | none => simp
  | some turn =>
      by_cases hintent : turn.state = .intent
      · simp [hintent]
      · simp only [Option.map_some, Function.comp_apply, if_neg hintent, Option.some.injEq]
        exact ⟨fun h => absurd (congrArg some h.2) h.1, fun h => absurd h hintent⟩

section Runs

variable {start : Home} {entries : List LedgerEntry} {pool : Ledgers}

/-- A move is one statement of one call, or writes nothing. -/
theorem evolves (h : History ledgers NoDrift { shared := start } entries pool) (m : LedgerMove) :
    (ledgers m pool).2.shared = pool.shared ∨ ∃ place input, m = .advance place input ∧ ∃ task,
      pool.tasks[place]? = some task ∧ Evolves task.call pool.shared (ledgers m pool).2.shared :=
  Pool.within_move TurnCall.within h m

theorem evolves_some (h : History ledgers NoDrift { shared := start } entries pool) (m : LedgerMove) :
    ∃ call, Evolves call pool.shared (ledgers m pool).2.shared := by
  rcases evolves h m with hsame | ⟨_, _, _, task, _, hevolves⟩
  · exact ⟨.recovered, .of_turns (by rw [hsame])⟩
  · exact ⟨task.call, hevolves⟩

/-- What came before an entry of a run. -/
theorem before_history (h : History ledgers NoDrift { shared := start } entries pool)
    {e : LedgerEntry} (he : e ∈ entries) :
    ∃ pre, History ledgers NoDrift { shared := start } pre e.before := by
  obtain ⟨pre, post, rfl⟩ := List.append_of_mem he
  exact ⟨pre, h.split.1⟩

/-- A receipt stays. -/
theorem receipt_stays {pool' : Ledgers} {entries' : List LedgerEntry} {request : String}
    (h : History ledgers NoDrift { shared := start } entries pool)
    (h' : History ledgers NoDrift pool entries' pool')
    (hrow : pool.shared.turns.get? request ≠ none) : pool'.shared.turns.get? request ≠ none := by
  refine h'.invariant_entries (fun _ s => s.shared.turns.get? request ≠ none) hrow ?_ ?_
  · intro es u m hes hu
    obtain ⟨call, hevolves⟩ := evolves_some (h.trans hes) m
    obtain ⟨turn, hturn⟩ := Option.ne_none_iff_exists'.mp hu
    obtain ⟨turn', hturn', -⟩ := hevolves.kept request turn hturn
    rw [hturn']
    exact Option.some_ne_none turn'
  · exact fun _ _ _ _ hd => hd.elim

theorem admitted_once (h : History ledgers NoDrift { shared := start } entries pool) :
    entries.Pairwise fun e e' => ∀ request, Admits request e → ¬ Admits request e' := by
  refine pairwise_of_split ?_
  rintro pre e' post rfl e he request ⟨-, hadmitted⟩ ⟨hnone, -⟩
  obtain ⟨first, mid, rfl⟩ := List.append_of_mem he
  obtain ⟨hpre, -, -⟩ := h.split
  obtain ⟨hfirst, -, hmid⟩ := hpre.split
  exact receipt_stays (hfirst.call e.call) hmid hadmitted hnone

theorem oneUnresolved (hstart : start.turns = ∅)
    (h : History ledgers NoDrift { shared := start } entries pool) : OneUnresolved pool.shared := by
  refine h.invariant_entries (fun _ s => OneUnresolved s.shared) ?_ ?_ fun _ _ _ _ hd => hd.elim
  · intro request request' turn turn' hturn
    rw [hstart] at hturn
    cases hturn
  · intro es u m hes hu
    obtain ⟨call, hevolves⟩ := evolves_some hes m
    exact hevolves.oneUnresolved hu

/-- The states that may follow one another. -/
theorem TurnCall.mayChange.final {call : TurnCall} {request : String} {old new : TurnState}
    (h : call.mayChange request old new) :
    (old = .completed → new = .completed) ∧ (old = .acknowledged → new = .acknowledged) ∧
      (old = .unknown → new = .unknown ∨ new = .acknowledged) := by
  cases call <;> cases old <;> cases new <;> simp_all [mayChange, TurnState.unresolved]

/-- **Turns.**  Each request is admitted at most once; at most one turn is open; what is completed or
acknowledged is final, and what is unknown is only acknowledged; a late callback changes no other
turn; and a receipt that says dispatched is true exactly when the intent was still there. -/
theorem native_turns (hstart : start.turns = ∅)
    (h : History ledgers NoDrift { shared := start } entries pool) :
    entries.Pairwise (fun e e' => ∀ request, Admits request e → ¬ Admits request e') ∧
    OneUnresolved pool.shared ∧
    (∀ e ∈ entries, ∀ request turn, e.before.shared.turns.get? request = some turn → ∃ turn',
      (after e).shared.turns.get? request = some turn' ∧
      (turn.state = .completed → turn'.state = .completed) ∧
      (turn.state = .acknowledged → turn'.state = .acknowledged) ∧
      (turn.state = .unknown → turn'.state = .unknown ∨ turn'.state = .acknowledged)) ∧
    (∀ e ∈ entries, ∀ place input task named, e.call = .advance place input →
      e.before.tasks[place]? = some task → task.call.late = some named → ∀ request ≠ named,
      (after e).shared.turns.get? request = e.before.shared.turns.get? request) ∧
    ∀ e ∈ entries, ∀ request, Issues request e →
      (Dispatches request e ↔ turnState e.before.shared request = some .intent) := by
  refine ⟨admitted_once h, oneUnresolved hstart h, ?_, ?_, ?_⟩
  · intro e he request turn hturn
    obtain ⟨pre, hpre⟩ := before_history h he
    obtain ⟨call, hevolves⟩ := evolves_some hpre e.call
    obtain ⟨turn', hturn', hchange⟩ := hevolves.kept request turn hturn
    refine ⟨turn', hturn', ?_⟩
    rcases hchange with rfl | hchange
    · exact ⟨id, id, .inl⟩
    · exact hchange.final
  · intro e he place input task named hcall htask hlate request hne
    obtain ⟨pre, hpre⟩ := before_history h he
    rcases evolves hpre e.call with hsame | ⟨place', input', hcall', task', htask', hevolves⟩
    · change (ledgers e.call e.before).2.shared.turns.get? request = _
      rw [hsame]
    · rw [hcall] at hcall'
      cases hcall'
      rw [htask] at htask'
      cases htask'
      exact hevolves.others hlate hne
  · rintro e he request ⟨scope, session, receipt, hreached, -⟩
    obtain ⟨pre, hpre⟩ := before_history h he
    obtain ⟨now, hdispatch⟩ :=
      ((Pool.closes TurnCall.ends hpre).move TurnCall.ends e.call).2 _ _ hreached
    have hiff := dispatches_iff e.before.shared request now
    rw [← hdispatch] at hiff
    exact hiff

end Runs

/-! ### A turn that is closed before it is dispatched -/

def interruptedSession : String := "00000000-0000-4000-8000-000000000002"

def interruptedHome : Home where
  profile := "00000000-0000-4000-8000-000000000001"
  control := some {}
  policy := { config := { maxTotalCalls := noCallLimit } }

/-- The adapter of a turn ends between the intent and the dispatch. -/
def interruptedMoves : List LedgerMove :=
  .start (.beforeSubmit "personal" "turn" interruptedSession) ::
    List.replicate 14 (.advance 0 {}) ++
    [.start (.closeAdapter "personal" interruptedSession "turn"), .advance 1 {}]

def interruptedRun : List LedgerEntry × Ledgers := replay ledgers { shared := interruptedHome } interruptedMoves

/-- The dispatch. -/
def interruptedEntry : LedgerEntry :=
  ⟨interruptedRun.2, .advance 0 {}, (ledgers (.advance 0 {}) interruptedRun.2).1⟩

theorem interruptedEntry_history : History ledgers NoDrift { shared := interruptedHome }
    (interruptedRun.1 ++ [interruptedEntry]) (after interruptedEntry) :=
  (History.replay _ interruptedMoves).call (.advance 0 {})

/-- The request of a submission. -/
def TurnCall.submitted : TurnCall → Option String
  | beforeSubmit _ request _ => some request
  | _ => none

theorem interruptedEntry_closed :
    turnState (after interruptedEntry).shared "turn" = some .unknown := by
  decide +kernel

/-- The receipt of this run says dispatched. -/
theorem interruptedEntry_issues : Issues "turn" interruptedEntry := by
  have hreached : ((after interruptedEntry).reached.drop interruptedRun.2.reached.length).map
      (fun r => (r.1.submitted, r.2)) = [(some "turn",
        .ok (.receipt ⟨"turn", interruptedSession, .dispatched, none⟩))] := by
    decide +kernel
  obtain ⟨new, hnew⟩ := Pool.reached_grows TurnCall.code interruptedRun.2 (.advance 0 {})
  have hafter : (after interruptedEntry).reached = interruptedRun.2.reached ++ new := hnew
  rw [hafter, List.drop_left, List.map_eq_singleton_iff] at hreached
  obtain ⟨⟨call, reply⟩, rfl, hview⟩ := hreached
  rw [Prod.mk.injEq] at hview
  obtain ⟨hcall, rfl⟩ := hview
  cases call with
  | beforeSubmit scope request session =>
      cases hcall
      exact ⟨scope, session, _, hafter, rfl⟩
  | finish => cases hcall
  | closeAdapter => cases hcall
  | recovered => cases hcall
  | elsewhere => cases hcall

/-- The law at this run. -/
theorem native_turns_interrupted : Dispatches "turn" interruptedEntry ↔
    turnState interruptedEntry.before.shared "turn" = some .intent :=
  (native_turns rfl interruptedEntry_history).2.2.2.2 interruptedEntry (by simp) "turn"
    interruptedEntry_issues

/-- A receipt says dispatched, although its call did not move the row: the turn was closed in
between. -/
theorem native_turns_untrue : ∃ (start : Home) (entries : List LedgerEntry) (pool : Ledgers)
    (e : LedgerEntry) (request : String), start.turns = ∅ ∧
    History ledgers NoDrift { shared := start } entries pool ∧ e ∈ entries ∧ Issues request e ∧
    ¬ Dispatches request e := by
  refine ⟨interruptedHome, _, _, interruptedEntry, "turn", rfl, interruptedEntry_history, by simp,
    interruptedEntry_issues, fun h => ?_⟩
  rw [Dispatches, interruptedEntry_closed] at h
  cases h.2

end Pikamux.Native
