import Pikamux.Assistant.Chain

/-!
# Assistant — Requests

Each request of `assistant_decisions.rs` only appends a revision of what it read, and once it was
answered it is answered the same again.  A confirmation is the exception: it also reads a receipt,
and a receipt that was corrected in the meantime is no longer active.

* `retriable_commit` — the end of every request.
* `Call.specified` — every request, among the others.
-/

namespace Pikamux.Decisions

open Support Support.Program Memory

/-- Requests whose records have words of their own. -/
def Call.newWords : Call → Bool
  | create .. => true
  | transition .. => false
  | revise .. => true
  | correct .. => true
  | setCommitmentDue .. => false
  | reportCommitmentCompletion .. => false
  | confirmCommitmentExecution .. => false

/-- The receipt that a confirmation reads. -/
def Call.receiptId : Call → Option String
  | confirmCommitmentExecution _ _ _ _ receiptId _ => some receiptId
  | _ => none

/-- The failure of a request that had succeeded: its receipt was superseded. -/
def Call.Excepted (c : Call) (e : MemoryError) (s : Store) : Prop :=
  ∃ receiptId, c.receiptId = some receiptId ∧ e = .notFound receiptId ∧
    hasSuccessor s receiptId = true

section Retries

variable {w : Wording} {lib : Library} {newWords : Bool} {except : MemoryError → Store → Prop}
  {scope : Scope} {id requestId receiptId : String} {record : Record}

/-- A revision of what was found. -/
theorem retriable_commit {input : NewRecord} (hrevises : Revises w newWords record input)
    (hsupersedes : input.supersedes = some record.id) :
    Retriable Extends (Writes w newWords) except (Found scope id record) (fun _ _ => True)
      (commitRevision lib requestId input) :=
  retriable_commitRevision.weaken (fun _ hs => hs.follows hrevises hsupersedes) fun _ _ h => h

/-- A revision of a decision. -/
theorem retriable_decision {α : Type} {fact : α → Store → Prop} {p : Action α}
    (h : record.protectedPolicy = false →
      (record.kind = .decision → record.decisionState ≠ some .superseded) →
      Retriable Extends (Writes w newWords) except (Found scope id record) fact p) :
    Retriable Extends (Writes w newWords) except (FoundDecision scope id record) fact p := by
  refine retriable_given (fun s hs => hs.1.2.2.2) fun hunprotected => ?_
  refine retriable_given (fun s hs => hs.2.2) fun hstate => ?_
  exact (h hunprotected fun _ => hstate).weaken (fun _ hs => hs.1) fun _ _ h => h

theorem retriable_create (origin : Origin) (body : String) (state : DecisionState)
    (timestamp : Int) :
    Retriable Extends (Writes w true) except Rooted (fun _ _ => True)
      (create w lib requestId origin scope body state timestamp) := by
  refine retriable_check_then (fun _ _ _ h => h) fun _ => ?_
  refine retriable_check_then (fun _ _ _ h => h) fun _ => ?_
  refine retriable_check_then (fun _ _ _ h => h) fun _ => ?_
  refine retriable_check_then (fun _ _ _ h => h) fun _ => ?_
  refine retriable_transaction Extends.trans (Writes.self w true) ?_
  intro id s t record u _ _ h
  obtain ⟨hwrites, hagain⟩ := appendIdempotentChecked_spec h (.inr rfl) (.inl ⟨rfl, rfl⟩)
  exact ⟨hwrites, trivial, hagain⟩

theorem retriable_transition (hw : w.Faithful) (origin : Origin) (state : DecisionState)
    (timestamp : Int) :
    Retriable Extends (Writes w false) except Rooted (fun _ _ => True)
      (transition w lib requestId origin scope id state timestamp) := by
  refine retriable_check_then (fun _ _ _ h => h) fun _ => ?_
  refine retriable_bind retriable_decisionPredecessor fun record => ?_
  refine retriable_decision fun hunprotected hstate => ?_
  have hrevises : Revises w false record (revisionOf w record record.body timestamp
      "explicit human decision state transition" false) :=
    revisionOf_revises hw hunprotected hstate
  exact retriable_commit ⟨hrevises.kind, hrevises.scope, hrevises.unprotected, hstate,
    hrevises.origin, hrevises.provenance⟩ rfl

theorem retriable_revise (hw : w.Faithful) (origin : Origin) (decision : Decision)
    (timestamp : Int) :
    Retriable Extends (Writes w true) except Rooted (fun _ _ => True)
      (revise w lib requestId origin scope id decision timestamp) := by
  refine retriable_check_then (fun _ _ _ h => h) fun _ => ?_
  refine retriable_bind retriable_decisionPredecessor fun record => ?_
  refine retriable_check_then (fun _ _ _ h => h) fun _ => ?_
  refine retriable_check_then (fun _ _ _ h => h) fun _ => ?_
  refine retriable_decision fun hunprotected hstate => ?_
  exact retriable_commit (revisionOf_revises hw hunprotected hstate) rfl

theorem retriable_correct (hw : w.Faithful) (origin : Origin) (body : String) (timestamp : Int) :
    Retriable Extends (Writes w true) except Rooted (fun _ _ => True)
      (correct w lib requestId origin scope id body timestamp) := by
  refine retriable_check_then (fun _ _ _ h => h) fun _ => ?_
  refine retriable_check_then (fun _ _ _ h => h) fun _ => ?_
  refine retriable_bind retriable_predecessor fun record => ?_
  have hkind : ∀ (u : Unit) (s : Store), ensure (record.kind ≠ .decision)
      (MemoryError.invalid ("use /decision-revise-json " ++ id ++
        " with the complete decision JSON to preserve its state and reasoning; use /decision-state "
        ++ id ++ " STATE to change only its state")) = .ok u → Found scope id record s →
      Found scope id record s ∧ record.kind ≠ .decision := by
    intro _ s hcheck hs
    exact ⟨hs, of_decide_eq_true (ensure_eq_ok.mp hcheck)⟩
  refine retriable_check_then hkind fun _ => ?_
  refine retriable_given (fun s hs => hs.1.2.2.2) fun hunprotected => ?_
  refine retriable_given (fun s hs => hs.2) fun hdecision => ?_
  refine Retriable.weaken ?_ (fun _ hs => hs.1) fun _ _ h => h
  refine retriable_bind (retriable_semanticKind 128) fun kind => ?_
  have hrevises : Revises w true record (revisionOf w record body timestamp
      "explicit human correction of saved wording" true) :=
    revisionOf_revises hw hunprotected fun h => absurd h hdecision
  exact retriable_commit (hrevises.corrected hw kind rfl) rfl

/-! ### Commitments -/

theorem retriable_updateCommitment (hw : w.Faithful) (origin : Origin) (timestamp : Int)
    (change : Commitment → Except MemoryError Commitment) :
    Retriable Extends (Writes w false) except Rooted (fun _ _ => True)
      (updateCommitment w lib requestId origin scope id timestamp change) := by
  refine retriable_check_then (fun _ _ _ h => h) fun _ => ?_
  refine retriable_bind retriable_decisionPredecessor fun record => ?_
  refine retriable_check_then (fun _ _ _ h => h) fun _ => ?_
  refine retriable_check_then (fun _ _ _ h => h) fun _ => ?_
  refine retriable_decision fun hunprotected hstate => ?_
  exact retriable_commit (revisionOf_revises hw hunprotected hstate) rfl

theorem retriable_setCommitmentDue (hw : w.Faithful) (origin : Origin) (dueAt timestamp : Int) :
    Retriable Extends (Writes w false) except Rooted (fun _ _ => True)
      (setCommitmentDue w lib requestId origin scope id dueAt timestamp) := by
  refine retriable_check_then (fun _ _ _ h => h) fun _ => ?_
  refine retriable_bind retriable_decisionPredecessor fun record => ?_
  refine retriable_check_then (fun _ _ _ h => h) fun _ => ?_
  -- the decision is read once more
  exact (retriable_updateCommitment hw origin timestamp _).weaken (fun _ hs => hs.1.1) fun _ _ h => h

theorem retriable_reportCommitmentCompletion (hw : w.Faithful) (origin : Origin)
    (statement : String) (timestamp : Int) :
    Retriable Extends (Writes w false) except Rooted (fun _ _ => True)
      (reportCommitmentCompletion w lib requestId origin scope id statement timestamp) := by
  refine retriable_check_then (fun _ _ _ h => h) fun _ => ?_
  exact retriable_updateCommitment hw origin timestamp _

/-- An active record that was found: from then on it is found, or it is superseded. -/
theorem sat_getActive {rely guar : Store → Store → Prop} {s : Store}
    (hself : ∀ t, guar t t) (hextends : ∀ t u, rely t u → Extends t u) :
    Sat rely guar (fun r t => ∃ found, r = .ok found ∧
      (found = none ∧ (get s id ≠ none → hasSuccessor t id = true) ∨
        ∃ record, found = some record ∧ get t id = some record))
      (getActive id).run s := by
  refine sat_query (fun t _ => hself t) ?_ ?_
  · rintro t superseded ht ⟨⟩
    cases hsuperseded : hasSuccessor t id with
    | true => exact ⟨none, rfl, .inl ⟨rfl, fun _ => hsuperseded⟩⟩
    | false =>
        intro i u hu
        refine ⟨hself u, get u id, rfl, ?_⟩
        cases hget : get u id with
        | some record => exact .inr ⟨record, rfl, rfl⟩
        | none =>
            refine .inl ⟨rfl, fun hs => ?_⟩
            obtain ⟨record, hrecord⟩ := Option.ne_none_iff_exists'.mp hs
            rw [(hextends t u hu).get ((hextends s t ht).get hrecord)] at hget
            cases hget
  · rintro t e - ⟨⟩

/-- A receipt that was valid stays so, unless it is superseded. -/
theorem retriable_validateExecutionReceipt
    (hexcept : ∀ s, hasSuccessor s receiptId = true → except (.notFound receiptId) s) :
    Retriable Extends (Writes w newWords) except Rooted (fun _ => Rooted)
      (validateExecutionReceipt w scope id receiptId) := by
  intro s hs
  refine Sat.bind_fallible ((sat_getActive (Writes.self w newWords) fun _ _ h => h).reached
    Extends.refl Extends.trans fun _ _ => Writes.extends) ?_ ?_
  · rintro found t ⟨⟨_, ⟨⟩, hfound⟩, ht⟩
    rcases hfound with ⟨rfl, -⟩ | ⟨evidence, rfl, hevidence⟩
    · rintro a ⟨⟩
    refine ((Retriable.sat except (fun _ => Rooted) ?_ (ht.rooted hs)).reached Extends.refl
      Extends.trans fun _ _ => Writes.extends).mono ?_
    · refine retriable_check_then (fun _ _ _ h => h) fun _ => ?_
      refine retriable_check_then (fun _ _ _ h => h) fun _ => ?_
      refine retriable_check_then (fun _ _ _ h => h) fun _ => ?_
      exact retriable_check fun _ _ _ h => h
    rintro r u ⟨hr, hu⟩ a rfl
    obtain ⟨hrooted, hsettled⟩ := hr a rfl
    refine ⟨hrooted, fun v hv => ?_⟩
    have hlasts : get v receiptId = some evidence := (Extends.trans _ _ _ hu hv).get hevidence
    refine Sat.bind_fallible ((sat_getActive (fun _ => rfl) fun _ _ h => h).reached
      Extends.refl Extends.trans fun x _ h => h ▸ Extends.refl x) ?_ ?_
    · rintro found v' ⟨⟨_, ⟨⟩, hfound⟩, hv'⟩
      rcases hfound with ⟨rfl, hsuperseded⟩ | ⟨evidence', rfl, hevidence'⟩
      · exact .inr ⟨_, rfl, hexcept v' (hsuperseded (by simp [hlasts]))⟩
      · cases (hv'.get hlasts).symm.trans hevidence'
        exact hsettled v' (Extends.trans _ _ _ hv hv')
    · rintro e v' ⟨⟨_, ⟨⟩, -⟩, -⟩
  · rintro e t ⟨⟨_, ⟨⟩, -⟩, -⟩

theorem retriable_confirmCommitmentExecution (hw : w.Faithful) (origin : Origin) (timestamp : Int)
    (hexcept : ∀ s, hasSuccessor s receiptId = true → except (.notFound receiptId) s) :
    Retriable Extends (Writes w false) except Rooted (fun _ _ => True)
      (confirmCommitmentExecution w lib requestId origin scope id receiptId timestamp) := by
  refine retriable_check_then (fun _ _ _ h => h) fun _ => ?_
  refine retriable_bind (retriable_validateExecutionReceipt hexcept) fun _ => ?_
  refine retriable_bind retriable_decisionPredecessor fun record => ?_
  refine retriable_check_then (fun _ _ _ h => h) fun value => ?_
  refine retriable_decision fun hunprotected hstate => ?_
  have hrevises : Revises w false record (revisionOf w record
      (w.printCommitment { value with completion := .receiptConfirmed receiptId }) timestamp
      "human associated verified native execution receipt" false) :=
    revisionOf_revises hw hunprotected hstate
  exact retriable_commit ⟨hrevises.kind, hrevises.scope, hrevises.unprotected, hstate,
    hrevises.origin, hrevises.provenance⟩ rfl

end Retries

/-! ### Every request among the others -/

section Specified

variable {w : Wording} {lib : Library}

/-- The program of a request, as one that may fail. -/
abbrev Call.action (w : Wording) (lib : Library) (c : Call) : Action Record :=
  ExceptT.mk (c.code w lib)

/-- **Requests.**  Once it was answered with a record, a request is answered so again. -/
theorem Call.retriable (hw : w.Faithful) (c : Call) :
    Retriable Extends (Writes w c.newWords) c.Excepted Rooted (fun _ _ => True)
      (c.action w lib) := by
  cases c with
  | create => exact retriable_create _ _ _ _
  | transition => exact retriable_transition hw _ _ _
  | revise => exact retriable_revise hw _ _ _
  | correct => exact retriable_correct hw _ _ _
  | setCommitmentDue => exact retriable_setCommitmentDue hw _ _ _
  | reportCommitmentCompletion => exact retriable_reportCommitmentCompletion hw _ _ _
  | confirmCommitmentExecution =>
      exact retriable_confirmCommitmentExecution hw _ _ fun s hs => ⟨_, rfl, rfl, hs⟩

/-- A request that has this result is answered with the same record again. -/
def Call.Answered (w : Wording) (lib : Library) (c : Call) (r : Result) (s : Store) : Prop :=
  ∀ record, r = .ok record → Settled Extends c.Excepted (c.action w lib) record s

/-- What holds of a result, given the results there were when the request was made. -/
def Call.Replied (w : Wording) (lib : Library) (c : Call) (since : List (Call × Result))
    (r : Result) (s : Store) : Prop :=
  c.Answered w lib r s ∧ ∀ earlier : { record // (c, .ok record) ∈ since },
    Again c.Excepted earlier.1 r s

theorem Call.specified (hw : w.Faithful) :
    Pool.Specified (Call.code w lib) Extends (fun c => Writes w c.newWords)
      (Call.Replied w lib)
      (fun reached s => Rooted s ∧ ∀ p ∈ reached, p.1.Answered w lib p.2 s) where
  refl := Extends.refl
  trans := Extends.trans
  relied _ _ _ := Writes.extends
  stable := by
    rintro c since r s t ⟨hanswered, hagain⟩ ht
    refine ⟨fun record hr => (hanswered record hr).stable Extends.trans ht, fun earlier => ?_⟩
    rcases hagain earlier with hr | ⟨e, hr, receiptId, hc, he, hsuperseded⟩
    · exact .inl hr
    · exact .inr ⟨e, hr, receiptId, hc, he, ht.hasSuccessor hsuperseded⟩
  known := by
    rintro reached s t ⟨hrooted, hreached⟩ ht
    exact ⟨ht.rooted hrooted, fun p hp record hr =>
      (hreached p hp record hr).stable Extends.trans ht⟩
  learned := by
    rintro reached c since r s ⟨hrooted, hreached⟩ hreplied
    refine ⟨hrooted, fun p hp => ?_⟩
    rcases List.mem_append.mp hp with hp | hp
    · exact hreached p hp
    · rw [List.mem_singleton.mp hp]
      exact hreplied.1
  started := by
    rintro c since s ⟨hrooted, hreached⟩
    have hretriable : Retriable Extends (Writes w c.newWords) c.Excepted Rooted (fun _ _ => True)
        (c.action w lib) := Call.retriable hw c
    have hfirst := hretriable.sat c.Excepted _ hrooted
    refine (hfirst.forall fun earlier : { record // (c, .ok record) ∈ since } =>
      hreached _ earlier.2 _ rfl s (Extends.refl s)).mono ?_
    rintro r t ⟨hr, hagain⟩
    exact ⟨fun record h => (hr record h).2, hagain⟩

end Specified

end Pikamux.Decisions
