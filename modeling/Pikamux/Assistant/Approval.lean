import Pikamux.Assistant.Inheritance

/-!
# Assistant — Approval

What an approval or a rollback leaves behind that returns an error.  Between any two statements
others may change the memory in any way, retire versions and revoke grants.

* `Withdraws` — what others do to the registry.
* `Stands`, `Unwritten`, `Written` — what is known in the middle of an approval.
* `Fails` — what is known at an error.
* `failed_approval` — when the version in force stays, and no grant is left.
-/

namespace Pikamux.Workshop

open Support Support.Program Evolution

/-! ### Versions in force -/

/-- What `invoke` runs for the name, and under which grant. -/
def activeToolGrant (name : String) (db : Tables) : Option (String × String) := do
  let row ← db.activations.get? name
  if row.active then some (row.hash, row.grantId) else none

def grantStillValid (grantId : String) (now : Int) (db : Tables) : Bool :=
  (db.grants.get? grantId).any fun grant => !grant.revoked && grant.unexpired now

/-- The version `hash` of the name is active with a valid grant. -/
structure InForce (now : Int) (name hash grantId : String) (db : Tables) : Prop where
  active : activeToolGrant name db = some (hash, grantId)
  valid : grantStillValid grantId now db = true

/-- The version was retired, or its grant revoked. -/
def Gone (hash grantId : String) (db : Tables) : Prop :=
  db.retirements.contains hash = true ∨
    ∃ grant, db.grants.get? grantId = some grant ∧ grant.revoked = true

/-! ### Others -/

inductive Withdraws (s t : Registry) : Prop where
  | retired (hash : String) (assessments : List Assessment) (contractFailures : Table String Unit)
      (h : t = { s with
        tables := { s.tables with assessments, contractFailures }.retire hash })
  | revoked (id : String)
      (h : t = { s with tables := { s.tables with
        grants := s.tables.grants.modify id fun grant => { grant with revoked := true } } })

abbrev Others : Registry → Registry → Prop := Relation.ReflTransGen Withdraws

/-- What others may do between two statements. -/
structure Meanwhile (s t : Bench) : Prop where
  registry : Others s.registry t.registry
  rest : t = { s with registry := t.registry }

section Forces

variable {now : Int} {name hash grantId : String} {db db' : Tables} {s t : Registry}

theorem activeToolGrant_eq : activeToolGrant name db = some (hash, grantId) ↔
    db.activations.get? name = some ⟨hash, grantId, true⟩ := by
  rw [activeToolGrant]
  cases hrow : db.activations.get? name with
  | none => simp
  | some row =>
      obtain ⟨hash', grantId', active⟩ := row
      cases active <;> simp

theorem grantStillValid_eq : grantStillValid grantId now db = true ↔
    ∃ grant, db.grants.get? grantId = some grant ∧ grant.revoked = false ∧
      grant.unexpired now = true := by
  simp [grantStillValid, Option.any_eq_true]

/-- It stays in force when its rows stay. -/
theorem InForce.of_rows (h : InForce now name hash grantId db)
    (hactivation : db'.activations.get? name = db.activations.get? name)
    (hgrant : db'.grants.get? grantId = db.grants.get? grantId) :
    InForce now name hash grantId db' := by
  obtain ⟨hactive, hvalid⟩ := h
  rw [activeToolGrant_eq] at hactive
  rw [grantStillValid] at hvalid
  exact ⟨activeToolGrant_eq.mpr (hactivation.trans hactive), by rwa [grantStillValid, hgrant]⟩

theorem Gone.of_rows (h : Gone hash grantId db) (hretired : db'.retirements = db.retirements)
    (hgrant : ∀ grant, db.grants.get? grantId = some grant → grant.revoked = true →
      ∃ grant', db'.grants.get? grantId = some grant' ∧ grant'.revoked = true) :
    Gone hash grantId db' := by
  rcases h with h | ⟨grant, hget, hrevoked⟩
  · exact .inl (hretired ▸ h)
  · exact .inr (hgrant grant hget hrevoked)

/-- A revocation leaves what is gone, and what has another grant. -/
theorem gone_modify {id : String} (h : Gone hash grantId db) : Gone hash grantId { db with
    grants := db.grants.modify id fun grant => { grant with revoked := true } } := by
  refine h.of_rows rfl fun grant hget hrevoked => ?_
  dsimp only
  rw [Table.get?_modify, hget]
  split
  case isTrue => exact ⟨_, rfl, rfl⟩
  case isFalse => exact ⟨grant, rfl, hrevoked⟩

theorem inForce_modify {id : String} (h : InForce now name hash grantId db) (hne : id ≠ grantId) :
    InForce now name hash grantId { db with
      grants := db.grants.modify id fun grant => { grant with revoked := true } } := by
  refine h.of_rows rfl ?_
  dsimp only
  rw [Table.get?_modify, if_neg]
  exact fun e => hne e.symm

/-- Retirement of a version. -/
theorem held_retire {other : String} (h : InForce now name hash grantId db ∨ Gone hash grantId db) :
    InForce now name hash grantId (db.retire other) ∨ Gone hash grantId (db.retire other) := by
  by_cases hretired : (db.retire other).retirements.contains hash = true
  · exact .inr (.inl hretired)
  have hne : hash ≠ other := by
    rintro rfl
    refine hretired ?_
    rw [Tables.retire, Table.contains, Table.get?_insertOrIgnore, if_pos rfl]
    rfl
  have hgrants : (db.retire other).grants.get? grantId = (db.grants.get? grantId).map
      fun grant => if grant.hash = other then { grant with revoked := true } else grant :=
    Table.get?_update ..
  rcases h with h | h
  · obtain ⟨hactive, hvalid⟩ := h
    rw [activeToolGrant_eq] at hactive
    obtain ⟨grant, hget, hrevoked, hunexpired⟩ := grantStillValid_eq.mp hvalid
    rw [hget, Option.map_some] at hgrants
    by_cases hgrant : grant.hash = other
    · rw [if_pos hgrant] at hgrants
      exact .inr (.inr ⟨_, hgrants, rfl⟩)
    · rw [if_neg hgrant] at hgrants
      refine .inl ⟨activeToolGrant_eq.mpr ?_, grantStillValid_eq.mpr ⟨grant, hgrants, hrevoked,
        hunexpired⟩⟩
      rw [Tables.retire, Table.get?_update, hactive, Option.map_some, if_neg hne]
  · refine .inr ?_
    rcases h with h | ⟨grant, hget, hrevoked⟩
    · refine absurd ?_ hretired
      rw [Tables.retire, Table.contains, Table.get?_insertOrIgnore, if_neg hne]
      exact h
    · rw [hget, Option.map_some] at hgrants
      refine .inr ⟨_, hgrants, ?_⟩
      split
      · rfl
      · exact hrevoked

/-- A version in force that others leave there is in force, and is gone otherwise. -/
theorem Withdraws.held (h : Withdraws s t) (hs : InForce now name hash grantId s.tables ∨
    Gone hash grantId s.tables) :
    InForce now name hash grantId t.tables ∨ Gone hash grantId t.tables := by
  cases h with
  | retired other assessments failures h =>
      subst h
      refine held_retire (hs.imp (fun hforce => ?_) fun hgone => ?_)
      · exact ⟨hforce.active, hforce.valid⟩
      · exact hgone
  | revoked id h =>
      subst h
      by_cases hid : id = grantId
      · subst hid
        rcases hs with hforce | hgone
        · obtain ⟨grant, hget, -⟩ := grantStillValid_eq.mp hforce.valid
          refine .inr (.inr ⟨{ grant with revoked := true }, ?_, rfl⟩)
          dsimp only
          rw [Table.get?_modify, if_pos rfl, hget]
          rfl
        · exact .inr (gone_modify hgone)
      · exact hs.imp (fun hforce => inForce_modify hforce hid) gone_modify

end Forces

/-! ### In the middle of an approval -/

/-- No grant was issued since, or this one. -/
structure Stands (start : Registry) (issued : Option String) (s : Registry) : Prop where
  candidates : s.tables.candidates = start.tables.candidates
  fresh : ∀ id, issued = some id → start.tables.grants.get? id = none
  grants : ∀ id, issued ≠ some id →
    (s.tables.grants.get? id = none ↔ start.tables.grants.get? id = none)

/-- No activation was written since. -/
structure Unwritten (start s : Registry) : Prop where
  activated : s.activated = start.activated
  held : ∀ now name hash grantId, InForce now name hash grantId start.tables →
    InForce now name hash grantId s.tables ∨ Gone hash grantId s.tables

/-- An activation of the name was written, under this grant. -/
structure Written (start : Registry) (name id : String) (s : Registry) : Prop where
  activated : s.activated ≠ start.activated
  row : ∃ row, s.tables.activations.get? name = some row ∧ row.grantId = id

section Middle

variable {start s t : Registry} {issued : Option String} {name id : String}

theorem Withdraws.activated (h : Withdraws s t) : t.activated = s.activated := by
  cases h with
  | retired hash assessments failures h => rw [h]
  | revoked id h => rw [h]

theorem Withdraws.grants (h : Withdraws s t) :
    t.tables.grants.get? id = none ↔ s.tables.grants.get? id = none := by
  cases h with
  | retired hash assessments failures h =>
      subst h
      rw [Tables.retire, Table.get?_update, Option.map_eq_none_iff]
  | revoked other h =>
      subst h
      dsimp only
      rw [Table.get?_modify]
      split
      · rw [Option.map_eq_none_iff]
      · rfl

theorem Withdraws.candidates (h : Withdraws s t) :
    t.tables.candidates = s.tables.candidates := by
  cases h with
  | retired hash assessments failures h => rw [h, Tables.retire]
  | revoked id h => rw [h]

theorem Stands.withdraws (h : Stands start issued s) (hstep : Withdraws s t) :
    Stands start issued t where
  candidates := hstep.candidates.trans h.candidates
  fresh := h.fresh
  grants id hissued := hstep.grants.trans (h.grants id hissued)

theorem Unwritten.withdraws (h : Unwritten start s) (hstep : Withdraws s t) :
    Unwritten start t where
  activated := hstep.activated.trans h.activated
  held now name hash grantId hforce := hstep.held (h.held now name hash grantId hforce)

theorem Written.withdraws (h : Written start name id s) (hstep : Withdraws s t) :
    Written start name id t where
  activated := hstep.activated ▸ h.activated
  row := by
    obtain ⟨row, hrow, hid⟩ := h.row
    cases hstep with
    | retired hash assessments failures h =>
        subst h
        refine ⟨if row.hash = hash then { row with active := false } else row, ?_, ?_⟩
        · rw [Tables.retire, Table.get?_update, hrow, Option.map_some]
        · split <;> exact hid
    | revoked other h =>
        subst h
        exact ⟨row, hrow, hid⟩

/-- What others leave, they leave with all that they do. -/
theorem Others.keeps {P : Registry → Prop} (hP : ∀ s t, P s → Withdraws s t → P t)
    (h : Others s t) (hs : P s) : P t := by
  induction h with
  | refl => exact hs
  | tail _ hstep ih => exact hP _ _ ih hstep

theorem Stands.refl (s : Registry) : Stands s none s where
  candidates := rfl
  fresh id h := by cases h
  grants _ _ := .rfl

theorem Unwritten.refl (s : Registry) : Unwritten s s := ⟨rfl, fun _ _ _ _ => .inl⟩

end Middle

/-! ### Steps -/

section Steps

variable {start s t : Registry} {hash name id : String} {db : Tables}

/-- A new grant leaves the versions in force and what is gone. -/
theorem held_insert {now : Int} {hash grantId : String} {grant : Grant}
    {grants : Table String Grant} (hinsert : db.grants.insert? id grant = some grants)
    (h : InForce now name hash grantId db ∨ Gone hash grantId db) :
    InForce now name hash grantId { db with grants } ∨ Gone hash grantId { db with grants } := by
  have hother {old : Grant} {other : String} (hold : db.grants.get? other = some old) :
      grants.get? other = some old := by
    rw [Table.get?_insert? hinsert, if_neg, hold]
    rintro rfl
    rw [(Table.insert?_eq_some.mp hinsert).1] at hold
    cases hold
  refine h.imp (fun hforce => ?_) fun hgone => ?_
  · obtain ⟨grant, hget, -⟩ := grantStillValid_eq.mp hforce.valid
    refine hforce.of_rows rfl ?_
    rw [hget]
    exact hother hget
  · exact hgone.of_rows rfl fun old hold hrevoked => ⟨old, hother hold, hrevoked⟩

/-- What an approval knows before it has written an activation. -/
abbrev Before (start : Registry) (issued : Option String) (s : Registry) : Prop :=
  Stands start issued s ∧ Unwritten start s

theorem Before.others {issued : Option String} (h : Before start issued s) (hs : Others s t) :
    Before start issued t :=
  hs.keeps (fun _ _ h hstep => ⟨h.1.withdraws hstep, h.2.withdraws hstep⟩) h

/-- Statements that only read leave what is known. -/
theorem Before.reads {α : Type} {issued : Option String} {p : Action α}
    (hp : Within (fun a b => b = a) p.run) (h : Before start issued s) :
    Sat Others (fun _ _ => True) (fun _ t => Before start issued t) p.run s := by
  have hreach := ((hp s).weaken (fun _ _ (_ : Others _ _) => trivial) fun _ _ => id).reach
    (R := fun a b => Before start issued a → Before start issued b) (fun _ => id)
    (fun _ _ _ h h' => h' ∘ h) (fun _ _ hs ha => ha.others hs) fun a b (hab : b = a) => hab ▸ id
  exact (hreach.weaken (fun _ _ => id) fun _ _ _ => trivial).mono fun _ _ hr => hr.1 h

/-- **The grant.** -/
theorem sat_issueGrant (scope : Scope) (h : Before start none s) :
    Sat Others (fun _ _ => True) (fun r t =>
      (∀ grant, r = .ok grant → grant.toolHash = hash ∧ Before start (some grant.grantId) t) ∧
        ∀ e, r = .error e → Before start none t) (issueGrant hash scope none).run s := by
  have hfail {t : Registry} {e : EvolutionError} (ht : Before start none t) :
      (∀ grant : ApprovalGrant, (.error e : Except EvolutionError ApprovalGrant) = .ok grant →
        grant.toolHash = hash ∧ Before start (some grant.grantId) t) ∧
      ∀ e', (.error e : Except EvolutionError ApprovalGrant) = .error e' → Before start none t :=
    ⟨nofun, fun _ _ => ht⟩
  refine sat_transaction (fun i t now u ht hrun => ⟨trivial, ?_⟩) fun i t e ht hrun =>
    ⟨trivial, hfail (h.others ht)⟩
  cases hrun
  replace h := h.others ht
  refine sat_check (fun expiresAt _ => ?_) fun e _ => hfail h
  refine sat_query (fun _ _ => trivial) (fun u found hu _ => ?_) fun u e hu _ => hfail (h.others hu)
  replace h := h.others hu
  refine sat_check (fun record _ => ?_) fun e _ => hfail h
  refine sat_check (fun _ _ => ?_) fun e _ => hfail h
  refine sat_transaction (fun i v grantId w hv hrun => ⟨trivial, ?_⟩) fun i v e hv hrun =>
    ⟨trivial, hfail (h.others hv)⟩
  replace h := h.others hv
  obtain ⟨-, -, hrun⟩ := bind_eq_ok.mp hrun
  obtain ⟨⟨grantId', db⟩, hf, hrun⟩ := bind_eq_ok.mp hrun
  obtain ⟨-, -, hf⟩ := bind_eq_ok.mp hf
  obtain ⟨grants, hinsert, hf⟩ := bind_eq_ok.mp hf
  cases hf
  cases hrun
  have hinsert := context_eq_ok.mp hinsert
  refine ⟨fun grant hr => ?_, nofun⟩
  cases hr
  refine ⟨rfl, ⟨h.1.candidates, fun id hid => ?_, fun id hid => ?_⟩, h.2.activated, ?_⟩
  · cases hid
    exact (h.1.grants _ (by simp)).mp (Table.insert?_eq_some.mp hinsert).1
  · rw [Table.get?_insert? hinsert, if_neg fun e => hid (congrArg some e.symm)]
    exact h.1.grants id (by simp)
  · exact fun now name hash grantId hforce =>
      held_insert hinsert (h.2.held now name hash grantId hforce)

/-- What an approval knows after it has tried to write an activation. -/
abbrev Attempted (start : Registry) (name id : String) (r : Except EvolutionError Unit)
    (t : Registry) : Prop :=
  Stands start (some id) t ∧ (r = .ok () → Written start name id t) ∧
    ∀ e, r = .error e → Unwritten start t

/-- The version that is approved has the name, if there is it. -/
abbrev Named (hash name : String) (db : Tables) : Prop :=
  ∀ row, db.candidates.get? hash = some row → row.definition.name = name

/-- **The activation.** -/
theorem sat_activateGrant {grant : ApprovalGrant} (hname : Named grant.toolHash name start.tables)
    (h : Before start (some grant.grantId) s) :
    Sat Others (fun _ _ => True) (Attempted start name grant.grantId)
      (activateGrant grant).run s := by
  have hfail {t : Registry} {e : EvolutionError} (ht : Before start (some grant.grantId) t) :
      Attempted start name grant.grantId (.error e) t :=
    ⟨ht.1, nofun, fun _ _ => ht.2⟩
  refine sat_query (fun _ _ => trivial) (fun t found ht hfound => ?_) fun t e ht _ =>
    hfail (h.others ht)
  replace h := h.others ht
  refine sat_check (fun record hrecord => ?_) fun e _ => hfail h
  have hrecord : record.definition.name = name := by
    cases hfound
    obtain ⟨row, hrow, rfl⟩ := Option.map_eq_some_iff.mp (context_eq_ok.mp hrecord)
    exact hname row (h.1.candidates ▸ hrow)
  refine sat_query (fun _ _ => trivial) (fun t row ht _ => ?_) fun t e ht _ => hfail (h.others ht)
  replace h := h.others ht
  refine sat_check (fun row _ => ?_) fun e _ => hfail h
  refine sat_transaction (fun i t now u ht hrun => ⟨trivial, ?_⟩) fun i t e ht hrun =>
    ⟨trivial, hfail (h.others ht)⟩
  cases hrun
  replace h := h.others ht
  refine sat_check (fun _ _ => ?_) fun e _ => hfail h
  have hreads : Within (fun a b => b = a) (ensureCandidateEligible row.hash).run :=
    within_bind (within_query fun _ => rfl) fun _ => within_check fun _ =>
      within_bind (within_query fun _ => rfl) fun _ => within_check fun _ => within_pure
  refine Sat.bind (h.reads hreads) fun r t h => ?_
  cases r with
  | error e => exact hfail h
  | ok checked =>
      refine sat_transaction_last (fun i u _ v hu hrun => ⟨trivial, ?_⟩) fun i u e hu _ =>
        ⟨trivial, hfail (h.others hu)⟩
      replace h := h.others hu
      obtain ⟨-, -, hrun⟩ := bind_eq_ok.mp hrun
      obtain ⟨-, -, hrun⟩ := bind_eq_ok.mp hrun
      obtain ⟨-, -, hrun⟩ := bind_eq_ok.mp hrun
      cases hrun
      refine ⟨⟨h.1.candidates, h.1.fresh, h.1.grants⟩, fun _ => ⟨?_, ?_⟩, nofun⟩
      · rw [← h.2.activated]
        simp
      · refine ⟨⟨row.hash, grant.grantId, true⟩, ?_, rfl⟩
        dsimp only
        rw [hrecord, Table.get?_upsert, if_pos rfl]

theorem sat_rollbackGrant {grant : ApprovalGrant} (wanted : String)
    (hname : Named grant.toolHash name start.tables)
    (h : Before start (some grant.grantId) s) :
    Sat Others (fun _ _ => True) (Attempted start name grant.grantId)
      (rollbackGrant wanted grant).run s := by
  have hfail {t : Registry} {e : EvolutionError} (ht : Before start (some grant.grantId) t) :
      Attempted start name grant.grantId (.error e) t :=
    ⟨ht.1, nofun, fun _ _ => ht.2⟩
  refine sat_query (fun _ _ => trivial) (fun t found ht hfound => ?_) fun t e ht _ =>
    hfail (h.others ht)
  replace h := h.others ht
  refine sat_check (fun record _ => ?_) fun e _ => hfail h
  refine sat_check (fun _ _ => ?_) fun e _ => hfail h
  exact sat_activateGrant hname h

/-- What an approval knows when it is to be undone. -/
abbrev Undoing (start : Registry) (name id : String) (s : Registry) : Prop :=
  Stands start (some id) s ∧ (Unwritten start s ∨ Written start name id s)

theorem Undoing.others (h : Undoing start name id s) (hs : Others s t) :
    Undoing start name id t :=
  hs.keeps (fun _ _ h hstep => ⟨h.1.withdraws hstep,
    h.2.imp (fun h => h.withdraws hstep) fun h => h.withdraws hstep⟩) h

/-- **The revocation.** -/
theorem sat_revoke (h : Undoing start name id s) :
    Sat Others (fun _ _ => True) (fun r t => Undoing start name id t ∧
      (r = .ok () → ∀ grant, t.tables.grants.get? id = some grant → grant.revoked = true))
      (Evolution.revoke id).run s := by
  refine sat_transaction_last (fun i t _ u ht hrun => ⟨trivial, ?_⟩) fun i t e ht _ =>
    ⟨trivial, h.others ht, nofun⟩
  replace h := h.others ht
  obtain ⟨-, -, hrun⟩ := bind_eq_ok.mp hrun
  obtain ⟨⟨_, db⟩, hf, hrun⟩ := bind_eq_ok.mp hrun
  obtain ⟨-, -, hf⟩ := bind_eq_ok.mp hf
  cases hf
  cases hrun
  obtain ⟨hstands, hwritten⟩ := h
  refine ⟨⟨⟨hstands.candidates, hstands.fresh, fun other hother => ?_⟩, ?_⟩, fun _ grant hget => ?_⟩
  · dsimp only
    rw [Table.get?_modify, if_neg fun e => hother (congrArg some e.symm)]
    exact hstands.grants other hother
  · refine hwritten.imp (fun h => ⟨h.activated, ?_⟩) fun h => ⟨h.activated, h.row⟩
    intro now name hash grantId hforce
    have hne : id ≠ grantId := by
      rintro rfl
      obtain ⟨grant, hget, -⟩ := grantStillValid_eq.mp hforce.valid
      rw [hstands.fresh _ rfl] at hget
      cases hget
    exact (h.held now name hash grantId hforce).imp (fun h => inForce_modify h hne) gone_modify
  · dsimp only at hget
    rw [Table.get?_modify, if_pos rfl] at hget
    obtain ⟨old, -, rfl⟩ := Option.map_eq_some_iff.mp hget
    rfl

end Steps

/-! ### Approvals -/

/-- No grant that was issued since is in force. -/
def NoneLeft (s t : Bench) : Prop :=
  ∀ id grant, s.tables.grants.get? id = none → t.tables.grants.get? id = some grant →
    grant.revoked = true

/-- What is known at an error. -/
structure Fails (name : String) (start s : Bench) : Prop where
  written : Unwritten start.registry s.registry ∨ ∃ id, start.tables.grants.get? id = none ∧
    Written start.registry name id s.registry
  left : NoneLeft start s ↔ s.unrevoked = start.unrevoked

section Approvals

variable {α : Type} {start s t : Bench} {hash name : String}
  {activate : ApprovalGrant → Action Unit}

/-- What is known of the registry's work, among others. -/
theorem sat_lifted {post : Except EvolutionError α → Registry → Prop} {p : Action α}
    (h : Sat Others (fun _ _ => True) post p.run s.registry) :
    Sat Meanwhile (fun _ _ => True)
      (fun r t => t.unrevoked = s.unrevoked ∧ post r t.registry) (registry p).run s := by
  have hlifted : Sat Meanwhile (fun a b => b.unrevoked = a.unrevoked)
      (fun r t => post r t.registry) (registry p).run s :=
    sat_registry (fun _ _ hab => hab.registry) (fun _ _ _ => rfl) h
  have hreach := hlifted.reach (R := fun a b : Bench => b.unrevoked = a.unrevoked) (fun _ => rfl)
    (fun _ _ _ h h' => h'.trans h) (fun a b (hab : Meanwhile a b) => by rw [hab.rest])
    fun _ _ => id
  exact hreach.weaken (fun _ _ => id) fun _ _ _ => trivial

/-- What is known before the statements of a program that only reads. -/
theorem Reads.keeps {I : Bench → Prop} (hI : ∀ a b, Meanwhile a b → I a → I b) {p : Deed α}
    (hp : Reads p) (h : I s) : Sat Meanwhile (fun _ _ => True) (fun _ t => I t) p.run s := by
  have hreach := ((hp s).weaken (fun _ _ (_ : Meanwhile _ _) => trivial) fun _ _ => id).reach
    (R := fun a b => I a → I b) (fun _ => id) (fun _ _ _ h h' => h' ∘ h) hI
    fun a b (hab : b = a) => hab ▸ id
  exact (hreach.weaken (fun _ _ => id) fun _ _ _ => trivial).mono fun _ _ hr => hr.1 h

/-- The same on the whole, before a grant is issued. -/
abbrev Begins (start s : Bench) : Prop :=
  Before start.registry none s.registry ∧ s.unrevoked = start.unrevoked

theorem Begins.fails (h : Begins start s) : Fails name start s where
  written := .inl h.1.2
  left := by
    refine ⟨fun _ => h.2, fun _ id grant hnone hget => ?_⟩
    rw [(h.1.1.grants id (by simp)).mpr hnone] at hget
    cases hget

theorem Begins.meanwhile (hs : Meanwhile s t) (h : Begins start s) : Begins start t :=
  ⟨h.1.others hs.registry, by rw [hs.rest]; exact h.2⟩

/-- The same on the whole, when a grant is to be undone. -/
abbrev Undone (name id : String) (start s : Bench) : Prop :=
  Undoing start.registry name id s.registry ∧ s.unrevoked = start.unrevoked

theorem Undone.meanwhile {id : String} (hs : Meanwhile s t) (h : Undone name id start s) :
    Undone name id start t :=
  ⟨h.1.others hs.registry, by rw [hs.rest]; exact h.2⟩

theorem Undoing.written {id : String} (h : Undoing start.registry name id s.registry) :
    Unwritten start.registry s.registry ∨ ∃ id, start.tables.grants.get? id = none ∧
      Written start.registry name id s.registry :=
  h.2.imp_right fun hwritten => ⟨id, h.1.fresh id rfl, hwritten⟩

/-- Only the grant that was issued is a new one. -/
theorem Undoing.noneLeft {id : String} (h : Undoing start.registry name id s.registry) :
    NoneLeft start s ↔ ∀ grant, s.tables.grants.get? id = some grant → grant.revoked = true := by
  refine ⟨fun hleft grant => hleft id grant (h.1.fresh id rfl), ?_⟩
  intro hrevoked other grant hnone hget
  by_cases hid : id = other
  · subst hid
    exact hrevoked grant hget
  · rw [(h.1.grants other fun e => hid (Option.some.inj e)).mpr hnone] at hget
    cases hget

theorem sat_revokeIssued {id : String} (h : Undone name id start s) :
    Sat Meanwhile (fun _ _ => True) (fun _ t => Fails name start t) (revokeIssued id).run s := by
  refine sat_rescue ((sat_lifted (sat_revoke h.1)).mono fun r t hr => ⟨?_, ?_⟩)
  · rintro _ rfl
    obtain ⟨hsame, hundoing, hrevoked⟩ := hr
    refine ⟨hundoing.written, ?_⟩
    rw [hundoing.noneLeft]
    exact ⟨fun _ => hsame.trans h.2, fun _ => hrevoked rfl⟩
  · rintro e rfl
    obtain ⟨hsame, hundoing, -⟩ := hr
    refine sat_transaction (fun i u _ v hu hrun => ⟨trivial, ?_⟩) fun i u e' hu hrun => ?_
    case refine_2 => cases hrun
    cases hrun
    have h : Undone name id start u := Undone.meanwhile hu ⟨hundoing, hsame.trans h.2⟩
    change Fails name start _
    split
    case isTrue hforce =>
      obtain ⟨grant, hget, hrevoked⟩ := Option.any_eq_true _ _ |>.mp hforce
      refine ⟨h.1.written, ⟨fun hleft => ?_, fun hsame => ?_⟩⟩
      · rw [hleft id grant (h.1.1.fresh id rfl) hget] at hrevoked
        cases hrevoked
      · change u.unrevoked ++ [id] = start.unrevoked at hsame
        rw [h.2] at hsame
        simp at hsame
    case isFalse hforce =>
      refine ⟨h.1.written, ?_⟩
      rw [h.1.noneLeft]
      refine ⟨fun _ => h.2, fun _ grant hget => ?_⟩
      rw [hget, Option.any_some, Bool.not_eq_true, Bool.not_eq_false'] at hforce
      exact hforce

/-- **An approval that fails.** -/
theorem sat_grantExact {scope : Scope} (hname : Named hash name start.tables)
    (hactivate : ∀ (grant : ApprovalGrant) (s : Registry), grant.toolHash = hash →
      Before start.registry (some grant.grantId) s →
      Sat Others (fun _ _ => True) (Attempted start.registry name grant.grantId)
        (activate grant).run s) :
    Sat Meanwhile (fun _ _ => True) (fun r t => ∀ e, r = .error e → Fails name start t)
      (grantExact activate hash scope).run start := by
  have hbegins : Begins start start := ⟨⟨.refl _, .refl _⟩, rfl⟩
  have hreads : ∀ s t, Meanwhile s t → Begins start s → Begins start t :=
    fun _ _ hs h => h.meanwhile hs
  refine Sat.bind (reads_validateCandidateSources.keeps hreads hbegins) fun r s h => ?_
  cases r with
  | error e => exact fun _ _ => h.fails
  | ok _ =>
  refine Sat.bind (reads_requireComparisons.keeps hreads h) fun r s h => ?_
  cases r with
  | error e => exact fun _ _ => h.fails
  | ok _ =>
  refine Sat.bind (sat_lifted (sat_issueGrant scope h.1)) fun r t hr => ?_
  cases r with
  | error e => exact fun _ _ => Begins.fails ⟨hr.2.2 e rfl, hr.1.trans h.2⟩
  | ok grant =>
  obtain ⟨hhash, hbefore⟩ := hr.2.1 grant rfl
  have hsame := hr.1.trans h.2
  have hundo (e : EvolutionError) {u : Bench} (h : Undone name grant.grantId start u) :
      Sat Meanwhile (fun _ _ => True) (fun r t => ∀ e, r = .error e → Fails name start t)
        (do
          revokeIssued grant.grantId
          throw e : Deed Unit).run u := by
    refine Sat.bind (sat_revokeIssued h) fun r t hr => ?_
    cases r <;> exact fun _ _ => hr
  have hattempt : Sat Meanwhile (fun _ _ => True)
      (fun r t => ∀ e, r = .error e → Undone name grant.grantId start t)
      (do
        registry (activate grant)
        validateCandidateSources hash : Deed Unit).run t := by
    refine Sat.bind (sat_lifted (hactivate grant t.registry hhash hbefore)) fun r u hr => ?_
    obtain ⟨hkept, hstands, hwritten, hunwritten⟩ := hr
    cases r with
    | error e => exact fun _ _ => ⟨⟨hstands, .inl (hunwritten e rfl)⟩, hkept.trans hsame⟩
    | ok _ =>
        have h : Undone name grant.grantId start u :=
          ⟨⟨hstands, .inr (hwritten rfl)⟩, hkept.trans hsame⟩
        exact (reads_validateCandidateSources.keeps (fun _ _ hs h => Undone.meanwhile hs h) h).mono
          fun _ _ h _ _ => h
  have hrescued : Sat Meanwhile (fun _ _ => True)
      (fun r t => ∀ e, r = .error e → Fails name start t)
      (rescue
        (do
          registry (activate grant)
          validateCandidateSources hash)
        fun error => do
          revokeIssued grant.grantId
          throw error : Deed Unit).run t :=
    sat_rescue (hattempt.mono fun r u hr => ⟨fun _ _ => nofun, fun e he => hundo e (hr e he)⟩)
  refine Sat.bind hrescued fun r u hr => ?_
  cases r with
  | error e => exact fun _ _ => hr e rfl
  | ok _ => exact nofun

/-! ### Calls -/

inductive Approval where
  | approveExact
  | rollbackExact (name : String)

def Approval.deed (hash : String) (scope : Scope) : Approval → Deed String
  | approveExact => Workshop.approveExact hash scope
  | rollbackExact name => Workshop.rollbackExact name hash scope

/-- The version that was in force is in force, or was withdrawn in the meantime. -/
def Upheld (now : Int) (name : String) (s t : Bench) : Prop :=
  ∀ hash grantId, InForce now name hash grantId s.tables →
    InForce now name hash grantId t.tables ∨ Gone hash grantId t.tables

theorem Fails.upheld_iff (h : Fails name s t) (now : Int) : Upheld now name s t ↔
    t.registry.activated = s.registry.activated ∨
      ∀ hash grantId, InForce now name hash grantId s.tables → Gone hash grantId t.tables := by
  rcases h.written with hunwritten | ⟨id, hnone, hwritten⟩
  · refine ⟨fun _ => .inl hunwritten.activated, fun _ hash grantId hforce => ?_⟩
    exact hunwritten.held now name hash grantId hforce
  · constructor
    · intro hupheld
      refine .inr fun hash grantId hforce => ?_
      refine (hupheld hash grantId hforce).resolve_left fun hstill => ?_
      -- the row is under the new grant
      obtain ⟨row, hrow, hid⟩ := hwritten.row
      obtain ⟨grant, hget, -⟩ := grantStillValid_eq.mp hforce.valid
      have hactive := activeToolGrant_eq.mp hstill.active
      rw [hrow] at hactive
      cases hactive
      change grantId = id at hid
      rw [hid, hnone] at hget
      cases hget
    · rintro (hsame | hgone) hash grantId hforce
      · exact absurd hsame hwritten.activated
      · exact .inr (hgone hash grantId hforce)

end Approvals

/-! ### A correction during an approval -/

/-- The memory store in which the source of the second version has this state. -/
def sourced (state : Except String Unit) : Given where
  chance := { now := 5, uuid := "00000000-0000-4000-8000-000000000002" }
  memory := some {
    handoffs := some [("proposal", some secondHash)]
    proposal _ := state }

def corrected : Given :=
  sourced (.error "invalid memory record: guidance source is no longer active")

/-- The first version is in force and the second is submitted. -/
def offered : Bench :=
  let bench := (perform exampleTools submitSecond begun.2).2
  { bench with registry := { bench.registry with activated := [] } }

def firstGrant : String := "grant-00000000-0000-4000-8000-000000000001"

def unavailable : EvolutionError :=
  .notEligible "invalid memory record: guidance source is no longer active"

def refusal (inputs : List Given) (bench : Bench) : Option (Except EvolutionError String) × Bench :=
  (approveExact secondHash exampleScope).run.play inputs bench

theorem executes_refusal {inputs : List Given} {s : Bench} {e : EvolutionError}
    (h : (refusal inputs s).1 = some (.error e)) :
    Executes Meanwhile (Approval.approveExact.deed secondHash exampleScope).run s (.error e)
      (refusal inputs s).2 :=
  executes_of_play (fun _ => ⟨.refl, rfl⟩) h

end Pikamux.Workshop
