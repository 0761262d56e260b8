import Mathlib.Data.List.Nodup
import Pikamux.Support.History

/-!
# Tmux — Companion

Callbacks that open the companion of a pane.  A run sets an opening lease on the pane, looks for a
companion, splits one off if there is none, and clears the lease.  The lease is a time without an
owner, and clearing it is not fenced.

* `Exclusive` — a run that works has its lease set, and no other works.
* `one_companion` — as long as no lease expires before its run clears it, that holds in every run,
  and a generation of the pane has one companion.
* `two_companions` — it is not enough that none expires before its run has searched and split.
-/

namespace Pikamux.Tmux.Companion

open Support

/-- A pane of the window, with its tags and whether it is dead. -/
structure Pane where
  id : Nat
  source : Bool := false
  generation : Option String := none
  dead : Bool := false
  deriving DecidableEq, Repr

def Pane.tagSource (pane : Pane) : Pane := { pane with source := true }

def Pane.tagGeneration (grant : String) (pane : Pane) : Pane :=
  { pane with generation := some grant }

/-- A tag is set on a pane. -/
def tagged (id : Nat) (tag : Pane → Pane) (panes : List Pane) : List Pane :=
  panes.map fun pane => if pane.id = id then tag pane else pane

/-- The companion of a generation of the origin. -/
def Pane.companion (grant : String) (pane : Pane) : Bool :=
  pane.source && pane.generation == some grant && ! pane.dead

/-- What a run reads before it asks for the lease. -/
structure Job where
  grant : String
  close : Bool

/-- How far a run is that was given the lease. -/
inductive Stage where
  | acquired
  | existing (pane : Nat)
  | missing
  | split (pane : Nat)
  | sourced (pane : Nat)
  | finished
  deriving DecidableEq, Repr

inductive Phase where
  | idle
  | asked (now : Nat)
  | working (lease : Nat) (stage : Stage)
  | done
  deriving DecidableEq, Repr

/-- The lease on the origin, the panes of its window, and the runs. -/
structure System (ρ : Type) where
  opening : Option Nat := none
  panes : List Pane := []
  next : Nat := 0
  phase : ρ → Phase := fun _ => .idle

inductive Move where
  | start (now : Nat)
  | refuse
  | acquire (granted : Bool)
  | find
  | act
  | split (granted : Bool)
  | source
  | generation
  | fail
  | release
  deriving DecidableEq, Repr

section Runs

variable {ρ : Type} [DecidableEq ρ] (job : ρ → Job)

/-- Whether a lease is over at a time; tmux compares the texts. -/
def expired (lease now : Nat) : Bool := decide (toString lease ≤ toString now)

def System.go (system : System ρ) (run : ρ) (phase : Phase) : System ρ :=
  { system with phase := Function.update system.phase run phase }

def System.findCompanion (system : System ρ) (grant : String) : Option Nat :=
  (system.panes.find? (Pane.companion grant)).map Pane.id

/-- A command of a run that was given the lease. -/
def work (run : ρ) (lease : Nat) (system : System ρ) : Stage → Move → System ρ
  | .acquired, .find =>
      system.go run (.working lease
        (match system.findCompanion (job run).grant with
          | some pane => .existing pane
          | none => if (job run).close then .finished else .missing))
  | .existing pane, .act =>
      { system with
        panes := if (job run).close then system.panes.filter (·.id ≠ pane) else system.panes }.go
          run (.working lease .finished)
  | .missing, .split granted =>
      if granted then
        { system with
          panes := system.panes ++ [Pane.mk system.next false none false]
          next := system.next + 1 }.go run (.working lease (.split system.next))
      else system.go run (.working lease .finished)
  | .split pane, .source =>
      { system with panes := tagged pane Pane.tagSource system.panes }.go run
        (.working lease (.sourced pane))
  | .sourced pane, .generation =>
      { system with panes := tagged pane (Pane.tagGeneration (job run).grant) system.panes }.go run
        (.working lease .finished)
  | .finished, .release => { system with opening := none }.go run .done
  | .finished, _ => system
  | _, .fail => system.go run (.working lease .finished)
  | _, _ => system

/-- A step of a run.  One that does not come next changes nothing. -/
def step (call : ρ × Move) (system : System ρ) : System ρ :=
  let run := call.1
  match system.phase run, call.2 with
  | .idle, .start now => system.go run (.asked now)
  | .idle, .refuse => system.go run .done
  | .asked now, .acquire granted =>
      if granted ∧ system.opening.all (expired · now) then
        { system with opening := some (now + 15) }.go run (.working (now + 15) .acquired)
      else system.go run .done
  | .working lease stage, move => work job run lease system stage move
  | _, _ => system

def perform (call : ρ × Move) (system : System ρ) : Unit × System ρ := ((), step job call system)

/-- Panes are closed, or their processes end. -/
def Closes (system system' : System ρ) : Prop :=
  ∃ gone dies : Nat → Bool, system' = { system with
    panes := (system.panes.filter fun p => ! gone p.id).map fun p =>
      { p with dead := p.dead || dies p.id } }

/-- When a run asks for the lease, that of no run at one of these stages is over. -/
def TimelyFor (counts : Stage → Bool) (call : ρ × Move) (system : System ρ) : Prop :=
  ∀ now, system.phase call.1 = .asked now → call.2 = .acquire true → ∀ other lease stage,
    system.phase other = .working lease stage → counts stage = true → expired lease now = false

/-- No lease is over before its run clears it. -/
def Timely (call : ρ × Move) (system : System ρ) : Prop := TimelyFor (fun _ => true) call system

/-- No lease is over before its run has searched and split. -/
def TimelySearch (call : ρ × Move) (system : System ρ) : Prop :=
  TimelyFor (fun stage => stage != .finished) call system

/-! ### What holds -/

variable {job} {run other : ρ} {system : System ρ} {panes : List Pane} {grant : String}
  {lease : Nat} {stage stage' : Stage}

/-- No pane is a companion. -/
def NoCompanion (grant : String) (panes : List Pane) : Prop :=
  ∀ p ∈ panes, p.companion grant = false

/-- What a run at a stage relies on. -/
def Stands (grant : String) (panes : List Pane) : Stage → Prop
  | .missing => NoCompanion grant panes
  | .split pane | .sourced pane =>
      NoCompanion grant panes ∧ ∀ p ∈ panes, p.id = pane → p.generation = none
  | _ => True

structure Sound (job : ρ → Job) (system : System ρ) : Prop where
  lease : ∀ run lease stage, system.phase run = .working lease stage →
    system.opening = some lease
  one : ∀ run lease stage other lease' stage', system.phase run = .working lease stage →
    system.phase other = .working lease' stage' → run = other
  ids : (system.panes.map Pane.id).Nodup
  below : ∀ p ∈ system.panes, p.id < system.next
  single : ∀ grant, ∀ p ∈ system.panes, ∀ q ∈ system.panes, p.companion grant = true →
    q.companion grant = true → p.id = q.id
  stands : ∀ run lease stage, system.phase run = .working lease stage →
    Stands (job run).grant system.panes stage

theorem go_self (phase : Phase) : (system.go run phase).phase run = phase := Function.update_self ..

theorem go_other (phase : Phase) (h : other ≠ run) :
    (system.go run phase).phase other = system.phase other := Function.update_of_ne h ..

/-- A run that is at no stage, and will be at none. -/
theorem Sound.rest {phase : Phase} (h : Sound job system)
    (hphase : ∀ lease stage, phase ≠ .working lease stage) : Sound job (system.go run phase) := by
  have hworking : ∀ other lease stage, (system.go run phase).phase other = .working lease stage →
      system.phase other = .working lease stage := by
    intro other lease stage hother
    by_cases hsame : other = run
    · rw [hsame, go_self] at hother
      exact absurd hother (hphase lease stage)
    · rwa [go_other phase hsame] at hother
  exact ⟨fun other lease stage hother =>
      h.lease other lease stage (hworking other lease stage hother),
    fun run lease stage other lease' stage' hrun hother =>
      h.one run lease stage other lease' stage' (hworking _ _ _ hrun) (hworking _ _ _ hother),
    h.ids, h.below, h.single,
    fun other lease stage hother => h.stands other lease stage (hworking other lease stage hother)⟩

/-- The run that works goes on. -/
theorem Sound.work {next : Nat} (h : Sound job system)
    (hrun : system.phase run = .working lease stage) (hids : (panes.map Pane.id).Nodup)
    (hbelow : ∀ p ∈ panes, p.id < next)
    (hsingle : ∀ grant, ∀ p ∈ panes, ∀ q ∈ panes, p.companion grant = true →
      q.companion grant = true → p.id = q.id)
    (hstands : Stands (job run).grant panes stage') :
    Sound job ({ system with panes, next }.go run (.working lease stage')) := by
  have hworking : ∀ other lease' stage'',
      ({ system with panes, next }.go run (.working lease stage')).phase other =
        .working lease' stage'' → other = run ∧ lease' = lease ∧ stage'' = stage' := by
    intro other lease' stage'' hother
    by_cases hsame : other = run
    · rw [hsame, go_self] at hother
      cases hother
      exact ⟨hsame, rfl, rfl⟩
    · rw [go_other _ hsame] at hother
      exact absurd (h.one _ _ _ _ _ _ hother hrun) hsame
  refine ⟨fun other lease' stage'' hother => ?_, fun run _ _ other _ _ hrun hother => ?_, hids,
    hbelow, hsingle, fun other lease' stage'' hother => ?_⟩
  · obtain ⟨-, rfl, -⟩ := hworking other lease' stage'' hother
    exact h.lease run _ _ hrun
  · rw [(hworking _ _ _ hrun).1, (hworking _ _ _ hother).1]
  · obtain ⟨rfl, -, rfl⟩ := hworking other lease' stage'' hother
    exact hstands

/-! ### The panes -/

theorem findCompanion_eq_none (h : system.findCompanion grant = none) :
    NoCompanion grant system.panes := by
  rw [System.findCompanion, Option.map_eq_none_iff, List.find?_eq_none] at h
  intro p hp
  exact Bool.eq_false_iff.mpr (h p hp)

/-- A tag leaves the other panes, and the number of the tagged one. -/
theorem mem_tagged {id : Nat} {tag : Pane → Pane} {p : Pane} (htag : ∀ p, (tag p).id = p.id)
    (h : p ∈ tagged id tag panes) :
    ∃ q ∈ panes, p.id = q.id ∧ (q.id = id ∧ p = tag q ∨ q.id ≠ id ∧ p = q) := by
  obtain ⟨q, hq, rfl⟩ := List.mem_map.mp h
  refine ⟨q, hq, ?_⟩
  by_cases hid : q.id = id
  · rw [if_pos hid]
    exact ⟨htag q, .inl ⟨hid, rfl⟩⟩
  · rw [if_neg hid]
    exact ⟨rfl, .inr ⟨hid, rfl⟩⟩

theorem tagged_ids {id : Nat} {tag : Pane → Pane} (htag : ∀ p, (tag p).id = p.id) :
    (tagged id tag panes).map Pane.id = panes.map Pane.id := by
  rw [tagged, List.map_map]
  refine List.map_congr_left fun p _ => ?_
  simp only [Function.comp_apply]
  by_cases hid : p.id = id
  · rw [if_pos hid, htag]
  · rw [if_neg hid]

theorem tagSource_id (p : Pane) : p.tagSource.id = p.id := rfl

theorem tagGeneration_id (grant : String) (p : Pane) : (p.tagGeneration grant).id = p.id := rfl

theorem not_companion {p : Pane} (h : p.generation = none) : p.companion grant = false := by
  simp [Pane.companion, h]

/-- The first tag makes no companion. -/
theorem companion_tagSource {id : Nat} {p : Pane}
    (hnone : ∀ p ∈ panes, p.id = id → p.generation = none)
    (h : p ∈ tagged id Pane.tagSource panes) (hp : p.companion grant = true) : p ∈ panes := by
  obtain ⟨q, hq, -, ⟨hid, rfl⟩ | ⟨-, rfl⟩⟩ := mem_tagged tagSource_id h
  · have hnot : q.tagSource.companion grant = false := not_companion (hnone q hq hid)
    rw [hnot] at hp
    cases hp
  · exact hq

/-- The second tag makes a companion of one generation. -/
theorem companion_tagGeneration {id : Nat} {other : String} {p : Pane}
    (h : p ∈ tagged id (Pane.tagGeneration grant) panes) (hp : p.companion other = true) :
    p.id = id ∧ other = grant ∨ p ∈ panes := by
  obtain ⟨q, hq, hsame, ⟨hid, rfl⟩ | ⟨-, rfl⟩⟩ := mem_tagged (tagGeneration_id grant) h
  · refine .inl ⟨hsame.trans hid, ?_⟩
    simp only [Pane.companion, Pane.tagGeneration, Bool.and_eq_true, beq_iff_eq,
      Option.some.injEq] at hp
    exact hp.1.2.symm
  · exact .inr hq

/-! ### Steps -/

theorem Sound.worked (h : Sound job system) (hrun : system.phase run = .working lease stage)
    (move : Move) : Sound job (Companion.work job run lease system stage move) := by
  have hstands := h.stands run lease stage hrun
  -- a failure ends the work of any stage
  have hfail : Sound job (system.go run (.working lease .finished)) :=
    h.work hrun h.ids h.below h.single trivial
  cases stage with
  | acquired =>
      cases move with
      | find =>
          refine h.work hrun h.ids h.below h.single ?_
          cases hfind : system.findCompanion (job run).grant with
          | some pane => exact trivial
          | none =>
              simp only
              by_cases hclose : (job run).close = true
              · rw [if_pos hclose]
                exact trivial
              · rw [if_neg hclose]
                exact findCompanion_eq_none hfind
      | fail => exact hfail
      | _ => exact h
  | existing pane =>
      cases move with
      | act =>
          have hsub : ∀ p ∈ (if (job run).close then system.panes.filter (·.id ≠ pane)
              else system.panes), p ∈ system.panes := by
            intro p hp
            by_cases hclose : (job run).close = true
            · rw [if_pos hclose] at hp
              exact (List.mem_filter.mp hp).1
            · rwa [if_neg hclose] at hp
          refine h.work hrun ?_ (fun p hp => h.below p (hsub p hp))
            (fun grant p hp q hq => h.single grant p (hsub p hp) q (hsub q hq)) trivial
          by_cases hclose : (job run).close = true
          · rw [if_pos hclose]
            exact (List.filter_sublist.map Pane.id).nodup h.ids
          · rw [if_neg hclose]
            exact h.ids
      | fail => exact hfail
      | _ => exact h
  | missing =>
      cases move with
      | split granted =>
          rw [Companion.work]
          by_cases hgranted : granted = true
          · rw [if_pos hgranted]
            have hnew : ∀ p ∈ system.panes ++ [Pane.mk system.next false none false],
                ∀ grant, p.companion grant = true → p ∈ system.panes := by
              intro p hp grant hcompanion
              rcases List.mem_append.mp hp with hp | hp
              · exact hp
              · rw [List.mem_singleton.mp hp, not_companion rfl] at hcompanion
                cases hcompanion
            refine h.work hrun ?_ (fun p hp => ?_) (fun grant p hp q hq hp' hq' =>
              h.single grant p (hnew p hp grant hp') q (hnew q hq grant hq') hp' hq')
              ⟨fun p hp => ?_, fun p hp hid => ?_⟩
            · rw [List.map_append, List.nodup_append]
              refine ⟨h.ids, by simp, fun a ha b hb hab => ?_⟩
              obtain ⟨p, hp, rfl⟩ := List.mem_map.mp ha
              rw [List.mem_singleton.mp hb] at hab
              exact absurd hab (Nat.ne_of_lt (h.below p hp))
            · rcases List.mem_append.mp hp with hp | hp
              · exact Nat.lt_succ_of_lt (h.below p hp)
              · rw [List.mem_singleton.mp hp]
                exact Nat.lt_succ_self _
            · rcases List.mem_append.mp hp with hp | hp
              · exact hstands p hp
              · rw [List.mem_singleton.mp hp]
                exact not_companion rfl
            · rcases List.mem_append.mp hp with hp | hp
              · exact absurd hid (Nat.ne_of_lt (h.below p hp))
              · rw [List.mem_singleton.mp hp]
          · rw [if_neg hgranted]
            exact hfail
      | fail => exact hfail
      | _ => exact h
  | split pane =>
      cases move with
      | source =>
          obtain ⟨hno, hnone⟩ := hstands
          refine h.work hrun ?_ (fun p hp => ?_) (fun grant p hp q hq hp' hq' =>
            h.single grant p (companion_tagSource hnone hp hp') q
              (companion_tagSource hnone hq hq') hp' hq') ⟨fun p hp => ?_, fun p hp hid => ?_⟩
          · rw [tagged_ids tagSource_id]
            exact h.ids
          · obtain ⟨q, hq, hid, -⟩ := mem_tagged tagSource_id hp
            rw [hid]
            exact h.below q hq
          · by_contra hcompanion
            rw [Bool.not_eq_false] at hcompanion
            rw [hno p (companion_tagSource hnone hp hcompanion)] at hcompanion
            cases hcompanion
          · obtain ⟨q, hq, hsame, ⟨hpane, rfl⟩ | ⟨-, rfl⟩⟩ := mem_tagged tagSource_id hp
            · exact hnone q hq hpane
            · exact hnone p hq hid
      | fail => exact hfail
      | _ => exact h
  | sourced pane =>
      cases move with
      | generation =>
          obtain ⟨hno, hnone⟩ := hstands
          refine h.work hrun ?_ (fun p hp => ?_) (fun grant p hp q hq hp' hq' => ?_) trivial
          · rw [tagged_ids (tagGeneration_id _)]
            exact h.ids
          · obtain ⟨q, hq, hid, -⟩ := mem_tagged (tagGeneration_id _) hp
            rw [hid]
            exact h.below q hq
          · rcases companion_tagGeneration hp hp' with ⟨hid, hgrant⟩ | hold
            · rcases companion_tagGeneration hq hq' with ⟨hid', -⟩ | hold'
              · rw [hid, hid']
              · -- before it, the generation had no companion
                rw [hgrant, hno q hold'] at hq'
                cases hq'
            · rcases companion_tagGeneration hq hq' with ⟨-, hgrant⟩ | hold'
              · rw [hgrant, hno p hold] at hp'
                cases hp'
              · exact h.single grant p hold q hold' hp' hq'
      | fail => exact hfail
      | _ => exact h
  | finished =>
      cases move with
      | release =>
          have hothers : ∀ other lease' stage',
              ({ system with opening := none }.go run .done).phase other ≠
                .working lease' stage' := by
            intro other lease' stage' hother
            by_cases hsame : other = run
            · rw [hsame, go_self] at hother
              cases hother
            · rw [go_other _ hsame] at hother
              exact hsame (h.one _ _ _ _ _ _ hother hrun)
          exact ⟨fun other _ _ hother => absurd hother (hothers other _ _),
            fun other _ _ _ _ _ hother => absurd hother (hothers other _ _), h.ids, h.below,
            h.single, fun other _ _ hother => absurd hother (hothers other _ _)⟩
      | _ => exact h

theorem Sound.acquire {now : Nat} (h : Sound job system)
    (hnone : ∀ other lease stage, system.phase other ≠ .working lease stage) :
    Sound job
      ({ system with opening := some (now + 15) }.go run (.working (now + 15) .acquired)) := by
  have hworking : ∀ other lease stage,
      ({ system with opening := some (now + 15) }.go run (.working (now + 15) .acquired)).phase
        other = .working lease stage → other = run ∧ lease = now + 15 ∧ stage = .acquired := by
    intro other lease stage hother
    by_cases hsame : other = run
    · rw [hsame, go_self] at hother
      cases hother
      exact ⟨hsame, rfl, rfl⟩
    · rw [go_other _ hsame] at hother
      exact absurd hother (hnone other lease stage)
  refine ⟨fun other _ _ hother => ?_, fun run _ _ other _ _ hrun hother => ?_, h.ids, h.below,
    h.single, fun other _ _ hother => ?_⟩
  · obtain ⟨-, rfl, -⟩ := hworking _ _ _ hother
    rfl
  · rw [(hworking _ _ _ hrun).1, (hworking _ _ _ hother).1]
  · obtain ⟨-, -, rfl⟩ := hworking _ _ _ hother
    exact trivial

theorem Sound.step (h : Sound job system) {call : ρ × Move} (htimely : Timely call system) :
    Sound job (step job call system) := by
  obtain ⟨run, move⟩ := call
  rw [Companion.step]
  cases hphase : system.phase run with
  | idle =>
      cases move with
      | start now => exact h.rest nofun
      | refuse => exact h.rest nofun
      | _ => exact h
  | asked now =>
      cases move with
      | acquire granted =>
          simp only
          by_cases hfree : granted = true ∧ system.opening.all (expired · now) = true
          · rw [if_pos hfree]
            refine h.acquire fun other lease stage hother => ?_
            -- the lease of a run that works is not over
            have hlease := h.lease other lease stage hother
            have hunexpired := htimely now hphase (by rw [hfree.1]) other lease stage hother rfl
            rw [hlease, Option.all_some, hunexpired] at hfree
            cases hfree.2
          · rw [if_neg hfree]
            exact h.rest nofun
      | _ => exact h
  | working lease stage => exact h.worked hphase move
  | done => cases move <;> exact h

theorem Sound.closes {system' : System ρ} (h : Sound job system) (hcloses : Closes system system') :
    Sound job system' := by
  obtain ⟨gone, dies, rfl⟩ := hcloses
  have hpane : ∀ p ∈ (system.panes.filter fun p => ! gone p.id).map fun p =>
      { p with dead := p.dead || dies p.id }, ∃ q ∈ system.panes, q.id = p.id ∧
        q.generation = p.generation ∧ ∀ grant, p.companion grant = true →
          q.companion grant = true := by
    intro p hp
    obtain ⟨q, hq, rfl⟩ := List.mem_map.mp hp
    refine ⟨q, (List.mem_filter.mp hq).1, rfl, rfl, fun grant hcompanion => ?_⟩
    simp only [Pane.companion, Bool.and_eq_true, Bool.not_eq_true', Bool.or_eq_false_iff]
      at hcompanion ⊢
    exact ⟨hcompanion.1, hcompanion.2.1⟩
  have hno : ∀ grant, NoCompanion grant system.panes → NoCompanion grant
      ((system.panes.filter fun p => ! gone p.id).map fun p =>
        { p with dead := p.dead || dies p.id }) := by
    intro grant hno p hp
    obtain ⟨q, hq, -, -, hcompanion⟩ := hpane p hp
    by_contra hp'
    have hq' := hcompanion grant (by simpa using hp')
    rw [hno q hq] at hq'
    cases hq'
  refine ⟨h.lease, h.one, ?_, fun p hp => ?_, fun grant p hp q hq hp' hq' => ?_,
    fun run lease stage hrun => ?_⟩
  · rw [List.map_map]
    exact (List.filter_sublist.map Pane.id).nodup h.ids
  · obtain ⟨q, hq, hid, -⟩ := hpane p hp
    rw [← hid]
    exact h.below q hq
  · obtain ⟨p₀, hp₀, hpid, -, hpc⟩ := hpane p hp
    obtain ⟨q₀, hq₀, hqid, -, hqc⟩ := hpane q hq
    rw [← hpid, ← hqid]
    exact h.single grant p₀ hp₀ q₀ hq₀ (hpc grant hp') (hqc grant hq')
  · have hstands := h.stands run lease stage hrun
    have hgeneration : ∀ pane, (∀ p ∈ system.panes, p.id = pane → p.generation = none) →
        ∀ p ∈ (system.panes.filter fun p => ! gone p.id).map fun p =>
          { p with dead := p.dead || dies p.id }, p.id = pane → p.generation = none := by
      intro pane hnone p hp hid
      obtain ⟨q, hq, hqid, hsame, -⟩ := hpane p hp
      rw [← hsame]
      exact hnone q hq (hqid.trans hid)
    cases stage with
    | missing => exact hno _ hstands
    | split pane => exact ⟨hno _ hstands.1, hgeneration pane hstands.2⟩
    | sourced pane => exact ⟨hno _ hstands.1, hgeneration pane hstands.2⟩
    | _ => exact trivial

/-! ### Whole runs -/

abbrev Made (ρ : Type) := Entry (System ρ) (ρ × Move) Unit

variable {entries : List (Made ρ)}

theorem sound (h : History (perform job) Closes {} entries system)
    (htimely : ∀ e ∈ entries, Timely e.call e.before) : Sound job system := by
  induction h with
  | nil => exact ⟨nofun, nofun, List.nodup_nil, nofun, nofun, nofun⟩
  | @call es u _ c ih =>
      have hlast := htimely ⟨u, c, ()⟩ (List.mem_append_right _ (List.mem_singleton_self _))
      exact (ih fun e he => htimely e (List.mem_append_left _ he)).step hlast
  | drift _ hd ih => exact (ih htimely).closes hd

/-- What the lease is for. -/
structure OneCompanion (system : System ρ) : Prop where
  /-- The lease of a run that works is the one that is set. -/
  lease : ∀ run lease stage, system.phase run = .working lease stage →
    system.opening = some lease
  one : ∀ run lease stage other lease' stage', system.phase run = .working lease stage →
    system.phase other = .working lease' stage' → run = other
  companion : ∀ grant, ∀ p ∈ system.panes, ∀ q ∈ system.panes, p.companion grant = true →
    q.companion grant = true → p = q

/-- As long as no run asks for the lease while that of a run that works is over: the lease is
cleared by the run that set it alone, no two runs work, and a generation of the origin has one
companion. -/
theorem one_companion (h : History (perform job) Closes {} entries system)
    (htimely : ∀ e ∈ entries, Timely e.call e.before) : OneCompanion system := by
  have hsound := sound h htimely
  refine ⟨hsound.lease, hsound.one, fun grant p hp q hq hp' hq' => ?_⟩
  exact List.inj_on_of_nodup_map hsound.ids hp hq (hsound.single grant p hp q hq hp' hq')

/-! ### A lease that is cleared late -/

/-- Whether `TimelyFor` holds, by the phases of all runs. -/
def timelyFor (counts : Stage → Bool) (runs : List ρ) (call : ρ × Move) (system : System ρ) :
    Bool :=
  match system.phase call.1 with
  | .asked now => runs.all fun other =>
      match system.phase other with
      | .working lease stage => ! counts stage || ! expired lease now
      | _ => true
  | _ => true

theorem timelyFor_sound {counts : Stage → Bool} {runs : List ρ} (hruns : ∀ run, run ∈ runs)
    {call : ρ × Move} (h : timelyFor counts runs call system = true) :
    TimelyFor counts call system := by
  intro now hnow _ other lease stage hother hstage
  rw [timelyFor, hnow] at h
  have hone := List.all_eq_true.mp h other (hruns other)
  rw [hother] at hone
  simpa [hstage] using hone

end Runs

section Late

/-- The first run has nothing to close, and is slow to clear its lease. -/
def lateJob (run : Fin 3) : Job := ⟨"generation", run = 0⟩

/-- The second run takes the lease that is over, the first one clears it, and the third one comes
before the second one has split. -/
def late : List (Fin 3 × Move) :=
  [(0, .start 1700000000), (0, .acquire true), (0, .find),
    (1, .start 1700000015), (1, .acquire true), (1, .find), (0, .release),
    (2, .start 1700000016), (2, .acquire true), (2, .find),
    (1, .split true), (1, .source), (1, .generation),
    (2, .split true), (2, .source), (2, .generation)]

theorem late_history :
    History (perform lateJob) Closes ({} : System (Fin 3)) (replay (perform lateJob) {} late).1
      (replay (perform lateJob) {} late).2 :=
  History.replay _ _

theorem late_timelySearch :
    ∀ e ∈ (replay (perform lateJob) ({} : System (Fin 3)) late).1,
      TimelySearch e.call e.before := by
  intro e he
  have hall : ((replay (perform lateJob) ({} : System (Fin 3)) late).1.all fun e =>
      timelyFor (fun stage => stage != .finished) (List.finRange 3) e.call e.before) = true := by
    decide
  exact timelyFor_sound List.mem_finRange (List.all_eq_true.mp hall e he)

/-- No lease is over before its run has searched and split, and there are two companions. -/
theorem two_companions :
    ¬ ∀ (job : Fin 3 → Job) (entries : List (Made (Fin 3))) (system : System (Fin 3)),
      History (perform job) Closes {} entries system →
        (∀ e ∈ entries, TimelySearch e.call e.before) →
          ∀ grant, ∀ p ∈ system.panes, ∀ q ∈ system.panes, p.companion grant = true →
            q.companion grant = true → p = q := by
  intro hall
  have hpanes : (replay (perform lateJob) ({} : System (Fin 3)) late).2.panes =
      [⟨0, true, some "generation", false⟩, ⟨1, true, some "generation", false⟩] := by decide
  have hsame := hall lateJob _ _ late_history late_timelySearch "generation"
  rw [hpanes] at hsame
  have hpane := hsame _ List.mem_cons_self _ (List.mem_cons_of_mem _ List.mem_cons_self) rfl rfl
  cases hpane

/-- The same up to the end of the second run, the first one being as quick. -/
def quick : List (Fin 3 × Move) :=
  [(0, .start 1700000000), (0, .acquire true), (0, .find), (0, .release),
    (1, .start 1700000015), (1, .acquire true), (1, .find), (1, .split true), (1, .source),
    (1, .generation), (1, .release)]

theorem one_companion_quick :
    OneCompanion (replay (perform lateJob) ({} : System (Fin 3)) quick).2 := by
  refine one_companion (History.replay _ _) fun e he => ?_
  have hall : ((replay (perform lateJob) ({} : System (Fin 3)) quick).1.all fun e =>
      timelyFor (fun _ => true) (List.finRange 3) e.call e.before) = true := by decide
  exact timelyFor_sound List.mem_finRange (List.all_eq_true.mp hall e he)

end Late

end Pikamux.Tmux.Companion
