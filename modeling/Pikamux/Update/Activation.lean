import Pikamux.Update.Install

/-!
# Update — Activation

Installations and rollbacks on one managed root, each of which may fail or stop at any operation.

* `Sound` — what is true of the disk after each operation: a launcher leads to a release that was
  prepared and verified.
* `Guarantee` — what an operation of a call may change.
* `Quiet` — programs that have no part in which release is current.
* `atomicSymlink_alone` — the release that is current is switched in one operation.
-/

namespace Pikamux.Update

open Support Support.Program

/-- The files that a verified request prepares. -/
def Prepared (lib : Library) (dir : Directory) : Prop :=
  ∃ request verified, verifyRequest lib request = .ok verified ∧
    validateCandidate lib verified.extracted.pika request.manifest.version = .ok () ∧
    ∀ file, dir.get? file =
      (preparedFiles lib request verified.artifact verified.extracted).lookup file

/-- A rollback validated this release in full. -/
def Revalidated (lib : Library) (dir : Directory) : Prop :=
  ∃ binDir version, validateRetainedRelease lib dir binDir lib.nativeTarget = .ok version

/-- What is true of the disk after each operation. -/
structure Sound (lib : Library) (disk : Disk) : Prop where
  releases : ∀ name dir, disk.release? (.release name) = some dir → Prepared lib dir
  current : ∀ name, disk.current = some name → ∃ dir, disk.release? name = some dir ∧
    (Prepared lib dir ∨ Revalidated lib dir)
  launchers : ∀ binDir, disk.launchers.get? binDir = some .managed → disk.current ≠ none

/-- The version in the receipt of a release. -/
def recordedVersion (lib : Library) (dir : Directory) : Option VersionKey := do
  let bytes ← dir.get? .receipt
  let receipt ← (lib.readReceipt bytes).toOption
  (parseVersion receipt.version).toOption

/-- The version of the release that is current. -/
def selectedVersion (lib : Library) (disk : Disk) : Option VersionKey := do
  let name ← disk.current
  let dir ← disk.release? name
  recordedVersion lib dir

/-- Releases that are in place, and the one that is current, are as they were. -/
def Kept (s t : Disk) : Prop :=
  ∀ name dir, s.release? name = some dir → (∃ text, name = .release text) ∨ s.current = some name →
    t.release? name = some dir

/-- An installation raises the version, a rollback lowers it to a release that it validated. -/
def Switches (lib : Library) (s t : Disk) : Call → Prop
  | .install _ => s.current = none ∨ ∃ old new, selectedVersion lib s = some old ∧
      selectedVersion lib t = some new ∧ old < new
  | .rollback _ _ => ∃ old new, selectedVersion lib s = some old ∧
      selectedVersion lib t = some new ∧ new < old ∧
      ∃ name dir, t.current = some name ∧ t.release? name = some dir ∧ Revalidated lib dir

/-- What an operation of a call may change. -/
structure Guarantee (lib : Library) (call : Call) (s t : Disk) : Prop where
  sound : Sound lib t
  kept : Kept s t
  current : t.current = s.current ∨ Switches lib s t call

section Steps

variable {lib : Library} {call : Call} {s t u : Disk} {α : Type}

/-! ### What does not matter -/

/-- What has no part in which release is current. -/
structure Calm (s t : Disk) : Prop where
  release? : ∀ name, t.release? name = s.release? name
  current : t.current = s.current
  launchers : t.launchers = s.launchers

theorem Calm.refl (s : Disk) : Calm s s := ⟨fun _ => rfl, rfl, rfl⟩

theorem Calm.trans (h : Calm s t) (h' : Calm t u) : Calm s u :=
  ⟨fun name => (h'.release? name).trans (h.release? name), h'.current.trans h.current,
    h'.launchers.trans h.launchers⟩

/-- Other directories are as they were. -/
structure Restaged (stage : ReleaseName) (s t : Disk) : Prop where
  others : ∀ name, name ≠ stage → t.release? name = s.release? name
  current : t.current = s.current
  launchers : t.launchers = s.launchers

theorem Restaged.refl (stage : ReleaseName) (s : Disk) : Restaged stage s s :=
  ⟨fun _ _ => rfl, rfl, rfl⟩

theorem Restaged.trans {stage : ReleaseName} (h : Restaged stage s t) (h' : Restaged stage t u) :
    Restaged stage s u :=
  ⟨fun name hname => (h'.others name hname).trans (h.others name hname),
    h'.current.trans h.current, h'.launchers.trans h.launchers⟩

/-- A stage that is not current may be changed. -/
theorem Restaged.guarantee {uuid : String} (h : Restaged (.stage uuid) s t) (hs : Sound lib s)
    (hcurrent : s.current ≠ some (.stage uuid)) : Guarantee lib call s t where
  sound :=
    { releases := fun name dir hdir => by
        rw [h.others _ (by simp)] at hdir
        exact hs.releases name dir hdir
      current := fun name hname => by
        rw [h.current] at hname
        rw [h.others name fun heq => hcurrent (heq ▸ hname)]
        exact hs.current name hname
      launchers := fun binDir hbin => by
        rw [h.launchers] at hbin
        rw [h.current]
        exact hs.launchers binDir hbin }
  kept := by
    rintro name dir hdir hname
    rw [h.others name, hdir]
    rintro rfl
    rcases hname with ⟨_, ⟨⟩⟩ | hname
    exact hcurrent hname
  current := .inl h.current

theorem Calm.sound (h : Calm s t) (hs : Sound lib s) : Sound lib t where
  releases name dir hdir := hs.releases name dir (h.release? _ ▸ hdir)
  current name hname := by
    rw [h.release?]
    exact hs.current name (h.current ▸ hname)
  launchers binDir hbin := by
    rw [h.current]
    exact hs.launchers binDir (h.launchers ▸ hbin)

theorem Calm.guarantee (h : Calm s t) (hs : Sound lib s) : Guarantee lib call s t where
  sound := h.sound hs
  kept := fun name dir hdir _ => (h.release? name).trans hdir
  current := .inl h.current

theorem Sound.self (hs : Sound lib s) : Guarantee lib call s s := (Calm.refl s).guarantee hs

/-- A program that has no part in which release is current. -/
def Quiet (lib : Library) (call : Call) (p : Action α) : Prop :=
  ∀ s, Sound lib s → Alone (Guarantee lib call) (fun _ t => Calm s t) p s

variable {β γ : Type} {p : Action α} {k : α → Action β}

theorem Quiet.bind (hp : Quiet lib call p) (hk : ∀ a, Quiet lib call (k a)) :
    Quiet lib call (p >>= k) := by
  intro s hs
  refine alone_bind _ (hp s hs) (fun a t ht => ?_) fun _ _ ht => ht
  exact (hk a t (ht.sound hs)).mono fun _ _ hu => ht.trans hu

/-- What follows starts from a disk that is as good. -/
theorem Quiet.followed {post : Except UpdateError β → Disk → Prop} (hp : Quiet lib call p)
    (hs : Sound lib s) (hk : ∀ a t, Calm s t → Sound lib t → Alone (Guarantee lib call) post (k a) t)
    (herror : ∀ e t, Calm s t → post (.error e) t) :
    Alone (Guarantee lib call) post (p >>= k) s :=
  alone_bind _ (hp s hs) (fun a t ht => hk a t ht (ht.sound hs)) herror

theorem quiet_check {x : Except UpdateError α} : Quiet lib call (check x) :=
  fun s _ => Calm.refl s

theorem quiet_pure {a : α} : Quiet lib call (pure a) := fun s _ => Calm.refl s

theorem quiet_look {f : Disk → Except UpdateError α} : Quiet lib call (look f) :=
  fun s hs => alone_inspect hs.self (fun _ _ => Calm.refl s) fun _ => Calm.refl s

theorem quiet_change {f : Chance → Disk → Except UpdateError (α × Disk)}
    (h : ∀ i s a t, f i s = .ok (a, t) → Calm s t) : Quiet lib call (change f) := by
  intro s hs
  refine alone_operate hs.self (fun i a t ht => ?_) (fun _ => Calm.refl s) fun i a t ht _ => h i s a t ht
  exact ⟨(h i s a t ht).guarantee hs, h i s a t ht⟩

theorem Quiet.attempt (hp : Quiet lib call p) : Quiet lib call (Program.attempt p) :=
  fun s hs => alone_attempt (hp s hs)

theorem Quiet.onError {undo : Action γ} (hp : Quiet lib call p) (hundo : Quiet lib call undo) :
    Quiet lib call (Program.onError p undo) := by
  intro s hs
  refine alone_onError _ (hp s hs) (fun _ _ ht => ht) fun _ t ht => ?_
  exact (hundo t (ht.sound hs)).mono fun _ _ hu => ht.trans hu

theorem quiet_secure : Quiet lib call secure := quiet_look

theorem quiet_sync : Quiet lib call sync := quiet_look

theorem quiet_initializeOrValidateRoot (existed : Bool) :
    Quiet lib call (initializeOrValidateRoot existed) := by
  refine quiet_secure.bind fun _ => quiet_look.bind fun marked => ?_
  split
  · exact quiet_look
  · refine quiet_look.bind fun _ => ?_
    refine (quiet_change ?_).bind fun _ => (quiet_change ?_).bind fun _ => ?_
    · rintro i s a t ⟨⟩
      exact ⟨fun _ => rfl, rfl, rfl⟩
    · rintro i s a t ⟨⟩
      exact ⟨fun _ => rfl, rfl, rfl⟩
    · exact quiet_sync.bind fun _ => quiet_sync

theorem quiet_createRoot : Quiet lib call createRoot := by
  refine quiet_look.bind fun existed => ?_
  split
  · exact quiet_initializeOrValidateRoot true
  · refine (quiet_change ?_).bind fun _ => (quiet_initializeOrValidateRoot false).onError ?_
    · rintro i s a t ⟨⟩
      exact ⟨fun _ => rfl, rfl, rfl⟩
    · refine quiet_change ?_
      intro i s a t h
      obtain ⟨_, -, h⟩ := bind_eq_ok.mp h
      cases h
      exact ⟨fun _ => rfl, rfl, rfl⟩

theorem quiet_stageLauncher (binDir : String) : Quiet lib call (stageLauncher binDir) := by
  refine quiet_look.bind fun _ => quiet_look.bind fun present => ?_
  split
  · exact quiet_pure
  refine quiet_secure.bind fun _ => (quiet_change ?_).bind fun _ => ?_
  · intro i s a t h
    obtain ⟨staged, -, h⟩ := bind_eq_ok.mp h
    cases h
    exact ⟨fun _ => rfl, rfl, rfl⟩
  · exact quiet_sync.bind fun _ => quiet_pure

/-! ### Launchers -/

/-- A program each of whose operations keeps to the guarantee. -/
abbrev Keeps (lib : Library) (call : Call) (p : Action α) (s : Disk) : Prop :=
  Alone (Guarantee lib call) (fun _ _ => True) p s

theorem Quiet.keeps (hp : Quiet lib call p) (hs : Sound lib s) : Keeps lib call p s :=
  (hp s hs).mono fun _ _ _ => trivial

theorem Quiet.keeps_bind (hp : Quiet lib call p) (hs : Sound lib s)
    (hk : ∀ a t, Calm s t → Sound lib t → Keeps lib call (k a) t) : Keeps lib call (p >>= k) s :=
  hp.followed hs hk fun _ _ _ => trivial

theorem Guarantee.sounds {post : Except UpdateError α → Disk → Prop}
    (h : Alone (Guarantee lib call) post p s) (hs : Sound lib s) :
    Alone (Guarantee lib call) (fun r t => post r t ∧ Sound lib t) p s :=
  h.always hs fun _ _ hg => hg.sound

theorem keeps_bind (hp : Keeps lib call p s) (hs : Sound lib s)
    (hk : ∀ a t, Sound lib t → Keeps lib call (k a) t) : Keeps lib call (p >>= k) s :=
  alone_bind _ (Guarantee.sounds hp hs) (fun a t ht => hk a t ht.2) fun _ _ _ => trivial

theorem keeps_change {f : Chance → Disk → Except UpdateError (α × Disk)} (hs : Sound lib s)
    (h : ∀ i a t, f i s = .ok (a, t) → Guarantee lib call s t) : Keeps lib call (change f) s :=
  alone_operate hs.self (fun i a t ht => ⟨h i a t ht, trivial⟩) (fun _ => trivial)
    fun _ _ _ _ _ => trivial

/-- With a current release, a launcher may be added. -/
theorem addLauncher_keeps {binDir : String} {r : Unit × Disk} (call : Call) (hs : Sound lib s)
    (hcurrent : s.current ≠ none) (h : addLauncher binDir s = .ok r) : Guarantee lib call s r.2 := by
  obtain ⟨launchers, -, h⟩ := bind_eq_ok.mp h
  cases h
  exact ⟨⟨hs.releases, hs.current, fun _ _ => hcurrent⟩, fun _ _ hdir _ => hdir, .inl rfl⟩

theorem ensureLauncher_keeps {binDir : String} (hs : Sound lib s) (hcurrent : s.current ≠ none) :
    Keeps lib call (ensureLauncher binDir) s := by
  refine quiet_look.keeps_bind hs fun _ t ht hs => ?_
  refine quiet_look.keeps_bind hs fun present u hu hs => ?_
  rw [← ht.current, ← hu.current] at hcurrent
  split
  · exact quiet_pure.keeps hs
  refine quiet_secure.keeps_bind hs fun _ v hv hs => ?_
  rw [← hv.current] at hcurrent
  exact keeps_bind (keeps_change hs fun _ _ _ h => addLauncher_keeps call hs hcurrent h) hs
    fun _ _ hs => quiet_sync.keeps hs

theorem quiet_removeStagedLauncher (staged : String × String) :
    Quiet lib call (change fun _ => removeStagedLauncher staged) := by
  refine quiet_change ?_
  rintro i s a t ⟨⟩
  exact ⟨fun _ => rfl, rfl, rfl⟩

theorem renameStagedLauncher_keeps {binDir : String} {staged : String × String}
    (hs : Sound lib s) (hcurrent : s.current ≠ none) :
    Keeps lib call (renameStagedLauncher binDir staged) s := by
  refine quiet_look.keeps_bind hs fun present t ht hs => ?_
  rw [← ht.current] at hcurrent
  split
  · exact (quiet_look.bind fun _ => quiet_removeStagedLauncher staged).keeps hs
  · refine keeps_change hs fun i a u h => ?_
    obtain ⟨r, hadd, h⟩ := bind_eq_ok.mp h
    cases h
    have hadded := addLauncher_keeps call hs hcurrent hadd
    exact ⟨⟨hadded.sound.releases, hadded.sound.current, hadded.sound.launchers⟩, hadded.kept,
      hadded.current⟩

theorem publishLauncher_keeps {binDir : String} (staged : Option (String × String))
    (hs : Sound lib s) (hcurrent : s.current ≠ none) :
    Keeps lib call (publishLauncher binDir staged) s := by
  cases staged with
  | none => exact quiet_pure.keeps hs
  | some staged =>
      refine keeps_bind (renameStagedLauncher_keeps hs hcurrent) hs fun _ t hs => ?_
      refine Quiet.keeps (quiet_sync.attempt.bind fun synced => ?_) hs
      cases synced with
      | ok => exact quiet_pure
      | error e =>
          refine quiet_look.attempt.bind fun link => ?_
          split
          · exact quiet_pure
          · exact quiet_check

theorem quiet_discardLauncher (staged : Option (String × String)) :
    Quiet lib call (discardLauncher staged) := by
  cases staged with
  | none => exact quiet_pure
  | some staged => exact (quiet_removeStagedLauncher staged).attempt.bind fun _ => quiet_sync

/-! ### The link to the current release -/

theorem look_bind {f : Disk → Except UpdateError α} {post : Except UpdateError β → Disk → Prop}
    (hs : Sound lib s) (hok : ∀ a, f s = .ok a → Alone (Guarantee lib call) post (k a) s)
    (herror : ∀ e, post (.error e) s) : Alone (Guarantee lib call) post (look f >>= k) s := by
  refine alone_bind (fun r t => t = s ∧ ∀ a, r = .ok a → f s = .ok a)
    (alone_inspect hs.self ?_ ?_) ?_ ?_
  · rintro a ha
    refine ⟨rfl, ?_⟩
    rintro _ ⟨⟩
    exact ha
  · intro e
    refine ⟨rfl, ?_⟩
    rintro _ ⟨⟩
  · rintro a t ⟨rfl, ha⟩
    exact hok a (ha a rfl)
  · rintro e t ⟨rfl, -⟩
    exact herror e

theorem check_bind {x : Except UpdateError α} {post : Except UpdateError β → Disk → Prop}
    (hok : ∀ a, x = .ok a → Alone (Guarantee lib call) post (k a) s)
    (herror : ∀ e, post (.error e) s) : Alone (Guarantee lib call) post (check x >>= k) s :=
  sat_check hok fun e _ => herror e

theorem quiet_validateRoot : Quiet lib call validateRoot := by
  refine quiet_look.bind fun existed => ?_
  split
  · exact quiet_initializeOrValidateRoot true
  · exact quiet_pure

/-- The directory `releases` is made when it is not there. -/
theorem quiet_provideReleases : Quiet lib call provideReleases := by
  intro s hs
  refine look_bind hs (fun present hpresent => ?_) fun _ => Calm.refl s
  cases hpresent
  split
  · exact quiet_secure s hs
  · rename_i hnone
    have hcalm : Calm s { s with releases := some ∅ } := by
      refine ⟨fun name => ?_, rfl, rfl⟩
      rw [Option.not_isSome_iff_eq_none] at hnone
      simp [Disk.release?, hnone]
    refine alone_operate hs.self ?_ (fun _ => Calm.refl s) ?_
    · rintro i _ _ ⟨⟩
      exact ⟨hcalm.guarantee hs, hcalm⟩
    · rintro i _ _ ⟨⟩ _
      exact hcalm

/-- Another release is current. -/
structure Switched (target : ReleaseName) (s t : Disk) : Prop where
  release? : ∀ name, t.release? name = s.release? name
  current : t.current = some target
  launchers : t.launchers = s.launchers

theorem Calm.selectedVersion (h : Calm s t) : selectedVersion lib t = selectedVersion lib s := by
  simp only [Update.selectedVersion, h.current, h.release?]

/-- A release that is there, and that was verified, may be switched to. -/
theorem Switched.guarantee {target : ReleaseName} {dir : Directory} (h : Switched target s t)
    (hs : Sound lib s) (hdir : s.release? target = some dir)
    (hverified : Prepared lib dir ∨ Revalidated lib dir) (hswitch : Switches lib s t call) :
    Guarantee lib call s t where
  sound :=
    { releases := fun name dir hdir => hs.releases name dir (h.release? _ ▸ hdir)
      current := fun name hname => by
        rw [h.current] at hname
        cases hname
        exact ⟨dir, (h.release? target).trans hdir, hverified⟩
      launchers := fun _ _ => by
        rw [h.current]
        exact Option.some_ne_none target }
  kept name dir hdir _ := (h.release? name).trans hdir
  current := .inr hswitch

theorem renameTemporary_switched {target : ReleaseName} {temporary : String} {r : Unit × Disk}
    (htarget : s.temporaries.get? temporary = some target)
    (h : renameTemporary temporary s = .ok r) : Switched target s r.2 := by
  obtain ⟨target', ht, h⟩ := bind_eq_ok.mp h
  rw [context_eq_ok, htarget] at ht
  cases ht
  cases h
  exact ⟨fun _ => rfl, rfl, rfl⟩

theorem Quiet.current {target : ReleaseName} (hp : Quiet lib call p) (hs : Sound lib s)
    (hcurrent : s.current = some target) :
    Alone (Guarantee lib call) (fun r t => ∀ a, r = .ok a → t.current = some target) p s :=
  (hp s hs).mono fun _ _ ht _ _ => ht.current.trans hcurrent

/-- Whatever fails, the link leads to the old release or to the new one; when it is reported as
switched it leads to the new one. -/
theorem atomicSymlink_alone {target : ReleaseName} (hs : Sound lib s)
    (hswitch : ∀ t u, Calm s t → Switched target t u → Guarantee lib call t u) :
    Alone (Guarantee lib call) (fun r t => ∀ a, r = .ok a → t.current = some target)
      (atomicSymlink target) s := by
  refine alone_bind (fun r t => Calm s t ∧ ∀ temporary, r = .ok temporary →
    t.temporaries.get? temporary = some target) (alone_operate hs.self ?_ ?_ ?_) ?_ ?_
  · rintro i temporary t ht
    obtain ⟨temporaries, hinsert, ht⟩ := bind_eq_ok.mp ht
    cases ht
    have hcalm : Calm s { s with temporaries } := ⟨fun _ => rfl, rfl, rfl⟩
    refine ⟨hcalm.guarantee hs, hcalm, ?_⟩
    rintro _ ⟨⟩
    rw [context_eq_ok] at hinsert
    simp [Table.get?_insert? hinsert]
  · intro e
    refine ⟨Calm.refl s, ?_⟩
    rintro _ ⟨⟩
  · intro i temporary t ht e
    obtain ⟨temporaries, -, ht⟩ := bind_eq_ok.mp ht
    cases ht
    refine ⟨⟨fun _ => rfl, rfl, rfl⟩, ?_⟩
    rintro _ ⟨⟩
  · rintro temporary t ⟨hcalm, htemporary⟩
    have ht := hcalm.sound hs
    have hremove : Quiet lib call (change fun _ => removeTemporary temporary) := by
      refine quiet_change ?_
      rintro i s a t ⟨⟩
      exact ⟨fun _ => rfl, rfl, rfl⟩
    -- The link may be removed only when it was not renamed, so `sync` leaves it where it is.
    refine alone_bind (fun r u => ∀ a, r = .ok a → u = t) (alone_onError
      (fun _ u => u = t) (alone_inspect ht.self (fun _ _ => rfl) fun _ => rfl) ?_ ?_) ?_ ?_
    · rintro a u rfl _ ⟨⟩
      rfl
    · rintro e u rfl
      refine (hremove u ht).mono fun _ v _ => ?_
      rintro _ ⟨⟩
    · rintro a u hu
      obtain rfl := hu a rfl
      have hrename : Alone (Guarantee lib call)
          (fun r v => (∀ a, r = .ok a → v.current = some target) ∧ Sound lib v)
          (change fun _ => renameTemporary temporary) u := by
        refine Guarantee.sounds (alone_operate ht.self ?_ ?_ ?_) ht
        · rintro i a v hv
          have hv := renameTemporary_switched (htemporary temporary rfl) hv
          exact ⟨hswitch u v hcalm hv, fun _ _ => hv.current⟩
        · rintro e _ ⟨⟩
        · rintro i a v hv e _ ⟨⟩
      refine alone_bind (fun r v => (∀ a, r = .ok a → v.current = some target) ∧
        Sound lib v) (alone_onError _ hrename ?_ ?_) ?_ ?_
      · exact fun _ _ hv => hv
      · rintro e v ⟨-, hv⟩
        refine (Guarantee.sounds (hremove v hv) hv).mono fun _ w hw => ⟨?_, hw.2⟩
        rintro _ ⟨⟩
      · rintro a v ⟨hcurrent, hv⟩
        have hcurrent := hcurrent a rfl
        refine Quiet.current (quiet_sync.attempt.bind fun synced => ?_) hv hcurrent
        cases synced with
        | ok => exact quiet_pure
        | error e =>
            refine quiet_look.attempt.bind fun link => ?_
            split
            · exact quiet_pure
            · exact quiet_check
      · rintro e v -
        rintro _ ⟨⟩
    · rintro e u -
      rintro _ ⟨⟩
  · rintro e t -
    rintro _ ⟨⟩

end Steps

end Pikamux.Update
