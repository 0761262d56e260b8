import Mathlib.Logic.Equiv.List
import Pikamux.Update.Staging

/-!
# Update — Safety

The law of installations and rollbacks on one managed root.

* `installStaged_keeps`, `rollbackManaged_keeps` — each call keeps to its guarantee.
* `installation_safe` — in every state of a run a launcher leads to a verified release, releases in
  place stay as they are, and the version only moves as the call that runs may move it.
-/

namespace Pikamux.Update

open Support Support.Program

/-! ### Versions -/

theorem VersionKey.lt_of_not_lt {a b : VersionKey} (h : ¬ a < b) (hne : a ≠ b) : b < a := by
  rcases lt_trichotomy a.parts b.parts with hlt | heq | hlt
  · exact absurd hlt h
  · obtain ⟨⟩ := a
    obtain ⟨⟩ := b
    simp only [VersionKey.parts, List.cons.injEq, and_true] at heq
    obtain ⟨rfl, rfl, rfl, rfl, rfl⟩ := heq
    exact absurd rfl hne
  · exact hlt

theorem compareVersions_eq_ok {left right : String} {order : Ordering}
    (h : compareVersions left right = .ok order) : ∃ l r, parseVersion left = .ok l ∧
      parseVersion right = .ok r ∧ (order = .lt → l < r) ∧ (order = .gt → r < l) := by
  obtain ⟨l, hl, h⟩ := bind_eq_ok.mp h
  obtain ⟨r, hr, h⟩ := bind_eq_ok.mp h
  rw [pure_eq_ok] at h
  subst h
  refine ⟨l, r, hl, hr, ?_⟩
  split
  · rename_i hlt
    simpa using hlt
  · rename_i hlt
    split
    · simp
    · rename_i hne
      simpa using VersionKey.lt_of_not_lt hlt hne

section Calls

variable {lib : Library} {s t u : Disk} {call : Call}

/-! ### What the receipt of the current release says -/

/-- The receipt that `current_receipt` reads says which version is current. -/
theorem recordedVersion_of_current {dir : Directory} {receipt : CurrentReceipt} (hlib : lib.Faithful)
    (hverified : Prepared lib dir ∨ Revalidated lib dir)
    (h : currentReceiptOf lib dir = .ok receipt) :
    recordedVersion lib dir = (parseVersion receipt.version).toOption := by
  obtain ⟨bytes, hbytes, h⟩ := bind_eq_ok.mp h
  obtain ⟨receipt', hread, h⟩ := bind_eq_ok.mp h
  obtain ⟨_, -, h⟩ := bind_eq_ok.mp h
  rw [pure_eq_ok] at h
  subst h
  have hinstalled : ∃ installed, lib.readReceipt bytes = .ok installed := by
    rcases hverified with ⟨request, verified, -, -, hfiles⟩ | ⟨binDir, version, hvalid⟩
    · obtain ⟨bytes', hfile, hbytes⟩ := bind_eq_ok.mp hbytes
      obtain ⟨_, -, hbytes⟩ := bind_eq_ok.mp hbytes
      obtain ⟨bytes'', hbounded, hbytes⟩ := bind_eq_ok.mp hbytes
      obtain ⟨_, -, hbytes⟩ := bind_eq_ok.mp hbytes
      rw [pure_eq_ok] at hbytes
      rw [context_eq_ok, hfiles] at hbounded
      cases hbytes
      cases hbounded
      exact ⟨_, hlib.printed _⟩
    · obtain ⟨installed, hinstalled, -⟩ := bind_eq_ok.mp hvalid
      obtain ⟨bytes', hbytes', hinstalled⟩ := bind_eq_ok.mp hinstalled
      rw [hbytes] at hbytes'
      cases hbytes'
      exact ⟨installed, hinstalled⟩
  obtain ⟨installed, hinstalled⟩ := hinstalled
  have hcurrent := hlib.current bytes installed hinstalled
  rw [hread] at hcurrent
  cases hcurrent
  refine recordedVersion_of_receipt ?_
  rw [readReceiptOf, hbytes]
  exact hinstalled

theorem selectedVersion_eq {name : ReleaseName} {dir : Directory} (hcurrent : s.current = some name)
    (hdir : s.release? name = some dir) : selectedVersion lib s = recordedVersion lib dir := by
  simp [selectedVersion, hcurrent, hdir]

/-- What `current_receipt` returns says which version is selected. -/
theorem currentReceipt_eq_ok {receipt : Option CurrentReceipt} (hlib : lib.Faithful)
    (hs : Sound lib s) (h : currentReceipt lib s = .ok receipt) :
    (receipt = none ∧ s.current = none) ∨ ∃ r, receipt = some r ∧ s.current ≠ none ∧
      selectedVersion lib s = (parseVersion r.version).toOption := by
  unfold currentReceipt at h
  split at h
  · rename_i hcurrent
    cases h
    exact .inl ⟨rfl, hcurrent⟩
  · rename_i name hcurrent
    obtain ⟨dir, hdir, h⟩ := bind_eq_ok.mp h
    obtain ⟨r, hr, h⟩ := bind_eq_ok.mp h
    rw [pure_eq_ok] at h
    rw [context_eq_ok] at hdir
    subst h
    obtain ⟨dir', hdir', hverified⟩ := hs.current name hcurrent
    rw [hdir] at hdir'
    cases hdir'
    refine .inr ⟨r, rfl, ?_, ?_⟩
    · rw [hcurrent]
      exact Option.some_ne_none name
    · rw [selectedVersion_eq hcurrent hdir]
      exact recordedVersion_of_current hlib hverified hr

/-! ### Installing -/

/-- What a switch to the release of a request does to the version. -/
theorem Provided.switches {request : InstallRequest} {name : ReleaseName} {v : Disk}
    (h : Provided lib request name s t)
    (hraised : s.current = none ∨ ∃ old new, selectedVersion lib s = some old ∧
      parseVersion request.manifest.version = .ok new ∧ old < new)
    (hcalm : Calm t u) (hswitched : Switched name u v) : Switches lib u v (.install request) := by
  rcases hraised with hnone | ⟨old, new, hold, hnew, hlt⟩
  · exact .inl (hcalm.current.trans (h.current.trans hnone))
  · refine .inr ⟨old, new, ?_, ?_, hlt⟩
    · obtain ⟨name', hcurrent, hold⟩ := Option.bind_eq_some_iff.mp hold
      obtain ⟨dir, hdir, hold⟩ := Option.bind_eq_some_iff.mp hold
      rw [hcalm.selectedVersion, selectedVersion_eq (h.current.trans hcurrent)
        (h.kept name' dir hdir (.inr hcurrent)), hold]
    · obtain ⟨dir, hdir, -, hversion⟩ := h.release
      rw [selectedVersion_eq hswitched.current
        ((hswitched.release? name).trans ((hcalm.release? name).trans hdir)), hversion, hnew]
      rfl

theorem activate_keeps {request : InstallRequest} {name : ReleaseName}
    (h : Provided lib request name s t)
    (hraised : s.current = none ∨ ∃ old new, selectedVersion lib s = some old ∧
      parseVersion request.manifest.version = .ok new ∧ old < new) (ht : Sound lib t) :
    Keeps lib (.install request) (activate request.binDir name) t := by
  refine (quiet_stageLauncher request.binDir).keeps_bind ht fun staged u hu hs => ?_
  obtain ⟨dir, hdir, hprepared, -⟩ := h.release
  have hswitch (v w : Disk) (hv : Calm u v) (hw : Switched name v w) :
      Guarantee lib (.install request) v w := by
    have htv := hu.trans hv
    exact hw.guarantee (hv.sound hs) ((htv.release? name).trans hdir) (.inl hprepared)
      (h.switches hraised htv hw)
  refine alone_bind (fun r v => Sound lib v ∧ ∀ a, r = .ok a → v.current = some name)
    (alone_onError _ (Guarantee.sounds (atomicSymlink_alone hs hswitch) hs) ?_ ?_) ?_ fun _ _ _ => trivial
  · rintro a v ⟨hcurrent, hv⟩
    exact ⟨hv, fun _ _ => hcurrent a rfl⟩
  · rintro e v ⟨-, hv⟩
    refine (Guarantee.sounds (quiet_discardLauncher staged v hv) hv).mono fun _ w hw => ⟨hw.2, ?_⟩
    rintro _ ⟨⟩
  · rintro a v ⟨hv, hcurrent⟩
    refine keeps_bind (publishLauncher_keeps staged hv ?_) hv fun _ w hw => quiet_pure.keeps hw
    rw [hcurrent a rfl]
    exact Option.some_ne_none name

theorem provideAndActivate_keeps {request : InstallRequest} {verified : Verified} (hlib : lib.Faithful)
    (hs : Sound lib s) (hverified : verifyRequest lib request = .ok verified)
    (hraised : s.current = none ∨ ∃ old new, selectedVersion lib s = some old ∧
      parseVersion request.manifest.version = .ok new ∧ old < new) :
    Keeps lib (.install request) (do
      let name ← provideRelease lib request verified
      activate request.binDir name) s := by
  refine alone_bind _ (Guarantee.sounds (provideRelease_alone hlib hs hverified) hs) ?_
    fun _ _ _ => trivial
  rintro name t ⟨hprovided, ht⟩
  exact activate_keeps (hprovided name rfl) hraised ht

theorem reinstall_keeps {request : InstallRequest} {verified : Verified} {receipt : CurrentReceipt}
    (hs : Sound lib s) (hcurrent : s.current ≠ none) :
    Keeps lib call (reinstall lib request verified receipt) s := by
  refine quiet_check.keeps_bind hs fun _ t ht hs => ?_
  refine quiet_look.keeps_bind hs fun _ u hu hs => ?_
  refine quiet_look.keeps_bind hs fun _ v hv hs => ?_
  rw [← ht.current, ← hu.current, ← hv.current] at hcurrent
  exact keeps_bind (ensureLauncher_keeps hs hcurrent) hs fun _ _ hs => quiet_pure.keeps hs

theorem installStaged_keeps (request : InstallRequest) (hlib : lib.Faithful) (hs : Sound lib s) :
    Keeps lib (.install request) (installStaged lib request) s := by
  refine check_bind (fun verified hverified => ?_) fun _ => trivial
  refine quiet_secure.keeps_bind hs fun _ _ _ hs => ?_
  refine quiet_validateRoot.keeps_bind hs fun _ _ _ hs => ?_
  refine quiet_look.keeps_bind hs fun _ _ _ hs => ?_
  refine quiet_check.keeps_bind hs fun _ _ _ hs => ?_
  refine quiet_createRoot.keeps_bind hs fun _ _ _ hs => ?_
  refine quiet_secure.keeps_bind hs fun _ _ _ hs => ?_
  refine (quiet_initializeOrValidateRoot true).keeps_bind hs fun _ _ _ hs => ?_
  refine quiet_provideReleases.keeps_bind hs fun _ _ _ hs => ?_
  refine quiet_sync.keeps_bind hs fun _ _ _ hs => ?_
  refine quiet_sync.keeps_bind hs fun _ _ _ hs => ?_
  refine quiet_look.keeps_bind hs fun _ _ _ hs => ?_
  refine quiet_look.keeps_bind hs fun _ t _ hs => ?_
  refine look_bind hs (fun receipt hreceipt => ?_) fun _ => trivial
  rcases currentReceipt_eq_ok hlib hs hreceipt with ⟨rfl, hnone⟩ | ⟨r, rfl, hcurrent, hselected⟩
  · exact provideAndActivate_keeps hlib hs hverified (.inl hnone)
  · refine check_bind (fun _ _ => ?_) fun _ => trivial
    refine check_bind (fun order horder => ?_) fun _ => trivial
    obtain ⟨new, old, hnew, hold, -, hgt⟩ := compareVersions_eq_ok horder
    cases order with
    | lt => exact quiet_check.keeps hs
    | eq => exact reinstall_keeps hs hcurrent
    | gt =>
        refine provideAndActivate_keeps hlib hs hverified (.inr ⟨old, new, ?_, hnew, hgt rfl⟩)
        rw [hselected, hold]
        rfl

/-! ### Rolling back -/

/-- A release that may be rolled back to: it is there, it was validated, and it is older. -/
def Candidate (lib : Library) (managed : ManagedInstallation)
    (entries : List (ReleaseName × Directory)) (c : VersionKey × String × ReleaseName) : Prop :=
  ∃ dir, (c.2.2, dir) ∈ entries ∧
    validateRetainedRelease lib dir managed.binDir lib.nativeTarget = .ok c.2.1 ∧
    compareVersions c.2.1 managed.version = .ok .lt

/-- The candidates were validated, one entry after the other. -/
theorem retainedReleases_alone {managed : ManagedInstallation} (requested : Option String)
    {all entries : List (ReleaseName × Directory)} (hall : ∀ e ∈ entries, e ∈ all) (index : Nat)
    (hs : Sound lib s) :
    Alone (Guarantee lib call)
      (fun r t => Calm s t ∧ ∀ list, r = .ok list → ∀ c ∈ list, Candidate lib managed all c)
      (retainedReleases lib managed requested index entries) s := by
  induction entries generalizing s index with
  | nil =>
      refine ⟨Calm.refl s, ?_⟩
      rintro _ ⟨⟩
      simp
  | cons entry entries ih =>
      obtain ⟨name, dir⟩ := entry
      have hrest (t : Disk) (ht : Calm s t) (htsound : Sound lib t) :
          Alone (Guarantee lib call)
            (fun r u => Calm s u ∧ ∀ list, r = .ok list → ∀ c ∈ list, Candidate lib managed all c)
            (retainedReleases lib managed requested (index + 1) entries) t :=
        (ih (fun e he => hall e (List.mem_cons_of_mem _ he)) (index + 1) htsound).mono
          fun r u hu => ⟨ht.trans hu.1, hu.2⟩
      have hfail (t : Disk) (ht : Calm s t) (e : UpdateError) :
          Calm s t ∧ ∀ list, (.error e : Except UpdateError (List (VersionKey × String × ReleaseName)))
            = .ok list → ∀ c ∈ list, Candidate lib managed all c := by
        refine ⟨ht, ?_⟩
        rintro _ ⟨⟩
      refine check_bind (fun _ _ => ?_) (hfail s (Calm.refl s))
      refine quiet_secure.followed hs (fun _ t ht hs => ?_) fun e t ht => hfail t ht e
      split
      · exact hrest t ht hs
      refine alone_bind (fun r u => u = t ∧ ∀ x, r = .ok x → ∀ version, x = .ok version →
        validateRetainedRelease lib dir managed.binDir lib.nativeTarget = .ok version)
        (alone_attempt (alone_inspect hs.self ?_ ?_)) ?_ ?_
      · rintro version hversion
        refine ⟨rfl, ?_⟩
        rintro _ ⟨⟩ _ ⟨⟩
        exact hversion
      · refine fun e => ⟨rfl, ?_⟩
        rintro _ ⟨⟩ _ ⟨⟩
      · rintro x u ⟨rfl, hx⟩
        cases x with
        | error e => exact hrest u ht hs
        | ok version =>
            refine check_bind (fun order horder => ?_) (hfail u ht)
            split
            · rename_i hchosen
              refine check_bind (fun key _ => ?_) (hfail u ht)
              refine alone_bind _ (hrest u ht hs) ?_ fun e v hv => hfail v hv.1 e
              rintro others v ⟨hv, hothers⟩
              refine ⟨hv, ?_⟩
              rintro _ ⟨⟩ c hc
              rcases List.mem_cons.mp hc with rfl | hc
              · rw [Bool.and_eq_true, decide_eq_true_iff] at hchosen
                exact ⟨dir, hall _ List.mem_cons_self, hx _ rfl version rfl, hchosen.1 ▸ horder⟩
              · exact hothers others rfl c hc
            · exact hrest u ht hs
      · rintro e u ⟨rfl, -⟩
        exact hfail u ht e

theorem validateExistingRelease_pika {dir : Directory} {request : InstallRequest}
    {artifact : ReleaseArtifact} {extracted : Extracted} {r : Unit}
    (h : validateExistingRelease lib dir request artifact extracted = .ok r) :
    dir.contains .pika = true := by
  obtain ⟨receipt, -, h⟩ := bind_eq_ok.mp h
  obtain ⟨_, -, h⟩ := bind_eq_ok.mp h
  obtain ⟨installed, hinstalled, -⟩ := bind_eq_ok.mp h
  rw [readFile, context_eq_ok] at hinstalled
  simp [Table.contains, hinstalled]

/-- A release that was validated has its executable, and its receipt says its version. -/
theorem validateRetainedRelease_eq_ok {dir : Directory} {binDir target version : String}
    (h : validateRetainedRelease lib dir binDir target = .ok version) :
    (∃ receipt, readReceiptOf lib dir = .ok receipt ∧ receipt.version = version) ∧
      dir.contains .pika = true := by
  obtain ⟨receipt, hreceipt, h⟩ := bind_eq_ok.mp h
  obtain ⟨_, -, h⟩ := bind_eq_ok.mp h
  obtain ⟨bytes, -, h⟩ := bind_eq_ok.mp h
  obtain ⟨manifest, -, h⟩ := bind_eq_ok.mp h
  obtain ⟨_, -, h⟩ := bind_eq_ok.mp h
  obtain ⟨artifact, -, h⟩ := bind_eq_ok.mp h
  obtain ⟨_, -, h⟩ := bind_eq_ok.mp h
  obtain ⟨archive, -, h⟩ := bind_eq_ok.mp h
  obtain ⟨extracted, -, h⟩ := bind_eq_ok.mp h
  obtain ⟨_, hexisting, h⟩ := bind_eq_ok.mp h
  obtain ⟨_, -, h⟩ := bind_eq_ok.mp h
  rw [pure_eq_ok] at h
  exact ⟨⟨receipt, hreceipt, h⟩, validateExistingRelease_pika hexisting⟩

/-- What `discover_managed_install` says about the installation. -/
theorem discoverManagedInstall_eq_ok {executable : ReleaseName} {managed : ManagedInstallation}
    (hlib : lib.Faithful) (hs : Sound lib s)
    (h : discoverManagedInstall lib executable s = .ok managed) :
    selectedVersion lib s = (parseVersion managed.version).toOption := by
  obtain ⟨dir, hdir, h⟩ := bind_eq_ok.mp h
  obtain ⟨_, -, h⟩ := bind_eq_ok.mp h
  obtain ⟨receipt, hreceipt, h⟩ := bind_eq_ok.mp h
  obtain ⟨_, -, h⟩ := bind_eq_ok.mp h
  obtain ⟨_, hcurrent, h⟩ := bind_eq_ok.mp h
  obtain ⟨_, -, h⟩ := bind_eq_ok.mp h
  rw [pure_eq_ok] at h
  rw [context_eq_ok] at hdir
  rw [ensure_eq_ok, decide_eq_true_iff] at hcurrent
  subst h
  obtain ⟨dir', hdir', hverified⟩ := hs.current executable hcurrent
  rw [hdir] at hdir'
  cases hdir'
  have hread : currentReceiptOf lib dir = .ok receipt := by
    cases hr : currentReceiptOf lib dir with
    | error e =>
        rw [hr] at hreceipt
        cases hreceipt
    | ok r =>
        rw [hr] at hreceipt
        cases hreceipt
        rfl
  rw [selectedVersion_eq hcurrent hdir]
  exact recordedVersion_of_current hlib hverified hread

/-- A rollback switches to a release that it validated and that is older. -/
theorem Candidate.switched {executable : ReleaseName} {requested : Option String}
    {managed : ManagedInstallation} {entries : List (ReleaseName × Directory)}
    {c : VersionKey × String × ReleaseName} (hs : Sound lib s)
    (hmanaged : selectedVersion lib s = (parseVersion managed.version).toOption)
    (hentries : ∀ name dir, (name, dir) ∈ entries → s.release? name = some dir)
    (h : Candidate lib managed entries c) (hcalm : Calm s t) (hswitched : Switched c.2.2 t u) :
    Guarantee lib (.rollback executable requested) t u := by
  obtain ⟨dir, hmem, hvalid, horder⟩ := h
  obtain ⟨new, old, hnew, hold, hlt, -⟩ := compareVersions_eq_ok horder
  have hdir := (hcalm.release? _).trans (hentries _ dir hmem)
  have hrevalidated : Revalidated lib dir := ⟨managed.binDir, c.2.1, hvalid⟩
  refine hswitched.guarantee (hcalm.sound hs) hdir (.inr hrevalidated)
    ⟨old, new, ?_, ?_, hlt rfl, c.2.2, dir, hswitched.current, (hswitched.release? _).trans hdir,
      hrevalidated⟩
  · rw [hcalm.selectedVersion, hmanaged, hold]
    rfl
  · rw [selectedVersion_eq hswitched.current ((hswitched.release? _).trans hdir)]
    obtain ⟨⟨receipt, hreceipt, hversion⟩, -⟩ := validateRetainedRelease_eq_ok hvalid
    rw [recordedVersion_of_receipt hreceipt, hversion, hnew]
    rfl

theorem rollbackManaged_keeps (executable : ReleaseName) (requested : Option String)
    (hlib : lib.Faithful) (hs : Sound lib s) :
    Keeps lib (.rollback executable requested) (rollbackManaged lib executable requested) s := by
  refine quiet_check.keeps_bind hs fun _ _ _ hs => ?_
  refine look_bind hs (fun managed hmanaged => ?_) fun _ => trivial
  have hselected := discoverManagedInstall_eq_ok hlib hs hmanaged
  refine quiet_secure.keeps_bind hs fun _ t ht hs => ?_
  refine (quiet_initializeOrValidateRoot true).keeps_bind hs fun _ u hu hs => ?_
  refine quiet_look.keeps_bind hs fun _ v hv hs => ?_
  refine quiet_look.keeps_bind hs fun _ w hw hs => ?_
  refine quiet_look.keeps_bind hs fun _ x hx hs => ?_
  have hselected : selectedVersion lib x = (parseVersion managed.version).toOption := by
    rw [(ht.trans (hu.trans (hv.trans (hw.trans hx)))).selectedVersion, hselected]
  refine look_bind hs (fun entries hentries => ?_) fun _ => trivial
  have hentries (name : ReleaseName) (dir : Directory) (hmem : (name, dir) ∈ entries) :
      x.release? name = some dir := by
    rw [context_eq_ok] at hentries
    obtain ⟨releases, hreleases, rfl⟩ := Option.map_eq_some_iff.mp hentries
    rw [Disk.release?, hreleases]
    exact Table.mem_rows_iff.mp hmem
  refine alone_bind _ (Guarantee.sounds
    (retainedReleases_alone requested (fun _ he => he) 0 hs) hs) ?_ fun _ _ _ => trivial
  rintro candidates y ⟨⟨hy, hcandidates⟩, hysound⟩
  refine check_bind (fun chosen hchosen => ?_) fun _ => trivial
  have hmem : chosen ∈ candidates := by
    rw [context_eq_ok] at hchosen
    exact List.mem_mergeSort.mp (List.mem_of_getLast? hchosen)
  refine keeps_bind ((atomicSymlink_alone hysound fun t u hcalm hswitched => ?_).mono
    fun _ _ _ => trivial) hysound fun _ _ hs => ?_
  · exact (hcandidates candidates rfl chosen hmem).switched hs hselected hentries (hy.trans hcalm)
      hswitched
  · exact quiet_look.keeps_bind hs fun _ _ _ hs => quiet_pure.keeps hs

/-! ### Runs -/

theorem code_keeps (hlib : lib.Faithful) (call : Call) (hs : Sound lib s) :
    Serial.Keeps (Guarantee lib call) (call.code lib) s := by
  cases call with
  | install request => exact installStaged_keeps request hlib hs
  | rollback executable requested => exact rollbackManaged_keeps executable requested hlib hs

/-- No release and no launcher of the managed root is there. -/
structure Bare (disk : Disk) : Prop where
  releases : disk.releases = none
  current : disk.current = none
  launchers : ∀ binDir, disk.launchers.get? binDir ≠ some .managed

theorem Bare.sound (h : Bare s) : Sound lib s where
  releases name dir hdir := by
    rw [Disk.release?, h.releases] at hdir
    cases hdir
  current name hname := by
    rw [h.current] at hname
    cases hname
  launchers binDir hbin := absurd hbin (h.launchers binDir)

theorem Prepared.pika {dir : Directory} (h : Prepared lib dir) : dir.contains .pika = true := by
  obtain ⟨request, verified, -, -, hfiles⟩ := h
  have hpika : dir.get? .pika = some verified.extracted.pika := (hfiles .pika).trans rfl
  simp [Table.contains, hpika]

theorem Revalidated.pika {dir : Directory} (h : Revalidated lib dir) : dir.contains .pika = true := by
  obtain ⟨binDir, version, hvalid⟩ := h
  exact (validateRetainedRelease_eq_ok hvalid).2

end Calls

/-! ### A run with two releases -/

/-- The bytes of numbers of this size, the lowest last. -/
def bytesOf (size : Nat) (numbers : List Nat) : ByteArray :=
  ⟨(numbers.flatMap fun n =>
    (List.range size).map fun i => UInt8.ofNat (n >>> (8 * (size - 1 - i)))).toArray⟩

def joinBytes (texts : List String) : ByteArray :=
  ⟨(texts.flatMap fun text => text.toUTF8.data.toList).toArray⟩

def sameBytes (a b : ByteArray) : Bool := a.data.toList = b.data.toList

/-- A release of the run: a `.tar.gz` with a script that prints its version and two notices. -/
structure Sample where
  version : String
  archive : ByteArray
  sha256 : String
  pikaSha256 : String

def sampleFirst : Sample where
  version := "1.0.0"
  archive := bytesOf 44 [
    0x1f8b0800000000000203f3f17476f50b7665a025300002331313300d04e834109820b141e266e640e50a060c,
    0x7400a5c5258945402b194626f0f50ce1621805231684787806b9c40738068544eae5a60c54fe3745cdff8606,
    0x8686c6a3f99f1ec02f3f2f75b40018b9a020333b91d6768032b5b9a929eefc6f6c845eff9b191a8de67f7a00,
    0x6545fda4cc3cfde20caed4e48c7c0550725030d433d033182d1446c1281805a360580300cf8e32c000100000]
  sha256 := "d4f802da4a407d48a843c067121e46bc5af6d5f54accf8c6efa65815f1afbe7c"
  pikaSha256 := "df369bb54a331c10c35589501b0d3d9c72e8e641bc1553f56abb4b2fa2dc342d"

def sampleSecond : Sample where
  version := "2.0.0"
  archive := bytesOf 44 [
    0x1f8b0800000000000203f3f17476f50b7665a025300002331313300d04e834109820b141e266e640e50a060c,
    0x7400a5c5258945402b194626f0f50ce1621805231684787806b9c40738068544eae5a60c54fe3745cdff8606,
    0x8686c6a3f99f1ec02f3f2f75b40018b9a020333b91d6768032b5b9a929eefc6f6c845eff9b191a8de67f7a00,
    0x6545fda4cc3cfde20caed4e48c7c0550725030d233d033182d1446c1281805a36058030009a76c3500100000]
  sha256 := "481e365688d0540c9c1003699b37ff55929e48a9565bb76f32c56c6e6d5c4f9d"
  pikaSha256 := "93dee69d8c57599402a7d1ea07a410aeceb449d296b27370e8648bd20ee26007"

namespace Sample

def target : String := "x86_64-apple-darwin"

def file (r : Sample) : String := "pikamux-" ++ r.version ++ "-" ++ target ++ ".tar.gz"

def pika (r : Sample) : ByteArray := joinBytes ["#!/bin/sh\necho pika ", r.version, "\n"]

def artifact (r : Sample) : ReleaseArtifact := ⟨r.file, r.sha256, 176⟩

def manifest (r : Sample) : ReleaseManifest :=
  ⟨2, "pikamux", r.version, "stable", [(target, r.artifact)]⟩

def request (r : Sample) : InstallRequest :=
  ⟨r.manifest, target, r.file, r.archive, r.pika, "/b"⟩

def receipt (r : Sample) : InstallReceipt :=
  ⟨2, "native", "/p", "/b", r.version, target, r.file, r.sha256⟩

def receiptText (r : Sample) : ByteArray :=
  joinBytes ["\x7b\n  \"schema\": 2,\n  \"kind\": \"native\",\n  \"root\": \"/p\",\n",
    "  \"bin_dir\": \"/b\",\n  \"version\": \"", r.version, "\",\n  \"target\": \"", target,
    "\",\n  \"artifact\": \"", r.file, "\",\n  \"sha256\": \"", r.sha256, "\"\n\x7d"]

def manifestText (r : Sample) : ByteArray :=
  joinBytes ["\x7b\n  \"schema\": 2,\n  \"package\": \"pikamux\",\n  \"version\": \"", r.version,
    "\",\n  \"channel\": \"stable\",\n  \"artifacts\": \x7b\n    \"", target,
    "\": \x7b\n      \"file\": \"", r.file, "\",\n      \"sha256\": \"", r.sha256,
    "\",\n      \"bytes\": 176\n    \x7d\n  \x7d\n\x7d"]

def find (p : Sample → Bool) : Option Sample := [sampleFirst, sampleSecond].find? p

/-- A receipt as a number. -/
def receiptNumber (r : InstallReceipt) : Nat :=
  Encodable.encode (r.schema, [r.kind, r.root, r.binDir, r.version, r.target, r.artifact, r.sha256].map
    fun text => text.toList.map Char.toNat)

def receiptOfNumber (n : Nat) : Except UpdateError InstallReceipt :=
  match (Encodable.decode n : Option (Nat × List (List Nat))) with
  | some (schema, [kind, root, binDir, version, target, artifact, sha256]) =>
      let text (codes : List Nat) := String.ofList (codes.map Char.ofNat)
      .ok ⟨schema, text kind, text root, text binDir, text version, text target, text artifact,
        text sha256⟩
  | _ => .error (.manifest "invalid receipt")

theorem receiptOfNumber_number (r : InstallReceipt) : receiptOfNumber (receiptNumber r) = .ok r := by
  have htext (text : String) :
      String.ofList ((text.toList.map Char.toNat).map Char.ofNat) = text := by
    simp [Function.comp_def]
  simp only [receiptOfNumber, receiptNumber, Encodable.encodek, List.map_cons, List.map_nil, htext]

/-- The library, for these releases; what it does with others does not matter. -/
def library : Library where
  root := "/p"
  nativeTarget := target
  digest bytes := ((find fun r => sameBytes bytes r.archive).map Sample.sha256).getD
    (((find fun r => sameBytes bytes r.pika).map Sample.pikaSha256).getD "")
  extract bytes := (context (.unsafeArchiveMember "") (find fun r => sameBytes bytes r.archive)).map
    fun r => ⟨r.pika, "MIT\n".toUTF8, "None\n".toUTF8⟩
  run bytes _ := (context (.candidate "") (find fun r => sameBytes bytes r.pika)).map
    fun r => "pika " ++ r.version ++ "\n"
  readManifest bytes := (context (.manifest "") (find fun r => sameBytes bytes r.manifestText)).map
    Sample.manifest
  printManifest m := ((find fun r => m = r.manifest).map Sample.manifestText).getD ByteArray.empty
  readReceipt bytes := match find fun r => sameBytes bytes r.receiptText with
    | some r => .ok r.receipt
    | none => receiptOfNumber bytes.size
  readCurrentReceipt bytes := match find fun r => sameBytes bytes r.receiptText with
    | some r => .ok r.receipt.current
    | none => (receiptOfNumber bytes.size).map InstallReceipt.current
  printReceipt r := match find fun s => r = s.receipt with
    | some s => s.receiptText
    | none => ⟨Array.replicate (receiptNumber r) 0⟩
  installer := "#!/bin/sh\n".toUTF8

theorem find_eq_some {p : Sample → Bool} {r : Sample} (h : find p = some r) :
    p r = true ∧ (r = sampleFirst ∨ r = sampleSecond) := by
  refine ⟨List.find?_some h, ?_⟩
  simpa using List.mem_of_find?_eq_some h

/-- Each receipt is read back from its own text, and no text is made of zeros. -/
theorem find_receiptText {r : Sample} (h : r = sampleFirst ∨ r = sampleSecond) :
    find (fun s => sameBytes r.receiptText s.receiptText) = some r := by
  have hne : sameBytes sampleSecond.receiptText sampleFirst.receiptText = false := by decide +kernel
  have hself (s : Sample) : sameBytes s.receiptText s.receiptText = true := by simp [sameBytes]
  rcases h with rfl | rfl
  · simp [find, hself]
  · simp [find, hself, hne]

theorem find_zeros (n : Nat) :
    find (fun s => sameBytes ⟨Array.replicate n 0⟩ s.receiptText) = none := by
  have hhead (s : Sample) : s.receiptText.data.toList.head? = some 123 := rfl
  have hne (s : Sample) : sameBytes ⟨Array.replicate n 0⟩ s.receiptText = false := by
    rw [sameBytes, decide_eq_false_iff_not]
    intro heq
    have h := hhead s
    rw [← heq] at h
    cases n <;> simp [List.replicate_succ] at h
  simp [find, hne]

theorem library_faithful : library.Faithful where
  printed r := by
    have hprint : library.printReceipt r = match find fun s => r = s.receipt with
      | some s => s.receiptText
      | none => ⟨Array.replicate (receiptNumber r) 0⟩ := rfl
    have hread (bytes : ByteArray) : library.readReceipt bytes =
        match find fun s => sameBytes bytes s.receiptText with
        | some s => .ok s.receipt
        | none => receiptOfNumber bytes.size := rfl
    cases hfind : find fun s => r = s.receipt with
    | some s =>
        obtain ⟨hs, hor⟩ := find_eq_some hfind
        rw [decide_eq_true_iff] at hs
        simp only [hprint, hfind, hread, find_receiptText hor]
        rw [hs]
    | none =>
        simp only [hprint, hfind, hread, find_zeros, ByteArray.size, Array.size_replicate]
        exact receiptOfNumber_number r
  current text r h := by
    simp only [library] at h ⊢
    split at h
    · cases h
      rfl
    · rw [h]
      rfl

/-- The first release is installed up to the rename of its stage and stopped, the second one is
installed, and then rolled back. -/
def moves : List (Serial.Move Chance Call) :=
  .start (.install sampleFirst.request) :: List.replicate 71 (.advance { uuid := "u" }) ++
    .stop :: .start (.install sampleSecond.request) ::
      List.replicate 87 (.advance { uuid := "v" }) ++
    .start (.rollback (releaseName sampleSecond.request sampleSecond.artifact) none) ::
      List.replicate 15 (.advance { uuid := "w" })

/-- These moves, and the machine after them. -/
def run := replay (fun m machine => Serial.move (Call.code library) m machine)
  { shared := ({} : Disk) } moves

theorem run_history : History (fun m machine => Serial.move (Call.code library) m machine) NoDrift
    { shared := {} } run.1 run.2 := History.replay _ _

theorem run_end : run.2.shared.current = some (.stage "u") ∧
    run.2.shared.launchers.get? "/b" = some .managed := by
  decide +kernel

end Sample

end Pikamux.Update
