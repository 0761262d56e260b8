import Pikamux.Update.Activation

/-!
# Update — Staging

A release is prepared in a stage, which no link leads to, and renamed into place when it is complete.

* `Writes` — programs that change one stage and nothing else.
* `prepareRelease_writes` — a stage that was prepared holds the files of its request.
* `provideRelease_alone` — the release that was asked for is there, and nothing else changed.
-/

namespace Pikamux.Update

open Support Support.Program

section Staging

variable {lib : Library} {call : Call} {s t u : Disk} {uuid : String} {α β : Type}

/-! ### Programs that change one stage -/

/-- Started with `pre`, it changes nothing but the stage, and has `post` when it succeeds. -/
def Writes (lib : Library) (call : Call) (uuid : String) (pre : Disk → Prop) (post : α → Disk → Prop)
    (p : Action α) : Prop :=
  ∀ s, Sound lib s → s.current ≠ some (.stage uuid) → pre s →
    Alone (Guarantee lib call) (fun r t => Restaged (.stage uuid) s t ∧ ∀ a, r = .ok a → post a t) p s

variable {pre : Disk → Prop} {mid : α → Disk → Prop} {post : β → Disk → Prop} {p : Action α}
  {k : α → Action β}

theorem Writes.bind (hp : Writes lib call uuid pre mid p)
    (hk : ∀ a, Writes lib call uuid (mid a) post (k a)) : Writes lib call uuid pre post (p >>= k) := by
  intro s hs hcurrent hpre
  refine alone_bind _ (Guarantee.sounds (hp s hs hcurrent hpre) hs) ?_ ?_
  · rintro a t ⟨⟨hrestaged, hmid⟩, ht⟩
    rw [← hrestaged.current] at hcurrent
    exact (hk a t ht hcurrent (hmid a rfl)).mono fun _ _ hu => ⟨hrestaged.trans hu.1, hu.2⟩
  · rintro e t ⟨⟨hrestaged, -⟩, -⟩
    refine ⟨hrestaged, ?_⟩
    rintro _ ⟨⟩

theorem writes_look {f : Disk → Except UpdateError α} :
    Writes lib call uuid pre (fun a t => pre t ∧ f t = .ok a) (look f) := by
  intro s hs hcurrent hpre
  refine alone_inspect hs.self (fun a ha => ⟨.refl _ _, ?_⟩) fun e => ⟨.refl _ _, ?_⟩
  · rintro _ ⟨⟩
    exact ⟨hpre, ha⟩
  · rintro _ ⟨⟩

theorem writes_check {x : Except UpdateError α} :
    Writes lib call uuid pre (fun a t => pre t ∧ x = .ok a) (check x) :=
  fun _ _ _ hpre => ⟨.refl _ _, fun _ ha => ⟨hpre, ha⟩⟩

theorem writes_pure (mid : α → Disk → Prop) {a : α} :
    Writes lib call uuid (mid a) mid (pure a) := by
  refine fun s hs hcurrent hpre => ⟨.refl _ _, ?_⟩
  rintro _ ⟨⟩
  exact hpre

theorem writes_change (mid : α → Disk → Prop) {f : Chance → Disk → Except UpdateError (α × Disk)}
    (h : ∀ i s a t, pre s → f i s = .ok (a, t) → Restaged (.stage uuid) s t ∧ mid a t) :
    Writes lib call uuid pre mid (change f) := by
  intro s hs hcurrent hpre
  refine alone_operate hs.self (fun i a t ht => ?_) (fun e => ⟨.refl _ _, ?_⟩) fun i a t ht e =>
    ⟨(h i s a t hpre ht).1, ?_⟩
  · obtain ⟨hrestaged, hmid⟩ := h i s a t hpre ht
    refine ⟨hrestaged.guarantee hs hcurrent, hrestaged, ?_⟩
    rintro _ ⟨⟩
    exact hmid
  · rintro _ ⟨⟩
  · rintro _ ⟨⟩

theorem Writes.mono {post post' : α → Disk → Prop} (hp : Writes lib call uuid pre post p)
    (h : ∀ a t, post a t → post' a t) : Writes lib call uuid pre post' p :=
  fun s hs hcurrent hpre => (hp s hs hcurrent hpre).mono fun _ t ht => ⟨ht.1, fun a ha => h a t (ht.2 a ha)⟩

theorem writes_sync : Writes lib call uuid pre (fun _ => pre) sync := writes_look.mono fun _ _ h => h.1

theorem writes_secure : Writes lib call uuid pre (fun _ => pre) secure :=
  writes_look.mono fun _ _ h => h.1

/-! ### The files of a stage -/

/-- The stage holds these files and no others. -/
def Holds (uuid : String) (files : List (ReleaseFile × ByteArray)) (disk : Disk) : Prop :=
  ∃ dir, disk.release? (.stage uuid) = some dir ∧ ∀ file, dir.get? file = files.lookup file

/-- A file operation changes one directory. -/
theorem changeDirectory_eq_ok {name : ReleaseName} {f : Directory → Except UpdateError Directory}
    {r : Unit × Disk} (h : changeDirectory name f s = .ok r) :
    Restaged name s r.2 ∧ ∃ dir dir', s.release? name = some dir ∧ f dir = .ok dir' ∧
      r.2.release? name = some dir' := by
  obtain ⟨releases, hreleases, h⟩ := bind_eq_ok.mp h
  obtain ⟨dir, hdir, h⟩ := bind_eq_ok.mp h
  obtain ⟨dir', hf, h⟩ := bind_eq_ok.mp h
  rw [context_eq_ok] at hreleases hdir
  cases h
  refine ⟨⟨fun other hother => ?_, rfl, rfl⟩, dir, dir', ?_, hf, ?_⟩
  · simp [Disk.release?, hreleases, Table.get?_modify, hother]
  · simp [Disk.release?, hreleases, hdir]
  · simp [Disk.release?, Table.get?_modify, hdir]

theorem lookup_append_singleton {κ γ : Type} [DecidableEq κ] {rows : List (κ × γ)} {key : κ}
    {value : γ} (h : rows.lookup key = none) (other : κ) :
    (rows ++ [(key, value)]).lookup other = if other = key then some value else rows.lookup other := by
  rw [List.lookup_append, List.lookup_cons, List.lookup_nil]
  by_cases heq : other = key
  · simp [heq, h]
  · have hne : (other == key) = false := by simpa using heq
    simp [heq, hne]

/-- A file that is there gets another content. -/
theorem changeDirectory_fill {files : List (ReleaseFile × ByteArray)} {file : ReleaseFile}
    {old new : ByteArray} {r : Unit × Disk} (hnew : files.lookup file = none)
    (hs : Holds uuid (files ++ [(file, old)]) s)
    (h : changeDirectory (.stage uuid) (fun dir => .ok (dir.modify file fun _ => new)) s = .ok r) :
    Restaged (.stage uuid) s r.2 ∧ Holds uuid (files ++ [(file, new)]) r.2 := by
  obtain ⟨hrestaged, dir, dir', hdir, hf, hdir'⟩ := changeDirectory_eq_ok h
  obtain ⟨_, hdir₀, hfiles⟩ := hs
  rw [hdir] at hdir₀
  cases hdir₀
  cases hf
  refine ⟨hrestaged, _, hdir', fun other => ?_⟩
  rw [Table.get?_modify, hfiles, lookup_append_singleton hnew, lookup_append_singleton hnew]
  split <;> rfl

/-- A file is created, then filled. -/
theorem writeNewFile_writes {files : List (ReleaseFile × ByteArray)} (file : ReleaseFile)
    (bytes : ByteArray) : Writes lib call uuid (Holds uuid files)
      (fun _ => Holds uuid (files ++ [(file, bytes)])) (writeNewFile (.stage uuid) file bytes) := by
  refine (writes_change (fun _ t => files.lookup file = none ∧
    Holds uuid (files ++ [(file, ByteArray.empty)]) t) ?_).bind fun _ => ?_
  · intro i s a t hs h
    obtain ⟨hrestaged, dir, dir', hdir, hinsert, hdir'⟩ := changeDirectory_eq_ok h
    obtain ⟨_, hdir₀, hfiles⟩ := hs
    rw [hdir] at hdir₀
    cases hdir₀
    rw [context_eq_ok] at hinsert
    have hnew : files.lookup file = none := by
      rw [← hfiles]
      exact (Table.insert?_eq_some.mp hinsert).1
    refine ⟨hrestaged, hnew, _, hdir', fun other => ?_⟩
    rw [Table.get?_insert? hinsert, lookup_append_singleton hnew, hfiles]
  refine (writes_change (fun _ t => files.lookup file = none ∧
    ∃ written, Holds uuid (files ++ [(file, written)]) t) ?_).bind fun _ => ?_
  · rintro i s a t ⟨hnew, hs⟩ h
    obtain ⟨hrestaged, hholds⟩ := changeDirectory_fill hnew hs h
    exact ⟨hrestaged, hnew, _, hholds⟩
  refine (writes_change _ ?_).bind fun _ => writes_sync
  rintro i s a t ⟨hnew, written, hs⟩ h
  exact changeDirectory_fill hnew hs h

theorem writeNewFiles_writes {files : List (ReleaseFile × ByteArray)}
    (rest : List (ReleaseFile × ByteArray)) : Writes lib call uuid (Holds uuid files)
      (fun _ => Holds uuid (files ++ rest)) (writeNewFiles (.stage uuid) rest) := by
  induction rest generalizing files with
  | nil =>
      rw [List.append_nil]
      exact writes_pure fun _ => Holds uuid files
  | cons row rest ih =>
      refine (writeNewFile_writes row.1 row.2).bind fun _ => ?_
      have hfiles : files ++ row :: rest = files ++ [(row.1, row.2)] ++ rest := by simp
      rw [hfiles]
      exact ih

/-- A stage that was prepared holds the files of its request, and its executable answered for its
version. -/
theorem prepareRelease_writes (request : InstallRequest) (verified : Verified) :
    Writes lib call uuid (Holds uuid [])
      (fun _ t => Holds uuid (preparedFiles lib request verified.artifact verified.extracted) t ∧
        validateCandidate lib verified.extracted.pika request.manifest.version = .ok ())
      (prepareRelease lib (.stage uuid) request verified) := by
  refine writes_secure.bind fun _ => ?_
  refine (writeNewFile_writes .pika verified.extracted.pika).bind fun _ => ?_
  refine writes_check.bind fun _ => ?_
  intro s hs hcurrent ⟨hholds, hcandidate⟩
  have hfiles : Writes lib call uuid (Holds uuid [(.pika, verified.extracted.pika)])
      (fun _ => Holds uuid (preparedFiles lib request verified.artifact verified.extracted))
      (do
        writeNewFiles (.stage uuid)
          (preparedFiles lib request verified.artifact verified.extracted).tail
        sync
        sync
        sync) :=
    (writeNewFiles_writes _).bind fun _ => writes_sync.bind fun _ => writes_sync.bind fun _ => writes_sync
  exact (hfiles.mono fun _ _ ht => ⟨ht, hcandidate⟩) s hs hcurrent hholds

/-- A stage is given up: its files are removed, then it. -/
theorem removeFiles_writes {files : List ReleaseFile} :
    Writes lib call uuid (fun _ => True) (fun _ _ => True) (removeFiles (.stage uuid) files) := by
  induction files with
  | nil =>
      refine writes_change _ ?_
      intro i s a t _ h
      obtain ⟨releases, hreleases, h⟩ := bind_eq_ok.mp h
      obtain ⟨dir, hdir, h⟩ := bind_eq_ok.mp h
      obtain ⟨_, -, h⟩ := bind_eq_ok.mp h
      rw [context_eq_ok] at hreleases
      cases h
      refine ⟨⟨fun name hname => ?_, rfl, rfl⟩, trivial⟩
      simp only [Disk.release?, hreleases, Option.bind_some]
      exact Table.get?_congr fun d => by simp [Table.get?_delete, hname]
  | cons file files ih =>
      refine (writes_change (fun _ _ => True) ?_).bind fun _ => ih
      intro i s a t _ h
      exact ⟨(changeDirectory_eq_ok h).1, trivial⟩

theorem removeDirAll_writes :
    Writes lib call uuid (fun _ => True) (fun _ _ => True) (removeDirAll (.stage uuid)) :=
  (writes_look.mono fun _ _ _ => trivial).bind fun _ => removeFiles_writes

/-! ### The release that is asked for -/

/-- The release of this request is in place; nothing that was in place changed. -/
structure Provided (lib : Library) (request : InstallRequest) (name : ReleaseName) (s t : Disk) :
    Prop where
  kept : Kept s t
  current : t.current = s.current
  launchers : t.launchers = s.launchers
  release : ∃ dir, t.release? name = some dir ∧ Prepared lib dir ∧
    recordedVersion lib dir = (parseVersion request.manifest.version).toOption

/-- The receipt that is written says which version it is. -/
theorem recordedVersion_of_receipt {dir : Directory} {receipt : InstallReceipt}
    (h : readReceiptOf lib dir = .ok receipt) :
    recordedVersion lib dir = (parseVersion receipt.version).toOption := by
  obtain ⟨bytes, hbytes, hread⟩ := bind_eq_ok.mp h
  obtain ⟨bytes', hfile, hbytes⟩ := bind_eq_ok.mp hbytes
  obtain ⟨_, -, hbytes⟩ := bind_eq_ok.mp hbytes
  obtain ⟨bytes'', hbounded, hbytes⟩ := bind_eq_ok.mp hbytes
  obtain ⟨_, -, hbytes⟩ := bind_eq_ok.mp hbytes
  rw [pure_eq_ok] at hbytes
  rw [context_eq_ok] at hbounded
  cases hbytes
  simp [recordedVersion, hbounded, hread, Except.toOption]

theorem recordedVersion_of_prepared {dir : Directory} {request : InstallRequest} {verified : Verified}
    (hlib : lib.Faithful) (hdir : ∀ file, dir.get? file =
      (preparedFiles lib request verified.artifact verified.extracted).lookup file) :
    recordedVersion lib dir = (parseVersion request.manifest.version).toOption := by
  have hreceipt : dir.get? .receipt =
      some (lib.printReceipt (receiptFor lib request verified.artifact)) := (hdir .receipt).trans rfl
  simp [recordedVersion, hreceipt, hlib.printed, Except.toOption, receiptFor]

theorem createLeaf_eq_ok {r : Unit × Disk} (h : createLeaf (.stage uuid) s = .ok r) :
    s.release? (.stage uuid) = none ∧ Restaged (.stage uuid) s r.2 ∧ Holds uuid [] r.2 := by
  obtain ⟨releases, hreleases, h⟩ := bind_eq_ok.mp h
  obtain ⟨releases', hinsert, h⟩ := bind_eq_ok.mp h
  rw [context_eq_ok] at hreleases hinsert
  cases h
  have hget := Table.get?_insert? hinsert
  refine ⟨?_, ⟨fun name hname => ?_, rfl, rfl⟩, ∅, ?_, fun _ => rfl⟩
  · simp [Disk.release?, hreleases, (Table.insert?_eq_some.mp hinsert).1]
  · simp [Disk.release?, hreleases, hget, hname]
  · simp [Disk.release?, hget]

/-- A stage that was renamed is a release. -/
theorem renameStage_eq_ok {name : String} {dir : Directory} {r : Unit × Disk}
    (hdir : s.release? (.stage uuid) = some dir)
    (h : renameStage (.stage uuid) (.release name) s = .ok r) :
    s.release? (.release name) = none ∧
      (∀ other, r.2.release? other = if other = .release name then some dir
        else if other = .stage uuid then none else s.release? other) ∧
      r.2.current = s.current ∧ r.2.launchers = s.launchers := by
  obtain ⟨releases, hreleases, h⟩ := bind_eq_ok.mp h
  obtain ⟨dir', hdir', h⟩ := bind_eq_ok.mp h
  obtain ⟨releases', hinsert, h⟩ := bind_eq_ok.mp h
  rw [context_eq_ok] at hreleases hdir' hinsert
  cases h
  simp only [Disk.release?, hreleases, Option.bind_some] at hdir ⊢
  rw [hdir] at hdir'
  cases hdir'
  have hothers (other : ReleaseName) (hother : other ≠ .stage uuid) :
      (releases.delete fun other _ => other = ReleaseName.stage uuid).get? other =
        releases.get? other :=
    Table.get?_congr fun d => by simp [Table.get?_delete, hother]
  refine ⟨?_, fun other => ?_, trivial, trivial⟩
  · rw [← hothers _ (by simp)]
    exact (Table.insert?_eq_some.mp hinsert).1
  · rw [Table.get?_insert? hinsert]
    split
    · rfl
    · split
      · rename_i heq
        subst heq
        rw [Option.eq_none_iff_forall_ne_some]
        intro d hd
        simp [Table.get?_delete] at hd
      · rename_i hother
        exact hothers other hother

/-- Renaming a stage that was prepared adds a release. -/
theorem renameStage_guarantee {name : String} {dir : Directory} {r : Unit × Disk} (call : Call)
    (hs : Sound lib s)
    (hcurrent : s.current ≠ some (.stage uuid)) (hdir : s.release? (.stage uuid) = some dir)
    (hprepared : Prepared lib dir) (h : renameStage (.stage uuid) (.release name) s = .ok r) :
    Guarantee lib call s r.2 := by
  obtain ⟨hnew, hrelease, hcur, hlaunchers⟩ := renameStage_eq_ok hdir h
  -- What is current is neither the stage nor the new release.
  have hothers (other : ReleaseName) (d : Directory) (hd : s.release? other = some d)
      (hother : (∃ text, other = .release text) ∨ s.current = some other) :
      r.2.release? other = some d := by
    have hname : other ≠ .release name := by
      rintro rfl
      rw [hnew] at hd
      cases hd
    have hstage : other ≠ .stage uuid := by
      rintro rfl
      rcases hother with ⟨_, ⟨⟩⟩ | hother
      exact hcurrent hother
    rw [hrelease, if_neg hname, if_neg hstage, hd]
  refine ⟨⟨fun other d hd => ?_, fun other hother => ?_, fun binDir hbin => ?_⟩, hothers, .inl hcur⟩
  · rw [hrelease] at hd
    split at hd
    · cases hd
      exact hprepared
    · rw [if_neg (by simp)] at hd
      exact hs.releases other d hd
  · rw [hcur] at hother
    obtain ⟨d, hd, hverified⟩ := hs.current other hother
    exact ⟨d, hothers other d hd (.inr hother), hverified⟩
  · rw [hcur]
    exact hs.launchers binDir (hlaunchers ▸ hbin)

theorem Sound.current_ne {name : ReleaseName} (hs : Sound lib s) (h : s.release? name = none) :
    s.current ≠ some name := by
  intro hcurrent
  obtain ⟨dir, hdir, -⟩ := hs.current name hcurrent
  rw [h] at hdir
  cases hdir

theorem Provided.after {request : InstallRequest} {name : ReleaseName}
    (h : Provided lib request name t u) (hrestaged : Restaged (.stage uuid) s t)
    (hcurrent : s.current ≠ some (.stage uuid)) : Provided lib request name s u where
  kept other dir hdir hother := by
    have hne : other ≠ .stage uuid := by
      rintro rfl
      rcases hother with ⟨_, ⟨⟩⟩ | hother
      exact hcurrent hother
    refine h.kept other dir ((hrestaged.others other hne).trans hdir) ?_
    rwa [hrestaged.current]
  current := h.current.trans hrestaged.current
  launchers := h.launchers.trans hrestaged.launchers
  release := h.release

theorem Provided.calm {request : InstallRequest} {name : ReleaseName}
    (h : Provided lib request name s t) (hcalm : Calm t u) : Provided lib request name s u where
  kept other dir hdir hother := (hcalm.release? other).trans (h.kept other dir hdir hother)
  current := hcalm.current.trans h.current
  launchers := hcalm.launchers.trans h.launchers
  release := by
    obtain ⟨dir, hdir, h⟩ := h.release
    exact ⟨dir, (hcalm.release? name).trans hdir, h⟩

/-- A stage is prepared, then renamed; when either fails it is given up. -/
theorem prepareAndRename_alone {request : InstallRequest} {verified : Verified} {name : String}
    (hlib : lib.Faithful) (hs : Sound lib s) (hverified : verifyRequest lib request = .ok verified)
    (hcurrent : s.current ≠ some (.stage uuid)) (hholds : Holds uuid [] s) :
    Alone (Guarantee lib call)
      (fun r t => ∀ release, r = .ok release → Provided lib request release s t)
      (do
        onError (prepareRelease lib (.stage uuid) request verified) (removeDirAll (.stage uuid))
        onError (change fun _ => renameStage (.stage uuid) (.release name))
          (removeDirAll (.stage uuid))
        sync
        return ReleaseName.release name) s := by
  have hgiveUp {γ : Type} (t : Disk) (ht : Sound lib t) (htc : t.current ≠ some (.stage uuid)) (e : UpdateError)
      {P : γ → Disk → Prop} : Alone (Guarantee lib call)
        (fun _ u => ∀ a, (Except.error e : Except UpdateError γ) = .ok a → P a u)
        (removeDirAll (.stage uuid)) t := by
    refine (removeDirAll_writes t ht htc trivial).mono fun _ u _ => ?_
    rintro _ ⟨⟩
  refine alone_bind (fun r t => ∀ a, r = .ok a → Sound lib t ∧ Restaged (.stage uuid) s t ∧
    ∃ dir, t.release? (.stage uuid) = some dir ∧ Prepared lib dir ∧
      recordedVersion lib dir = (parseVersion request.manifest.version).toOption)
    (alone_onError _ (Guarantee.sounds (prepareRelease_writes request verified s hs hcurrent hholds) hs)
      ?_ ?_) ?_ ?_
  · rintro a t ⟨⟨hrestaged, hpost⟩, ht⟩ _ -
    obtain ⟨⟨dir, hdir, hfiles⟩, hcandidate⟩ := hpost a rfl
    exact ⟨ht, hrestaged, dir, hdir, ⟨request, verified, hverified, hcandidate, hfiles⟩,
      recordedVersion_of_prepared hlib hfiles⟩
  · rintro e t ⟨⟨hrestaged, -⟩, ht⟩
    exact hgiveUp t ht (hrestaged.current ▸ hcurrent) e
  · rintro a t h
    obtain ⟨ht, hrestaged, dir, hdir, hprepared, hversion⟩ := h a rfl
    have hcurrent' : t.current ≠ some (.stage uuid) := hrestaged.current ▸ hcurrent
    have hrenamed (r : Unit × Disk) (h : renameStage (.stage uuid) (.release name) t = .ok r) :
        Guarantee lib call t r.2 ∧ r.2.current ≠ some (.stage uuid) ∧
          Provided lib request (.release name) s r.2 := by
      have hguar := renameStage_guarantee call ht hcurrent' hdir hprepared h
      obtain ⟨-, hrelease, hcur, hlaunchers⟩ := renameStage_eq_ok hdir h
      have hprovided : Provided lib request (.release name) t r.2 :=
        ⟨hguar.kept, hcur, hlaunchers, dir, (hrelease _).trans (if_pos rfl), hprepared, hversion⟩
      exact ⟨hguar, hcur ▸ hcurrent', hprovided.after hrestaged hcurrent⟩
    refine alone_bind (fun r u => ∀ a, r = .ok a → Sound lib u ∧
      Provided lib request (.release name) s u) (alone_onError (fun r u => Sound lib u ∧
        u.current ≠ some (.stage uuid) ∧ ∀ a, r = .ok a → Provided lib request (.release name) s u)
        (alone_operate ht.self ?_ ?_ ?_) ?_ ?_) ?_ ?_
    · intro i a u h
      obtain ⟨hguar, hne, hprovided⟩ := hrenamed _ h
      exact ⟨hguar, hguar.sound, hne, fun _ _ => hprovided⟩
    · refine fun e => ⟨ht, hcurrent', ?_⟩
      rintro _ ⟨⟩
    · intro i a u h e
      obtain ⟨hguar, hne, -⟩ := hrenamed _ h
      refine ⟨hguar.sound, hne, ?_⟩
      rintro _ ⟨⟩
    · rintro a u ⟨hu, -, hprovided⟩ b -
      exact ⟨hu, hprovided a rfl⟩
    · rintro e u ⟨hu, hne, -⟩
      exact hgiveUp u hu hne e
    · rintro a u h
      obtain ⟨hu, hprovided⟩ := h a rfl
      refine quiet_sync.followed hu (fun _ v hv _ => ?_) ?_
      · rintro _ ⟨⟩
        exact hprovided.calm hv
      · rintro e v _ _ ⟨⟩
    · rintro e u - _ ⟨⟩
  · rintro e t -
    rintro _ ⟨⟩

/-- The release that is asked for is there, and nothing else changed. -/
theorem provideRelease_alone {request : InstallRequest} {verified : Verified} (hlib : lib.Faithful)
    (hs : Sound lib s) (hverified : verifyRequest lib request = .ok verified) :
    Alone (Guarantee lib call) (fun r t => ∀ name, r = .ok name → Provided lib request name s t)
      (provideRelease lib request verified) s := by
  refine look_bind hs (fun existing hexisting => ?_) ?_
  swap
  · rintro e _ ⟨⟩
  cases hexisting
  split
  · rename_i dir hdir
    refine look_bind hs (fun _ hvalid => ?_) ?_
    swap
    · rintro e _ ⟨⟩
    rintro _ ⟨⟩
    obtain ⟨receipt, hreceipt, hvalid⟩ := bind_eq_ok.mp hvalid
    obtain ⟨_, hsame, -⟩ := bind_eq_ok.mp hvalid
    rw [ensure_eq_ok, decide_eq_true_iff] at hsame
    refine ⟨fun _ _ hd _ => hd, rfl, rfl, dir, hdir, hs.releases _ dir hdir, ?_⟩
    rw [recordedVersion_of_receipt hreceipt, hsame, receiptFor]
  · refine alone_bind (fun r t => Sound lib t ∧ ∀ stage, r = .ok stage → ∃ uuid,
      stage = .stage uuid ∧ s.current ≠ some (.stage uuid) ∧ Restaged (.stage uuid) s t ∧
      Holds uuid [] t) (alone_operate hs.self ?_ ?_ ?_) ?_ ?_
    · intro i stage t h
      obtain ⟨created, hcreate, h⟩ := bind_eq_ok.mp h
      cases h
      obtain ⟨hnone, hrestaged, hholds⟩ := createLeaf_eq_ok hcreate
      have hcurrent : s.current ≠ some (.stage i.uuid) := hs.current_ne hnone
      have hguar : Guarantee lib call s created.2 := hrestaged.guarantee hs hcurrent
      refine ⟨hguar, hguar.sound, ?_⟩
      rintro _ ⟨⟩
      exact ⟨i.uuid, rfl, hcurrent, hrestaged, hholds⟩
    · refine fun e => ⟨hs, ?_⟩
      rintro _ ⟨⟩
    · intro i stage t h e
      obtain ⟨created, hcreate, h⟩ := bind_eq_ok.mp h
      cases h
      obtain ⟨hnone, hrestaged, -⟩ := createLeaf_eq_ok hcreate
      have hguar : Guarantee lib call s created.2 := hrestaged.guarantee hs (hs.current_ne hnone)
      refine ⟨hguar.sound, ?_⟩
      rintro _ ⟨⟩
    · rintro stage t ⟨ht, hstage⟩
      obtain ⟨uuid, rfl, hcurrent, hrestaged, hholds⟩ := hstage stage rfl
      exact (prepareAndRename_alone hlib ht hverified (hrestaged.current ▸ hcurrent) hholds).mono
        fun r u hu name hname => (hu name hname).after hrestaged hcurrent
    · rintro e t -
      rintro _ ⟨⟩

end Staging

end Pikamux.Update
