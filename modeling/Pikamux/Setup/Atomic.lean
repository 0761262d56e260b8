import Mathlib
import Pikamux.Setup.Changes

/-!
# Setup — Atomic

When a batch of file changes is applied completely or not at all.  Each pass ends at the first
change that fails in it, and each way it ends says which files are left.

* `StagingEnds` — staging that stops at a change that cannot be prepared removes nothing.
* `BackingUpEnds` — a batch that cannot be backed up is undone.
* `ReplacingEnds` — a batch that cannot be replaced is restored, but for targets without a backup.
* `apply_changes_complete` — the exact condition.
-/

namespace Pikamux.Setup

open Support Processes

/-! ### Names -/

section Names

variable {env : Env} {stamp : String} {path other : Path} {name : String} {x y : Item}

theorem withFileName_last (path : Path) (name : String) :
    (withFileName path name).getLast? = some (.normal name) := by
  unfold withFileName
  split <;> simp

theorem withFileName_name {name' : String}
    (h : withFileName path name = withFileName other name') : name = name' := by
  have hlast := congrArg List.getLast? h
  rw [withFileName_last, withFileName_last] at hlast
  cases hlast
  rfl

theorem withFileName_parent {name' : String} (hpath : (lastName path).isSome = true)
    (hother : (lastName other).isSome = true)
    (h : withFileName path name = withFileName other name') : path.dropLast = other.dropLast := by
  rw [withFileName, withFileName, if_pos hpath, if_pos hother] at h
  have hdrop := congrArg List.dropLast h
  simpa using hdrop

/-- A path with a name is its parent and the name. -/
theorem eq_of_lastName (h : lastName path = some name) :
    path = path.dropLast ++ [.normal name] := by
  unfold lastName at h
  split at h
  case h_1 found hlast =>
    cases h
    exact (List.dropLast_append_getLast? _ hlast).symm
  case h_2 => cases h

theorem digits_no_dot (n : Nat) : '.' ∉ (toString n).toList := by
  intro hm
  have hdigit : '.'.isDigit = true := by
    refine Nat.isDigit_of_mem_toDigits (b := 10) (n := n) (by decide) (by decide) ?_
    simpa [toString, Nat.repr] using hm
  revert hdigit
  decide

theorem stamp_no_dot {u : Unit} (h : validateStamp stamp = .ok u) : '.' ∉ stamp.toList := by
  intro hm
  have hall := ensure_eq_ok.mp h
  rw [Bool.and_eq_true] at hall
  have hdot := List.all_eq_true.mp hall.2 '.' hm
  revert hdot
  decide

/-- What stands before the first point. -/
theorem takeWhile_dot {a b : List Char} (h : '.' ∉ a) :
    (a ++ '.' :: b).takeWhile (fun c => c != '.') = a := by
  rw [List.takeWhile_append_of_pos]
  · simp
  · intro c hc
    have hne : c ≠ '.' := fun e => h (e ▸ hc)
    simpa using hne

/-- Texts that are equal are so before and after their last points. -/
theorem eq_of_last_dot {a b c d : List Char} (hb : '.' ∉ b) (hd : '.' ∉ d)
    (h : a ++ '.' :: b = c ++ '.' :: d) : a = c ∧ b = d := by
  have hreverse := congrArg List.reverse h
  simp only [List.reverse_append, List.reverse_cons, List.append_assoc, List.singleton_append]
    at hreverse
  have hlast : b.reverse = d.reverse := by
    have htake := congrArg (List.takeWhile fun ch => ch != '.') hreverse
    rwa [takeWhile_dot (by simpa using hb), takeWhile_dot (by simpa using hd)] at htake
  have hends : b = d := List.reverse_injective hlast
  subst hends
  refine ⟨?_, rfl⟩
  exact List.append_cancel_right h

theorem temporaryName_toList (processId index : Nat) :
    (temporaryName processId name index).toList =
      ('.' :: name.toList ++ '.' :: (toString processId).toList ++
        '.' :: (toString index).toList) ++ (".tmp" : String).toList := by
  simp [temporaryName, String.toList_append]

theorem backupName_toList (stamp name : String) (attempt : Nat) : ∃ suffix : List Char,
    '.' ∉ suffix ∧ (backupName stamp name attempt).toList =
      name.toList ++ '.' :: ("pika-backup-".toList ++ stamp.toList ++ suffix) := by
  unfold backupName
  split
  · exact ⟨[], List.not_mem_nil, by simp [String.toList_append]⟩
  · refine ⟨'-' :: (toString attempt).toList, ?_, by simp [String.toList_append]⟩
    intro hm
    rcases List.mem_cons.mp hm with h | h
    · revert h
      decide
    · exact digits_no_dot attempt h

/-- Changes at different places are staged under different names. -/
theorem temporary_inj (h : env.temporary x = env.temporary y) : x.2 = y.2 := by
  have hname := congrArg String.toList (withFileName_name h)
  rw [temporaryName_toList, temporaryName_toList] at hname
  have hindex := (eq_of_last_dot (digits_no_dot x.2) (digits_no_dot y.2)
    (List.append_cancel_right hname)).2
  exact Nat.repr_inj.mp (String.toList_injective hindex)

/-- Different targets have different names for their backups. -/
theorem backupPath_inj (hstamp : '.' ∉ stamp.toList) {k l : Nat}
    (hpath : (lastName path).isSome = true) (hother : (lastName other).isSome = true)
    (h : backupPath stamp path k = backupPath stamp other l) : path = other := by
  obtain ⟨name, hname⟩ := Option.isSome_iff_exists.mp hpath
  obtain ⟨name', hname'⟩ := Option.isSome_iff_exists.mp hother
  have hparent := withFileName_parent hpath hother h
  have heq := congrArg String.toList (withFileName_name h)
  rw [hname, hname', Option.getD_some, Option.getD_some] at heq
  obtain ⟨suffix, hsuffix, htext⟩ := backupName_toList stamp name k
  obtain ⟨suffix', hsuffix', htext'⟩ := backupName_toList stamp name' l
  have hfree : ∀ suffix : List Char, '.' ∉ suffix →
      '.' ∉ "pika-backup-".toList ++ stamp.toList ++ suffix := by
    intro suffix hsuffix hm
    rcases List.mem_append.mp hm with hm | hm
    · rcases List.mem_append.mp hm with hm | hm
      · revert hm
        decide
      · exact hstamp hm
    · exact hsuffix hm
  rw [htext, htext'] at heq
  have hnames := (eq_of_last_dot (hfree suffix hsuffix) (hfree suffix' hsuffix') heq).1
  rw [eq_of_lastName hname, eq_of_lastName hname', hparent, String.toList_injective hnames]

/-- Different attempts have different names. -/
theorem backupPath_attempt {k l : Nat} (hk : 1 ≤ k) (hl : 1 ≤ l)
    (h : backupPath stamp path k = backupPath stamp path l) : k = l := by
  have hname := withFileName_name h
  have hsuffix : (if k ≤ 1 then "" else "-" ++ toString k) =
      (if l ≤ 1 then "" else "-" ++ toString l) := by
    have heq := congrArg String.toList hname
    simp only [backupName, String.toList_append] at heq
    exact String.toList_injective (List.append_cancel_left heq)
  have hdash : ∀ n : Nat, ("-" ++ toString n) ≠ "" := by
    intro n h
    have hlength := congrArg String.length h
    simp at hlength
  split at hsuffix
  case isTrue hk' =>
    split at hsuffix
    case isTrue hl' => omega
    case isFalse => exact absurd hsuffix.symm (hdash l)
  case isFalse =>
    split at hsuffix
    case isTrue => exact absurd hsuffix (hdash k)
    case isFalse =>
      have heq := congrArg String.toList hsuffix
      rw [String.toList_append, String.toList_append] at heq
      exact Nat.repr_inj.mp (String.toList_injective (List.append_cancel_left heq))

end Names

/-! ### Backups -/

section Backups

variable {env : Env} {stamp : String} {files : Files} {item : Item}

theorem freeBackup_free (htrue : ∀ i k, env.fails (.presentBackup i k) = false) {path : Path} :
    ∀ {fuel attempt : Nat}, freeBackup env stamp files item fuel attempt = some path →
      (∃ k, path = backupPath stamp item.1.path k) ∧ files.get? path = none := by
  intro fuel
  induction fuel with
  | zero =>
      intro attempt h
      cases h
  | succ fuel ih =>
      intro attempt h
      rw [freeBackup, htrue, Bool.not_false, Bool.and_true] at h
      split at h
      case isTrue => exact ih h
      case isFalse hfree =>
        cases h
        exact ⟨⟨attempt, rfl⟩, by simpa [Table.contains] using hfree⟩

/-- Names that are all taken are those of different files. -/
theorem freeBackup_taken : ∀ {fuel attempt : Nat}, 1 ≤ attempt →
    freeBackup env stamp files item fuel attempt = none → ∀ k, attempt ≤ k → k < attempt + fuel →
      backupPath stamp item.1.path k ∈ files.rows.map Prod.fst := by
  intro fuel
  induction fuel with
  | zero =>
      intro attempt _ _ k hk hlt
      omega
  | succ fuel ih =>
      intro attempt hattempt h k hk hlt
      rw [freeBackup] at h
      split at h
      case isTrue htaken =>
        by_cases e : k = attempt
        · obtain ⟨content, hget⟩ :=
            Option.isSome_iff_exists.mp (Bool.and_eq_true_iff.mp htaken).1
          exact e ▸ List.mem_map_of_mem (Table.mem_rows_iff.mpr hget)
        · exact ih (Nat.le_succ_of_le hattempt) h k (by omega) (by omega)
      case isFalse => cases h

/-- The loop ends: there are more names than files. -/
theorem freeBackup_ends :
    freeBackup env stamp files item (files.rows.length + 1) 1 ≠ none := by
  intro h
  have htaken := freeBackup_taken (Nat.le_refl 1) h
  have hnodup : ((List.range' 1 (files.rows.length + 1)).map
      (backupPath stamp item.1.path)).Nodup := by
    refine List.Nodup.map_on ?_ List.nodup_range'
    intro k hk l hl heq
    exact backupPath_attempt (List.mem_range'_1.mp hk).1 (List.mem_range'_1.mp hl).1 heq
  have hsub : (List.range' 1 (files.rows.length + 1)).map (backupPath stamp item.1.path) ⊆
      files.rows.map Prod.fst := by
    intro path hpath
    obtain ⟨k, hk, rfl⟩ := List.mem_map.mp hpath
    obtain ⟨hle, hlt⟩ := List.mem_range'_1.mp hk
    exact htaken k hle hlt
  have hlength := (List.subperm_of_subset hnodup hsub).length_le
  simp at hlength

/-- A copy gets a name of its own, or fails and leaves something under it. -/
theorem backUp_cases (stamp : String) (item : Item) (files : Files)
    (htrue : ∀ i k, env.fails (.presentBackup i k) = false) (content : String) :
    ∃ path, (∃ k, path = backupPath stamp item.1.path k) ∧ files.get? path = none ∧
      (env.fails (.copy item.2) = false →
        backUp env stamp item content files = .ok (path, files.upsert path content)) ∧
      (env.fails (.copy item.2) = true → ∃ e next,
        backUp env stamp item content files = .error (e, next) ∧
          ∀ q, q ≠ path → next.get? q = files.get? q) := by
  cases hfree : freeBackup env stamp files item (files.rows.length + 1) 1 with
  | none => exact absurd hfree freeBackup_ends
  | some path =>
      obtain ⟨hname, hnone⟩ := freeBackup_free htrue hfree
      refine ⟨path, hname, hnone, fun hcopy => ?_, fun hcopy => ?_⟩
      · simp only [backUp, hfree, hcopy]
        rfl
      · refine ⟨.failed (.copy item.2), (env.leaves item.2).elim files (files.upsert path), ?_, ?_⟩
        · simp only [backUp, hfree, hcopy]
          rfl
        · intro q hq
          cases env.leaves item.2 with
          | none => rfl
          | some content =>
              rw [Option.elim_some, Table.get?_upsert, if_neg hq]

end Backups

/-! ### Undoing -/

section Undoing

variable {files before : Files} {backups : List (Path × Path)}

theorem get_removeAll (paths : List Path) (files : Files) (q : Path) :
    (removeAll paths files).get? q = if q ∈ paths then none else files.get? q := by
  induction paths generalizing files with
  | nil => simp [removeAll]
  | cons path rest ih =>
      have hrun : removeAll (path :: rest) files = removeAll rest (files.erase path) := rfl
      rw [hrun, ih, Table.get?_erase]
      by_cases hq : q = path
      · simp [hq]
      · simp [hq]

/-- The backups hold what their targets held, and none of them is a target. -/
structure Saves (before files : Files) (targets : List Path) (backups : List (Path × Path)) :
    Prop where
  content : ∀ b ∈ backups, files.get? b.2 = before.get? b.1
  stored : ∀ b ∈ backups, (before.get? b.1).isSome = true
  apart : ∀ b ∈ backups, b.2 ∉ targets

/-- What a target goes back to. -/
def restored (before : Files) (backups : List (Path × Path)) (path : Path) : Option String :=
  if backups.any fun b => b.1 = path then before.get? path else none

theorem get_restore {targets : List Path} (h : Saves before files targets backups) (path q : Path) :
    (restore backups files path).get? q =
      if q = path then restored before backups path else files.get? q := by
  unfold restore restored
  cases hfind : backups.find? fun b => b.1 = path with
  | none =>
      have hany : (backups.any fun b => b.1 = path) = false := by
        rw [List.find?_eq_none] at hfind
        simpa using hfind
      rw [hany]
      exact Table.get?_erase files path q
  | some found =>
      obtain ⟨target, backup⟩ := found
      have hm := List.mem_of_find?_eq_some hfind
      have htarget : target = path := by simpa using List.find?_some hfind
      have hany : (backups.any fun b => b.1 = path) = true :=
        List.any_eq_true.mpr ⟨_, hm, by simpa using htarget⟩
      obtain ⟨content, hcontent⟩ := Option.isSome_iff_exists.mp (h.stored _ hm)
      have hbackup : files.get? backup = some content := (h.content _ hm).trans hcontent
      rw [hany, if_pos rfl, ← htarget, hcontent]
      simp only [hbackup]
      exact Table.get?_upsert files target content q

theorem Saves.restore {targets : List Path} (h : Saves before files targets backups) {path : Path}
    (hpath : path ∈ targets) : Saves before (restore backups files path) targets backups where
  content b hb := by
    rw [get_restore h, if_neg, h.content b hb]
    rintro rfl
    exact h.apart b hb hpath
  stored := h.stored
  apart := h.apart

theorem get_restoreWritten {targets written : List Path} (h : Saves before files targets backups)
    (hwritten : ∀ path ∈ written, path ∈ targets) (q : Path) :
    (restoreWritten written backups files).get? q =
      if q ∈ written then restored before backups q else files.get? q := by
  have hloop : ∀ (paths : List Path) (files : Files), Saves before files targets backups →
      (∀ path ∈ paths, path ∈ targets) → (loop paths files (restore backups)).get? q =
        if q ∈ paths then restored before backups q else files.get? q := by
    intro paths
    induction paths with
    | nil => intro files _ _; simp
    | cons path rest ih =>
        intro files h hpaths
        have hnext := h.restore (hpaths path List.mem_cons_self)
        have hrun := ih _ hnext fun other hother => hpaths other (List.mem_cons_of_mem _ hother)
        refine hrun.trans ?_
        rw [get_restore h]
        by_cases hq : q = path
        · simp [hq]
        · simp [hq]
  have hreverse : ∀ path ∈ written.reverse, path ∈ targets :=
    fun path hpath => hwritten path (List.mem_reverse.mp hpath)
  rw [restoreWritten, hloop _ files h hreverse]
  simp

end Undoing

/-! ### Staging -/

/-- In a list whose keys differ, an element has another key than the others. -/
theorem ne_of_nodup {α β : Type} {f : α → β} {done rest : List α} {item : α}
    (h : ((done ++ item :: rest).map f).Nodup) : ∀ x, x ∈ done ∨ x ∈ rest → f x ≠ f item := by
  rw [List.map_append, List.map_cons] at h
  obtain ⟨-, hrest, hapart⟩ := List.nodup_append.mp h
  intro x hx heq
  rcases hx with hx | hx
  · exact hapart _ (List.mem_map_of_mem hx) _ List.mem_cons_self heq
  · exact (List.nodup_cons.mp hrest).1 (heq ▸ List.mem_map_of_mem hx)

section Passes

variable {env : Env} {stamp : String} {f g : Files} {staged rest : List Item} {item : Item}

/-- The step that stages a change succeeds. -/
def Stages (env : Env) (f : Files) (item : Item) : Prop :=
  prepare env item = .ok () ∧ env.fails (.stage item.2) = false ∧
    f.get? (env.temporary item) = none

/-- The new texts of some changes are staged, and nothing else changed. -/
structure Staged (env : Env) (f g : Files) (staged : List Item) : Prop where
  fresh : ∀ x ∈ staged, f.get? (env.temporary x) = none
  holds : ∀ x ∈ staged, g.get? (env.temporary x) = some x.1.after
  rest : ∀ p, p ∉ staged.map env.temporary → g.get? p = f.get? p

theorem Staged.nil (f : Files) : Staged env f f [] where
  fresh _ h := by cases h
  holds _ h := by cases h
  rest _ _ := rfl

/-- Staging one more change: at its place no other was staged. -/
theorem Staged.stage (h : Staged env f g staged) (hplaces : ∀ x ∈ staged, x.2 ≠ item.2) :
    (∀ next, stage env item g = .ok next →
      Staged env f next (staged ++ [item]) ∧ env.fails (.stage item.2) = false ∧
        f.get? (env.temporary item) = none) ∧
      (∀ e, stage env item g = .error e →
        ¬ (env.fails (.stage item.2) = false ∧ f.get? (env.temporary item) = none)) := by
  have hother : env.temporary item ∉ staged.map env.temporary := by
    intro hm
    obtain ⟨x, hx, heq⟩ := List.mem_map.mp hm
    exact hplaces x hx (temporary_inj heq)
  have hsame := h.rest _ hother
  constructor
  · intro next hnext
    obtain ⟨_, hperform, hinsert⟩ := bind_eq_ok.mp hnext
    have hinsert := context_eq_ok.mp hinsert
    have hnone := (Table.insert?_eq_some.mp hinsert).1
    have hget := Table.get?_insert? hinsert
    refine ⟨⟨?_, ?_, ?_⟩, by simpa using ensure_eq_ok.mp hperform, hsame ▸ hnone⟩
    · intro x hx
      rcases List.mem_append.mp hx with hx | hx
      · exact h.fresh x hx
      · rw [List.mem_singleton.mp hx, ← hsame]
        exact hnone
    · intro x hx
      rw [hget]
      rcases List.mem_append.mp hx with hx | hx
      · rw [if_neg fun e => hplaces x hx (temporary_inj e)]
        exact h.holds x hx
      · rw [List.mem_singleton.mp hx, if_pos rfl]
    · intro p hp
      rw [List.map_append, List.mem_append, not_or] at hp
      rw [hget, if_neg fun e => hp.2 (List.mem_singleton.mpr e)]
      exact h.rest p hp.1
  · rintro e he ⟨hperform, hnone⟩
    obtain ⟨next, hnext⟩ := Table.exists_insert? (hsame.trans hnone) item.1.after
    rw [Setup.stage, Env.perform, hperform, Bool.not_false, ensure_true, ok_bind, hnext] at he
    cases he

/-- How staging ends: with all changes staged, at a change that cannot be prepared, with what was
staged left, or at one that cannot be staged, with nothing left. -/
inductive StagingEnds (env : Env) (f : Files) (items : List Item) :
    Except SetupError Unit × Files → Prop where
  | all {g : Files} (hall : ∀ x ∈ items, Stages env f x) (h : Staged env f g items) :
      StagingEnds env f items (.ok (), g)
  | left {g : Files} {e : SetupError} {done rest : List Item} {item : Item}
      (hitems : items = done ++ item :: rest) (hdone : ∀ x ∈ done, Stages env f x)
      (hitem : prepare env item ≠ .ok ()) (h : Staged env f g done) :
      StagingEnds env f items (.error e, g)
  | undone {g : Files} {e : SetupError} {done rest : List Item} {item : Item}
      (hitems : items = done ++ item :: rest) (hdone : ∀ x ∈ done, Stages env f x)
      (hitem : prepare env item = .ok ()) (hnot : ¬ Stages env f item)
      (h : ∀ p, g.get? p = if p ∈ (done ++ [item]).map env.temporary then none else f.get? p) :
      StagingEnds env f items (.error e, g)

theorem stageAll_ends {items : List Item} (hplaces : (items.map Prod.snd).Nodup) :
    ∀ {rest staged : List Item} {g : Files}, items = staged ++ rest → Staged env f g staged →
      (∀ x ∈ staged, Stages env f x) → StagingEnds env f items (stageAll env staged rest g) := by
  intro rest
  induction rest with
  | nil =>
      intro staged g hitems h hdone
      rw [List.append_nil] at hitems
      rw [hitems]
      exact .all hdone h
  | cons item rest ih =>
      intro staged g hitems h hdone
      have hother : ∀ x ∈ staged, x.2 ≠ item.2 :=
        fun x hx => ne_of_nodup (hitems ▸ hplaces) x (.inl hx)
      obtain ⟨hok, herror⟩ := h.stage hother
      rw [stageAll]
      cases hprepare : prepare env item with
      | error e => exact .left hitems hdone (by rw [hprepare]; nofun) h
      | ok u =>
          cases hstage : stage env item g with
          | ok next =>
              obtain ⟨hnext, hperform, hfresh⟩ := hok next hstage
              refine ih (by rw [hitems, List.append_assoc]; rfl) hnext fun x hx => ?_
              rcases List.mem_append.mp hx with hx | hx
              · exact hdone x hx
              · rw [List.mem_singleton.mp hx]
                exact ⟨hprepare, hperform, hfresh⟩
          | error e =>
              refine .undone hitems hdone hprepare (fun hstages => herror e hstage hstages.2) ?_
              intro p
              rw [Table.get?_erase, removeStaged, get_removeAll, List.map_append, List.map_cons,
                List.map_nil]
              by_cases hp : p = env.temporary item
              · simp [hp]
              · rw [if_neg hp]
                by_cases hm : p ∈ staged.map env.temporary
                · simp [hm]
                · rw [if_neg hm, h.rest p hm, if_neg]
                  simp [hm, hp]

/-! ### Reading -/

theorem perform_eq_ok {step : Step} {u : Unit} :
    env.perform step = .ok u ↔ env.fails step = false := by
  rw [Env.perform, ensure_eq_ok, Bool.not_eq_true']

theorem revalidate_eq_ok {reading : Reading} {u : Unit} :
    revalidate env g reading item = .ok u ↔ env.fails (.link reading item.2) = false ∧
      env.fails (.read reading item.2) = false ∧
        (g.get? item.1.path).getD "" = item.1.before := by
  simp only [revalidate, readOptionalText, bind_eq_ok, perform_eq_ok, ensure_eq_ok, pure_eq_ok,
    decide_eq_true_iff]
  constructor
  · rintro ⟨_, hlink, current, ⟨_, hread, rfl⟩, hcurrent⟩
    exact ⟨hlink, hread, hcurrent⟩
  · rintro ⟨hlink, hread, hcurrent⟩
    exact ⟨(), hlink, _, ⟨(), hread, rfl⟩, hcurrent⟩

theorem validateTargets_eq_ok {items : List Item} {targets : List Path} {u : Unit} :
    validateTargets env f targets items = .ok u ↔
      (∀ x ∈ items, x.1.path ∉ targets ∧ revalidate env f .reviewed x = .ok ()) ∧
        (items.map fun x => x.1.path).Nodup := by
  induction items generalizing targets with
  | nil => simp [validateTargets]
  | cons item rest ih =>
      have hrun : validateTargets env f targets (item :: rest) = .ok u ↔
          item.1.path ∉ targets ∧ revalidate env f .reviewed item = .ok () ∧
            validateTargets env f (item.1.path :: targets) rest = .ok u := by
        simp only [validateTargets, bind_eq_ok, ensure_eq_ok, Bool.not_eq_true',
          List.contains_eq_mem, decide_eq_false_iff_not]
        constructor
        · rintro ⟨_, hfirst, _, hok, hrest⟩
          exact ⟨hfirst, hok, hrest⟩
        · rintro ⟨hfirst, hok, hrest⟩
          exact ⟨(), hfirst, (), hok, hrest⟩
      rw [hrun, ih, List.map_cons, List.nodup_cons]
      constructor
      · rintro ⟨hfirst, hok, hrest, hnodup⟩
        refine ⟨List.forall_mem_cons.mpr ⟨⟨hfirst, hok⟩, fun x hx => ?_⟩, fun hm => ?_, hnodup⟩
        · exact ⟨fun hm => (hrest x hx).1 (List.mem_cons_of_mem _ hm), (hrest x hx).2⟩
        · obtain ⟨x, hx, heq⟩ := List.mem_map.mp hm
          exact (hrest x hx).1 (heq ▸ List.mem_cons_self)
      · rintro ⟨hall, hfresh, hnodup⟩
        obtain ⟨⟨hfirst, hok⟩, hrest⟩ := List.forall_mem_cons.mp hall
        refine ⟨hfirst, hok, fun x hx => ⟨fun hm => ?_, (hrest x hx).2⟩, hnodup⟩
        rcases List.mem_cons.mp hm with heq | hm
        · exact hfresh (heq ▸ List.mem_map_of_mem hx)
        · exact (hrest x hx).1 hm

/-! ### Backing up -/

/-- No target is named as a file that the call makes. -/
structure Apart (env : Env) (stamp : String) (items : List Item) : Prop where
  staged : ∀ x ∈ items, ∀ y ∈ items, x.1.path ≠ env.temporary y
  backups : ∀ x ∈ items, ∀ y ∈ items, ∀ k, x.1.path ≠ backupPath stamp y.1.path k

/-- Every target is as it was, and nothing that the call staged is left. -/
def Undone (env : Env) (items : List Item) (f g : Files) : Prop :=
  ∀ x ∈ items, g.get? x.1.path = f.get? x.1.path ∧
    (f.get? (env.temporary x) = none → g.get? (env.temporary x) = none)

/-- The backup of a change that is seen to exist. -/
structure IsBackup (env : Env) (stamp : String) (f : Files) (items : List Item) (b : Path × Path)
    (x : Item) : Prop where
  item : x ∈ items
  target : b.1 = x.1.path
  seen : env.fails (.present x.2) = false
  stored : (f.get? x.1.path).isSome = true
  name : ∃ k, b.2 = backupPath stamp x.1.path k
  fresh : f.get? b.2 = none
  apart : b.2 ∉ items.map env.temporary

/-- The changes `done` are backed up. -/
structure BackedUp (env : Env) (stamp : String) (f g : Files) (items done : List Item)
    (backups : List (Path × Path)) : Prop where
  targets : ∀ x ∈ items, g.get? x.1.path = f.get? x.1.path
  staged : ∀ x ∈ items, g.get? (env.temporary x) = some x.1.after
  kept : ∀ p, g.get? p = none → f.get? p = none
  each : ∀ b ∈ backups, ∃ x, IsBackup env stamp f items b x
  content : ∀ b ∈ backups, g.get? b.2 = f.get? b.1
  all : ∀ x ∈ done, (f.get? x.1.path).isSome = true → env.fails (.present x.2) = false →
    ∃ b ∈ backups, b.1 = x.1.path

/-- A change that is seen to exist is copied. -/
def Copies (env : Env) (f : Files) (x : Item) : Prop :=
  (f.get? x.1.path).isSome = true → env.fails (.present x.2) = false →
    env.fails (.copy x.2) = false

theorem BackedUp.apart {items done : List Item} {backups : List (Path × Path)}
    (h : BackedUp env stamp f g items done backups) (hapart : Apart env stamp items) {x : Item}
    (hx : x ∈ items) : x.1.path ∉ backups.map Prod.snd := by
  intro hm
  obtain ⟨b, hb, heq⟩ := List.mem_map.mp hm
  obtain ⟨y, hy⟩ := h.each b hb
  obtain ⟨k, hk⟩ := hy.name
  exact hapart.backups x hx y hy.item k (heq.symm.trans hk)

/-- One more change is backed up, under a free name. -/
theorem BackedUp.copied {items done : List Item} {backups : List (Path × Path)} {content : String}
    {path : Path} {k : Nat} (h : BackedUp env stamp f g items done backups)
    (hapart : Apart env stamp items) (hitem : item ∈ items)
    (hpresent : env.fails (.present item.2) = false)
    (hcontent : g.get? item.1.path = some content)
    (hname : path = backupPath stamp item.1.path k) (hnone : g.get? path = none) :
    BackedUp env stamp f (g.upsert path content) items (done ++ [item])
      (backups ++ [(item.1.path, path)]) := by
  have hget := Table.get?_upsert g path content
  have htarget : f.get? item.1.path = some content := (h.targets item hitem).symm.trans hcontent
  have htargets : ∀ x ∈ items, x.1.path ≠ path := fun x hx heq =>
    hapart.backups x hx item hitem k (heq.trans hname)
  have hstaged : ∀ x ∈ items, env.temporary x ≠ path := by
    rintro x hx rfl
    rw [h.staged x hx] at hnone
    cases hnone
  have hbefore : ∀ b ∈ backups, b.2 ≠ path := by
    rintro b hb rfl
    obtain ⟨x, hx⟩ := h.each b hb
    have hstored := hx.stored
    rw [← hx.target, ← h.content b hb, hnone] at hstored
    cases hstored
  refine ⟨?_, ?_, ?_, ?_, ?_, ?_⟩
  · intro x hx
    rw [hget, if_neg (htargets x hx), h.targets x hx]
  · intro x hx
    rw [hget, if_neg (hstaged x hx), h.staged x hx]
  · intro p hp
    rw [hget] at hp
    split at hp
    case isTrue => cases hp
    case isFalse => exact h.kept p hp
  · intro b hb
    rcases List.mem_append.mp hb with hb | hb
    · exact h.each b hb
    · rw [List.mem_singleton.mp hb]
      refine ⟨item, hitem, rfl, hpresent, by simp [htarget], ⟨k, hname⟩, h.kept path hnone, ?_⟩
      intro hm
      obtain ⟨x, hx, heq⟩ := List.mem_map.mp hm
      exact hstaged x hx heq
  · intro b hb
    rcases List.mem_append.mp hb with hb | hb
    · rw [hget, if_neg (hbefore b hb), h.content b hb]
    · rw [List.mem_singleton.mp hb, hget, if_pos rfl, htarget]
  · intro x hx hstored hpresent
    rcases List.mem_append.mp hx with hx | hx
    · obtain ⟨b, hb, hbx⟩ := h.all x hx hstored hpresent
      exact ⟨b, List.mem_append_left _ hb, hbx⟩
    · exact ⟨_, List.mem_append_right _ List.mem_cons_self, by rw [List.mem_singleton.mp hx]⟩

/-- How backing up ends. -/
inductive BackingUpEnds (env : Env) (stamp : String) (f : Files) (items : List Item) :
    Except SetupError (List (Path × Path)) × Files → Prop where
  | all {g : Files} {backups : List (Path × Path)} (hall : ∀ x ∈ items, Copies env f x)
      (h : BackedUp env stamp f g items items backups) :
      BackingUpEnds env stamp f items (.ok backups, g)
  | undone {g : Files} {e : SetupError} (hnot : ¬ ∀ x ∈ items, Copies env f x)
      (h : Undone env items f g) : BackingUpEnds env stamp f items (.error e, g)

theorem backupAll_ends {items : List Item} (hapart : Apart env stamp items)
    (htrue : ∀ i k, env.fails (.presentBackup i k) = false) :
    ∀ {rest done : List Item} {backups : List (Path × Path)} {g : Files}, items = done ++ rest →
      BackedUp env stamp f g items done backups → (∀ x ∈ done, Copies env f x) →
      BackingUpEnds env stamp f items (backupAll env stamp items backups rest g) := by
  intro rest
  induction rest with
  | nil =>
      intro done backups g hitems h hdone
      rw [List.append_nil] at hitems
      subst hitems
      exact .all hdone h
  | cons item rest ih =>
      intro done backups g hitems h hdone
      have hitem : item ∈ items := by simp [hitems]
      have hnext : items = (done ++ [item]) ++ rest := by simp [hitems]
      have htarget := h.targets item hitem
      rw [backupAll]
      cases hseen : (g.get? item.1.path).filter fun _ => !env.fails (.present item.2) with
      | none =>
          -- nothing is seen to exist
          have hblind : ¬ ((f.get? item.1.path).isSome = true ∧
              env.fails (.present item.2) = false) := by
            rintro ⟨hstored, hpresent⟩
            obtain ⟨content, hcontent⟩ := Option.isSome_iff_exists.mp hstored
            rw [htarget, hcontent, hpresent] at hseen
            cases hseen
          refine ih hnext ⟨h.targets, h.staged, h.kept, h.each, h.content, ?_⟩ ?_
          · intro x hx hstored hpresent
            rcases List.mem_append.mp hx with hx | hx
            · exact h.all x hx hstored hpresent
            · rw [List.mem_singleton.mp hx] at hstored hpresent
              exact absurd ⟨hstored, hpresent⟩ hblind
          · intro x hx hstored hpresent
            rcases List.mem_append.mp hx with hx | hx
            · exact hdone x hx hstored hpresent
            · rw [List.mem_singleton.mp hx] at hstored hpresent
              exact absurd ⟨hstored, hpresent⟩ hblind
      | some content =>
          obtain ⟨hcontent, hpresent⟩ := Option.filter_eq_some_iff.mp hseen
          rw [Bool.not_eq_true'] at hpresent
          have hstored : (f.get? item.1.path).isSome = true := by simp [← htarget, hcontent]
          obtain ⟨path, ⟨k, hname⟩, hnone, hok, herror⟩ := backUp_cases stamp item g htrue content
          have htargets : ∀ x ∈ items, x.1.path ≠ path := by
            intro x hx heq
            exact hapart.backups x hx item hitem k (heq.trans hname)
          cases hcopy : env.fails (.copy item.2) with
          | false =>
              simp only [hok hcopy]
              refine ih hnext (h.copied hapart hitem hpresent hcontent hname hnone) fun x hx => ?_
              rcases List.mem_append.mp hx with hx | hx
              · exact hdone x hx
              · rw [List.mem_singleton.mp hx]
                exact fun _ _ => hcopy
          | true =>
              obtain ⟨e, next, hrun, hrest⟩ := herror hcopy
              simp only [hrun]
              refine .undone (fun hall => ?_) fun x hx => ?_
              · rw [hall item hitem hstored hpresent] at hcopy
                cases hcopy
              · have hbackups := h.apart hapart hx
                have hstaging : x.1.path ∉ items.map env.temporary := by
                  intro hm
                  obtain ⟨y, hy, heq⟩ := List.mem_map.mp hm
                  exact hapart.staged x hx y hy heq.symm
                refine ⟨?_, fun _ => ?_⟩
                · rw [get_removeAll, if_neg hbackups, removeStaged, get_removeAll, if_neg hstaging,
                    hrest _ (htargets x hx), h.targets x hx]
                · rw [get_removeAll, removeStaged, get_removeAll, if_pos (List.mem_map_of_mem hx)]
                  split <;> rfl

/-! ### Replacing -/

/-- The staged file of a change is renamed. -/
def Writes (env : Env) (x : Item) : Prop :=
  env.fails (.link .backedUp x.2) = false ∧ env.fails (.read .backedUp x.2) = false ∧
    env.fails (.rename x.2) = false

def Passes (env : Env) (x : Item) : Prop :=
  Writes env x ∧ env.fails (.permissions x.2) = false

/-- The changes `done` are in place, the others wait. -/
structure Replaced (env : Env) (f g : Files) (done rest : List Item)
    (backups : List (Path × Path)) : Prop where
  written : ∀ x ∈ done, g.get? x.1.path = some x.1.after ∧ g.get? (env.temporary x) = none
  waiting : ∀ x ∈ rest, g.get? x.1.path = f.get? x.1.path ∧
    g.get? (env.temporary x) = some x.1.after
  content : ∀ b ∈ backups, g.get? b.2 = f.get? b.1

/-- What is known of the batch when replacing starts. -/
structure Ready (env : Env) (stamp : String) (f : Files) (items : List Item)
    (backups : List (Path × Path)) : Prop where
  apart : Apart env stamp items
  places : (items.map Prod.snd).Nodup
  targets : (items.map fun x => x.1.path).Nodup
  before : ∀ x ∈ items, (f.get? x.1.path).getD "" = x.1.before
  each : ∀ b ∈ backups, ∃ x, IsBackup env stamp f items b x
  all : ∀ x ∈ items, (f.get? x.1.path).isSome = true → env.fails (.present x.2) = false →
    ∃ b ∈ backups, b.1 = x.1.path

variable {items done : List Item} {backups : List (Path × Path)}

theorem Ready.backup_target (h : Ready env stamp f items backups) {x : Item} (hx : x ∈ items)
    {b : Path × Path} (hb : b ∈ backups) : b.2 ≠ x.1.path := by
  obtain ⟨y, hy⟩ := h.each b hb
  obtain ⟨k, hk⟩ := hy.name
  exact fun heq => h.apart.backups x hx y hy.item k (heq.symm.trans hk)

/-- The staged file takes the place of the target, unless a step fails. -/
theorem Ready.replaces (h : Ready env stamp f items backups) (hitems : items = done ++ item :: rest)
    (hg : Replaced env f g done (item :: rest) backups) :
    (Writes env item → ∃ next, replace env item g = .ok next ∧
        Replaced env f next (done ++ [item]) rest backups) ∧
      (¬ Writes env item → ∃ e, replace env item g = .error e) := by
  have hitem : item ∈ items := by simp [hitems]
  obtain ⟨htarget, htemporary⟩ := hg.waiting item List.mem_cons_self
  have hcontent : (g.get? item.1.path).getD "" = item.1.before := by
    rw [htarget, h.before item hitem]
  have hpaths := ne_of_nodup (hitems ▸ h.targets)
  have hplaces := ne_of_nodup (hitems ▸ h.places)
  have hmem : ∀ x, x ∈ done ∨ x ∈ rest → x ∈ items := by
    intro x hx
    rw [hitems]
    rcases hx with hx | hx
    · exact List.mem_append_left _ hx
    · exact List.mem_append_right _ (List.mem_cons_of_mem _ hx)
  constructor
  · rintro ⟨hlink, hread, hrename⟩
    have hrun : revalidate env g .backedUp item = .ok () :=
      revalidate_eq_ok.mpr ⟨hlink, hread, hcontent⟩
    refine ⟨(g.erase (env.temporary item)).upsert item.1.path item.1.after, ?_, ?_, ?_, ?_⟩
    · have hperform : env.perform (.rename item.2) = .ok () := perform_eq_ok.mpr hrename
      rw [replace, hrun, ok_bind, hperform, ok_bind, htemporary, context_some, ok_bind]
      rfl
    · intro x hx
      rcases List.mem_append.mp hx with hx | hx
      · obtain ⟨hwritten, hgone⟩ := hg.written x hx
        rw [Table.get?_upsert, if_neg (hpaths x (.inl hx)), Table.get?_erase,
          if_neg (h.apart.staged x (hmem x (.inl hx)) item hitem), Table.get?_upsert,
          if_neg (h.apart.staged item hitem x (hmem x (.inl hx))).symm, Table.get?_erase,
          if_neg fun e => hplaces x (.inl hx) (temporary_inj e)]
        exact ⟨hwritten, hgone⟩
      · rw [List.mem_singleton.mp hx, Table.get?_upsert, if_pos rfl, Table.get?_upsert,
          if_neg (h.apart.staged item hitem item hitem).symm, Table.get?_erase, if_pos rfl]
        exact ⟨rfl, rfl⟩
    · intro x hx
      obtain ⟨hsame, hstaged⟩ := hg.waiting x (List.mem_cons_of_mem _ hx)
      rw [Table.get?_upsert, if_neg (hpaths x (.inr hx)), Table.get?_erase,
        if_neg (h.apart.staged x (hmem x (.inr hx)) item hitem), Table.get?_upsert,
        if_neg (h.apart.staged item hitem x (hmem x (.inr hx))).symm, Table.get?_erase,
        if_neg fun e => hplaces x (.inr hx) (temporary_inj e)]
      exact ⟨hsame, hstaged⟩
    · intro b hb
      obtain ⟨y, hy⟩ := h.each b hb
      have hstaged : b.2 ≠ env.temporary item :=
        fun e => hy.apart (e.symm ▸ List.mem_map_of_mem hitem)
      rw [Table.get?_upsert, if_neg (h.backup_target hitem hb), Table.get?_erase,
        if_neg hstaged, hg.content b hb]
  · intro hnot
    cases hrun : replace env item g with
    | error e => exact ⟨e, rfl⟩
    | ok next =>
        obtain ⟨_, hrevalidate, hrun⟩ := bind_eq_ok.mp hrun
        obtain ⟨_, hrename, hrun⟩ := bind_eq_ok.mp hrun
        obtain ⟨hlink, hread, -⟩ := revalidate_eq_ok.mp hrevalidate
        exact absurd ⟨hlink, hread, perform_eq_ok.mp hrename⟩ hnot

/-- How replacing ends: with all changes in place, or at a change that cannot be replaced or made
private, with the changes of `written` restored. -/
inductive ReplacingEnds (env : Env) (f : Files) (items : List Item) (backups : List (Path × Path)) :
    Except SetupError (List Path) × Files → Prop where
  | all {g : Files} {paths : List Path} (hall : ∀ x ∈ items, Passes env x)
      (h : Replaced env f g items [] backups) : ReplacingEnds env f items backups (.ok paths, g)
  | undone {g : Files} {e : SetupError} {done rest written : List Item} {item : Item}
      (hitems : items = done ++ item :: rest) (hdone : ∀ x ∈ done, Passes env x)
      (hitem : (¬ Writes env item ∧ written = done) ∨
        (Writes env item ∧ env.fails (.permissions item.2) = true ∧ written = done ++ [item]))
      (hrestored : ∀ x ∈ written, g.get? x.1.path = restored f backups x.1.path)
      (hkept : ∀ x ∈ items, x ∉ written → g.get? x.1.path = f.get? x.1.path)
      (hstaged : ∀ x ∈ items, g.get? (env.temporary x) = none) :
      ReplacingEnds env f items backups (.error e, g)

theorem Ready.saves (h : Ready env stamp f items backups) {g : Files}
    (hcontent : ∀ b ∈ backups, g.get? b.2 = f.get? b.1) :
    Saves f g (items.map fun x => x.1.path) backups where
  content := hcontent
  stored b hb := by
    obtain ⟨x, hx⟩ := h.each b hb
    rw [hx.target]
    exact hx.stored
  apart b hb hm := by
    obtain ⟨x, hx, heq⟩ := List.mem_map.mp hm
    exact h.backup_target hx hb heq.symm

/-- Undoing the changes that were written. -/
theorem Ready.undo (h : Ready env stamp f items backups) {written waiting : List Item}
    (hitems : ∀ x ∈ items, x ∈ written ∨ x ∈ waiting) (hwritten : ∀ x ∈ written, x ∈ items)
    (hg : Replaced env f g written waiting backups) {undone : Files}
    (hundone : undone = removeStaged env items
      (restoreWritten (written.map fun x => x.1.path) backups g)) :
    (∀ x ∈ written, undone.get? x.1.path = restored f backups x.1.path) ∧
      (∀ x ∈ items, x ∉ written → undone.get? x.1.path = f.get? x.1.path) ∧
      ∀ x ∈ items, undone.get? (env.temporary x) = none := by
  have hpaths : ∀ path ∈ written.map (fun x => x.1.path), path ∈ items.map fun x => x.1.path := by
    intro path hm
    obtain ⟨x, hx, rfl⟩ := List.mem_map.mp hm
    exact List.mem_map_of_mem (hwritten x hx)
  have hget := get_restoreWritten (h.saves hg.content) hpaths
  have hstaged : ∀ x ∈ items, x.1.path ∉ items.map env.temporary := by
    intro x hx hm
    obtain ⟨y, hy, heq⟩ := List.mem_map.mp hm
    exact h.apart.staged x hx y hy heq.symm
  rw [hundone]
  refine ⟨fun x hx => ?_, fun x hx hnot => ?_, fun x hx => ?_⟩
  · rw [removeStaged, get_removeAll, if_neg (hstaged x (hwritten x hx)), hget,
      if_pos (List.mem_map_of_mem hx)]
  · have hother : x.1.path ∉ written.map fun x => x.1.path := by
      intro hm
      obtain ⟨y, hy, heq⟩ := List.mem_map.mp hm
      exact hnot (List.inj_on_of_nodup_map h.targets (hwritten y hy) hx heq ▸ hy)
    rw [removeStaged, get_removeAll, if_neg (hstaged x hx), hget, if_neg hother]
    exact (hg.waiting x ((hitems x hx).resolve_left hnot)).1
  · rw [removeStaged, get_removeAll, if_pos (List.mem_map_of_mem hx)]

theorem replaceAll_ends (h : Ready env stamp f items backups) :
    ∀ {rest done : List Item} {g : Files}, items = done ++ rest →
      Replaced env f g done rest backups → (∀ x ∈ done, Passes env x) →
      ReplacingEnds env f items backups
        (replaceAll env items backups (done.map fun x => x.1.path) rest g) := by
  intro rest
  induction rest with
  | nil =>
      intro done g hitems hg hdone
      rw [List.append_nil] at hitems
      subst hitems
      exact .all hdone hg
  | cons item rest ih =>
      intro done g hitems hg hdone
      obtain ⟨hok, herror⟩ := h.replaces hitems hg
      have hmem : ∀ x ∈ done, x ∈ items := fun x hx => hitems ▸ List.mem_append_left _ hx
      have hitem : item ∈ items := by simp [hitems]
      rw [replaceAll]
      by_cases hwrites : Writes env item
      · obtain ⟨next, hrun, hnext⟩ := hok hwrites
        have hpaths : (done.map fun x => x.1.path) ++ [item.1.path] =
            (done ++ [item]).map fun x => x.1.path := by simp
        simp only [hrun, hpaths]
        cases hpermissions : env.fails (.permissions item.2) with
        | true =>
            have hwritten : ∀ x ∈ done ++ [item], x ∈ items := by
              intro x hx
              rcases List.mem_append.mp hx with hx | hx
              · exact hmem x hx
              · rw [List.mem_singleton.mp hx]
                exact hitem
            obtain ⟨hrestored, hkept, hstaged⟩ :=
              h.undo (by simp [hitems, or_assoc]) hwritten hnext rfl
            exact .undone hitems hdone (.inr ⟨hwrites, hpermissions, rfl⟩) hrestored hkept hstaged
        | false =>
            refine ih (by simp [hitems]) hnext fun x hx => ?_
            rcases List.mem_append.mp hx with hx | hx
            · exact hdone x hx
            · rw [List.mem_singleton.mp hx]
              exact ⟨hwrites, hpermissions⟩
      · obtain ⟨e, hrun⟩ := herror hwrites
        simp only [hrun]
        obtain ⟨hrestored, hkept, hstaged⟩ := h.undo (by simp [hitems]) hmem hg rfl
        exact .undone hitems hdone (.inl ⟨hwrites, rfl⟩) hrestored hkept hstaged

/-! ### The batch -/

/-- A target that exists and is not seen to. -/
def Blind (env : Env) (f : Files) (x : Item) : Prop :=
  (f.get? x.1.path).isSome = true ∧ env.fails (.present x.2) = true

theorem Ready.restored_eq (h : Ready env stamp f items backups) {x : Item} (hx : x ∈ items) :
    (¬ Blind env f x → restored f backups x.1.path = f.get? x.1.path) ∧
      (Blind env f x → restored f backups x.1.path = none) := by
  unfold restored Blind
  constructor
  · intro hnot
    split
    case isTrue => rfl
    case isFalse hnone =>
      cases hstored : f.get? x.1.path with
      | none => rfl
      | some content =>
          have hsome : (f.get? x.1.path).isSome = true := by simp [hstored]
          have hseen : env.fails (.present x.2) = false :=
            Bool.eq_false_iff.mpr fun hpresent => hnot ⟨hsome, hpresent⟩
          obtain ⟨b, hb, heq⟩ := h.all x hx hsome hseen
          exact absurd (List.any_eq_true.mpr ⟨b, hb, by simpa using heq⟩) hnone
  · rintro ⟨-, hpresent⟩
    rw [if_neg]
    intro hany
    obtain ⟨b, hb, heq⟩ := List.any_eq_true.mp hany
    obtain ⟨y, hy⟩ := h.each b hb
    have hsame : y.1.path = x.1.path := hy.target.symm.trans (of_decide_eq_true heq)
    have hxy := List.inj_on_of_nodup_map h.targets hy.item hx hsame
    have hseen := hy.seen
    rw [hxy, hpresent] at hseen
    cases hseen

/-- **Complete.**  A batch that fails leaves every target as it was and nothing that it staged; one
that succeeds leaves every target with its new text, and what was there under a new name. -/
structure Complete (env : Env) (stamp : String) (items : List Item) (f : Files)
    (r : Except SetupError ApplyReceipt × Files) : Prop where
  undone : ∀ e, r.1 = .error e → Undone env items f r.2
  done : ∀ receipt, r.1 = .ok receipt → ∀ x ∈ items, r.2.get? x.1.path = some x.1.after ∧
    ∀ old, f.get? x.1.path = some old → ∃ k, backupPath stamp x.1.path k ∈ receipt.backups ∧
      r.2.get? (backupPath stamp x.1.path k) = some old ∧
        f.get? (backupPath stamp x.1.path k) = none

theorem complete_of_undone {e : SetupError} (h : Undone env items f g) :
    Complete env stamp items f (.error e, g) where
  undone _ _ := h
  done _ hok := by cases hok

/-- The batch is valid and as it was reviewed. -/
def Reviewed (env : Env) (stamp : String) (f : Files) (items : List Item) : Prop :=
  validateStamp stamp = .ok () ∧ (items.map fun x => x.1.path).Nodup ∧
    ∀ x ∈ items, revalidate env f .reviewed x = .ok ()

/-- A change that is not the first cannot be prepared, when all before it could be staged. -/
def Leaks (env : Env) (f : Files) (items : List Item) : Prop :=
  ∃ done item rest, items = done ++ item :: rest ∧ done ≠ [] ∧ (∀ x ∈ done, Stages env f x) ∧
    prepare env item ≠ .ok ()

/-- A target that exists and is not seen to is replaced. -/
def Replaces (env : Env) (f : Files) (items : List Item) : Prop :=
  ∃ done item rest, items = done ++ item :: rest ∧ (∀ x ∈ done, Passes env x) ∧
    Writes env item ∧ Blind env f item

/-- Nothing fails before such a target is replaced. -/
def Overwrites (env : Env) (f : Files) (items : List Item) : Prop :=
  (∀ x ∈ items, Stages env f x) ∧
    (∀ x ∈ items, env.fails (.link .staged x.2) = false ∧ env.fails (.read .staged x.2) = false) ∧
    (∀ x ∈ items, Copies env f x) ∧ Replaces env f items

/-- The first element without a property is one. -/
theorem first_unique {α : Type} {P : α → Prop} {item item' : α} :
    ∀ {done done' rest rest' : List α}, done ++ item :: rest = done' ++ item' :: rest' →
      (∀ x ∈ done, P x) → ¬ P item → (∀ x ∈ done', P x) → ¬ P item' →
        done = done' ∧ item = item' := by
  intro done
  induction done with
  | nil =>
      intro done' rest rest' h _ hitem hdone' _
      cases done' with
      | nil =>
          cases h
          exact ⟨rfl, rfl⟩
      | cons x done' =>
          cases h
          exact absurd (hdone' _ List.mem_cons_self) hitem
  | cons x done ih =>
      intro done' rest rest' h hdone hitem hdone' hitem'
      cases done' with
      | nil =>
          cases h
          exact absurd (hdone _ List.mem_cons_self) hitem'
      | cons y done' =>
          obtain ⟨rfl, hrest⟩ := List.cons.inj h
          obtain ⟨rfl, heq⟩ := ih hrest (fun z hz => hdone z (List.mem_cons_of_mem _ hz)) hitem
            (fun z hz => hdone' z (List.mem_cons_of_mem _ hz)) hitem'
          exact ⟨rfl, heq⟩

/-- What is before the first element without a property. -/
theorem before_first {α : Type} {P : α → Prop} {item x : α} :
    ∀ {done pre rest post : List α}, done ++ item :: rest = pre ++ x :: post → ¬ P item →
      (∀ y ∈ pre, P y) → P x → x ∈ done := by
  intro done
  induction done with
  | nil =>
      intro pre rest post h hitem hpre hx
      cases pre with
      | nil =>
          cases h
          exact absurd hx hitem
      | cons y pre =>
          cases h
          exact absurd (hpre _ List.mem_cons_self) hitem
  | cons y done ih =>
      intro pre rest post h hitem hpre hx
      cases pre with
      | nil =>
          cases h
          exact List.mem_cons_self
      | cons z pre =>
          obtain ⟨-, hrest⟩ := List.cons.inj h
          exact List.mem_cons_of_mem _
            (ih hrest hitem (fun w hw => hpre w (List.mem_cons_of_mem _ hw)) hx)

/-- Replacing completes the batch unless it replaces a blind target. -/
theorem Ready.complete (h : Ready env stamp f items backups) (hstamp : '.' ∉ stamp.toList)
    (hnamed : ∀ p content, f.get? p = some content → (lastName p).isSome = true)
    {r : Except SetupError (List Path) × Files} (hends : ReplacingEnds env f items backups r) :
    Complete env stamp items f (r.1.map fun written => ⟨written, backups.map Prod.snd⟩, r.2) ↔
      ¬ Replaces env f items := by
  have hname : ∀ x : Item, (f.get? x.1.path).isSome = true → (lastName x.1.path).isSome = true := by
    intro x hx
    obtain ⟨content, hcontent⟩ := Option.isSome_iff_exists.mp hx
    exact hnamed _ content hcontent
  cases hends with
  | @all g paths hall hg =>
      constructor
      · rintro hcomplete ⟨done, item, rest, hitems, -, -, hstored, hpresent⟩
        have hitem : item ∈ items := by simp [hitems]
        obtain ⟨old, hold⟩ := Option.isSome_iff_exists.mp hstored
        obtain ⟨k, hm, -⟩ := (hcomplete.done _ rfl item hitem).2 old hold
        obtain ⟨b, hb, heq⟩ := List.mem_map.mp hm
        obtain ⟨y, hy⟩ := h.each b hb
        obtain ⟨l, hl⟩ := hy.name
        have hpath := backupPath_inj hstamp (hname item hstored) (hname y hy.stored)
          (heq.symm.trans hl)
        have hseen := hy.seen
        rw [← List.inj_on_of_nodup_map h.targets hitem hy.item hpath, hpresent] at hseen
        cases hseen
      · intro hnot
        refine ⟨fun e he => (by cases he), fun receipt hreceipt x hx => ?_⟩
        cases hreceipt
        refine ⟨(hg.written x hx).1, fun old hold => ?_⟩
        have hstored : (f.get? x.1.path).isSome = true := by simp [hold]
        have hseen : env.fails (.present x.2) = false := by
          refine Bool.eq_false_iff.mpr fun hpresent => hnot ?_
          obtain ⟨pre, post, hsplit⟩ := List.append_of_mem hx
          refine ⟨pre, x, post, hsplit, fun y hy => hall y ?_, (hall x hx).1, hstored, hpresent⟩
          rw [hsplit]
          exact List.mem_append_left _ hy
        obtain ⟨b, hb, hbx⟩ := h.all x hx hstored hseen
        obtain ⟨y, hy⟩ := h.each b hb
        obtain ⟨k, hk⟩ := hy.name
        have hyx : y = x := List.inj_on_of_nodup_map h.targets hy.item hx (hy.target.symm.trans hbx)
        rw [hyx] at hk
        refine ⟨k, hk ▸ List.mem_map_of_mem hb, ?_, hk ▸ hy.fresh⟩
        rw [← hk, ← hold, ← hbx]
        exact hg.content b hb
  | @undone g e done rest written item hitems hdone hitem hrestored hkept hstaged =>
      have hfails : ¬ Passes env item := by
        rintro ⟨hwrites, hpermissions⟩
        rcases hitem with ⟨hnot, -⟩ | ⟨-, hfails, -⟩
        · exact hnot hwrites
        · rw [hfails] at hpermissions
          cases hpermissions
      constructor
      · rintro hcomplete ⟨pre, x, post, hsplit, hpre, hwrites, hblind⟩
        have hx : x ∈ items := by simp [hsplit]
        have hwritten : x ∈ written := by
          by_cases hpasses : Passes env x
          · have hm := before_first (hitems.symm.trans hsplit) hfails hpre hpasses
            rcases hitem with ⟨-, rfl⟩ | ⟨-, -, rfl⟩
            · exact hm
            · exact List.mem_append_left _ hm
          · obtain ⟨-, rfl⟩ :=
              first_unique (hitems.symm.trans hsplit) hdone hfails hpre hpasses
            rcases hitem with ⟨hnot, -⟩ | ⟨-, -, rfl⟩
            · exact absurd hwrites hnot
            · simp
        have hgone := (h.restored_eq hx).2 hblind
        have hsame := (hcomplete.undone e rfl x hx).1
        have hstored := hblind.1
        rw [← hsame, hrestored x hwritten, hgone] at hstored
        cases hstored
      · intro hnot
        refine complete_of_undone fun x hx => ⟨?_, fun _ => hstaged x hx⟩
        by_cases hwritten : x ∈ written
        · rw [hrestored x hwritten]
          refine (h.restored_eq hx).1 fun hblind => hnot ?_
          have hcase : x ∈ done ∨ x = item ∧ Writes env item := by
            rcases hitem with ⟨-, rfl⟩ | ⟨hwrites, -, rfl⟩
            · exact .inl hwritten
            · rcases List.mem_append.mp hwritten with hm | hm
              · exact .inl hm
              · exact .inr ⟨List.mem_singleton.mp hm, hwrites⟩
          rcases hcase with hm | ⟨rfl, hwrites⟩
          · obtain ⟨pre, post, rfl⟩ := List.append_of_mem hm
            refine ⟨pre, x, post ++ item :: rest, by simp [hitems], fun y hy => ?_,
              (hdone x hm).1, hblind⟩
            exact hdone y (List.mem_append_left _ hy)
          · exact ⟨done, x, rest, hitems, hdone, hwrites, hblind⟩
        · exact hkept x hx hwritten

/-- A call that removes what it staged. -/
theorem undone_of_removed (hapart : Apart env stamp items) (hdone : ∀ x ∈ done, x ∈ items)
    (h : ∀ p, g.get? p = if p ∈ done.map env.temporary then none else f.get? p) :
    Undone env items f g := by
  intro x hx
  have hstaging : x.1.path ∉ done.map env.temporary := by
    intro hm
    obtain ⟨y, hy, heq⟩ := List.mem_map.mp hm
    exact hapart.staged x hx y (hdone y hy) heq.symm
  refine ⟨by rw [h, if_neg hstaging], fun hnone => ?_⟩
  rw [h, hnone]
  split <;> rfl

/-- What was staged goes when the batch is given up before it is backed up. -/
theorem Staged.removed (h : Staged env f g items) (p : Path) :
    (removeStaged env items g).get? p =
      if p ∈ items.map env.temporary then none else f.get? p := by
  rw [removeStaged, get_removeAll]
  split
  case isTrue => rfl
  case isFalse hp => exact h.rest p hp

theorem Staged.backedUp (h : Staged env f g items) (hapart : Apart env stamp items) :
    BackedUp env stamp f g items [] [] where
  targets x hx := by
    refine h.rest _ fun hm => ?_
    obtain ⟨y, hy, heq⟩ := List.mem_map.mp hm
    exact hapart.staged x hx y hy heq.symm
  staged := h.holds
  kept p hp := by
    rw [← h.rest p, hp]
    intro hm
    obtain ⟨x, hx, rfl⟩ := List.mem_map.mp hm
    rw [h.holds x hx] at hp
    cases hp
  each _ hb := by cases hb
  content _ hb := by cases hb
  all _ hx := by cases hx

/-- A change that cannot be staged is no reason for a batch to leak that is not the first. -/
theorem not_leaks {rest : List Item} (hitems : items = done ++ item :: rest)
    (hdone : ∀ x ∈ done, Stages env f x) (hitem : ¬ Stages env f item)
    (hfirst : prepare env item = .ok () ∨ done = []) : ¬ Leaks env f items := by
  rintro ⟨pre, x, post, hsplit, hne, hpre, hx⟩
  obtain ⟨rfl, rfl⟩ := first_unique (hitems.symm.trans hsplit) hdone hitem hpre
    fun hstages => hx hstages.1
  rcases hfirst with hok | hnil
  · exact hx hok
  · exact hne hnil

/-- A batch that is reviewed and staged. -/
theorem complete_of_staged (hapart : Apart env stamp items)
    (hplaces : (items.map Prod.snd).Nodup)
    (htrue : ∀ i k, env.fails (.presentBackup i k) = false)
    (hnamed : ∀ p content, f.get? p = some content → (lastName p).isSome = true)
    (hreviewed : Reviewed env stamp f items) (hg : Staged env f g items) :
    Complete env stamp items f (applyStaged env items stamp g) ↔
      ¬ ((∀ x ∈ items, env.fails (.link .staged x.2) = false ∧
          env.fails (.read .staged x.2) = false) ∧
        (∀ x ∈ items, Copies env f x) ∧ Replaces env f items) := by
  obtain ⟨hstamp, htargets, hbefore⟩ := hreviewed
  have hbackedUp := hg.backedUp hapart
  have hcontent : ∀ x ∈ items, (g.get? x.1.path).getD "" = x.1.before := by
    intro x hx
    rw [hbackedUp.targets x hx]
    exact (revalidate_eq_ok.mp (hbefore x hx)).2.2
  rw [applyStaged]
  cases hread : forM items (revalidate env g .staged) with
  | error e =>
      refine iff_of_true (complete_of_undone ?_) fun h => ?_
      · exact undone_of_removed hapart (fun _ hx => hx) hg.removed
      · have hok : forM items (revalidate env g .staged) = .ok () :=
          forM_eq_ok.mpr fun x hx =>
            revalidate_eq_ok.mpr ⟨(h.1 x hx).1, (h.1 x hx).2, hcontent x hx⟩
        rw [hok] at hread
        cases hread
  | ok u =>
      have hreads : ∀ x ∈ items, env.fails (.link .staged x.2) = false ∧
          env.fails (.read .staged x.2) = false := by
        intro x hx
        obtain ⟨hlink, hread, -⟩ := revalidate_eq_ok.mp (forM_eq_ok.mp hread x hx)
        exact ⟨hlink, hread⟩
      have hbacking := backupAll_ends hapart htrue (List.nil_append items).symm hbackedUp
        fun _ hx => by cases hx
      generalize backupAll env stamp items [] items g = r at hbacking ⊢
      cases hbacking with
      | undone hnot hundone => exact iff_of_true (complete_of_undone hundone) fun h => hnot h.2.1
      | @all files backups hcopies hdone =>
          have hready : Ready env stamp f items backups :=
            ⟨hapart, hplaces, htargets, fun x hx => (revalidate_eq_ok.mp (hbefore x hx)).2.2,
              hdone.each, hdone.all⟩
          have hreplaced : Replaced env f files [] items backups :=
            ⟨fun _ hx => (by cases hx), fun x hx => ⟨hdone.targets x hx, hdone.staged x hx⟩,
              hdone.content⟩
          have hends := replaceAll_ends hready (List.nil_append items).symm hreplaced
            fun _ hx => by cases hx
          refine (hready.complete (stamp_no_dot hstamp) hnamed hends).trans ?_
          exact not_congr ⟨fun h => ⟨hreads, hcopies, h⟩, fun h => h.2.2⟩

end Passes

theorem items_places (changes : List FileChange) : ((items changes).map Prod.snd).Nodup := by
  rw [items, List.zipIdx_map_snd]
  exact List.nodup_range'

/-- **Setup batches.**  With targets that are named as none of the call's own files, and a truthful
search for the names of backups, a batch is applied completely or not at all exactly when no change
but the first fails in being prepared after all before it were staged, and no target is replaced
that exists and was not seen to. -/
theorem apply_changes_complete (env : Env) (changes : List FileChange) (stamp : String)
    (files : Files) (hapart : Apart env stamp (items changes))
    (htrue : ∀ i k, env.fails (.presentBackup i k) = false)
    (hnamed : ∀ p content, files.get? p = some content → (lastName p).isSome = true) :
    Complete env stamp (items changes) files (applyChanges env changes stamp files) ↔
      (Reviewed env stamp files (items changes) →
        ¬ Leaks env files (items changes) ∧ ¬ Overwrites env files (items changes)) := by
  have hplaces := items_places changes
  rw [applyChanges]
  generalize items changes = items at hapart hplaces ⊢
  have hunchanged : Undone env items files files := fun _ _ => ⟨rfl, id⟩
  cases hvalid : validateStamp stamp >>= fun _ => validateTargets env files [] items with
  | error e =>
      refine iff_of_true (complete_of_undone hunchanged) fun hreviewed => ?_
      obtain ⟨hstamp, hnodup, hall⟩ := hreviewed
      have htargets : validateTargets env files [] items = .ok () :=
        validateTargets_eq_ok.mpr ⟨fun x hx => ⟨List.not_mem_nil, hall x hx⟩, hnodup⟩
      rw [hstamp, ok_bind, htargets] at hvalid
      cases hvalid
  | ok u =>
      obtain ⟨_, hstamp, htargets⟩ := bind_eq_ok.mp hvalid
      obtain ⟨hall, hnodup⟩ := validateTargets_eq_ok.mp htargets
      have hreviewed : Reviewed env stamp files items :=
        ⟨hstamp, hnodup, fun x hx => (hall x hx).2⟩
      rw [forall_prop_of_true hreviewed]
      have hstaging : StagingEnds env files items (stageAll env [] items files) :=
        stageAll_ends hplaces (List.nil_append items).symm (.nil files) fun _ hx => by cases hx
      generalize stageAll env [] items files = r at hstaging ⊢
      cases hstaging with
      | @all g hstages hg =>
          have hleaks : ¬ Leaks env files items := by
            rintro ⟨pre, x, post, rfl, -, -, hx⟩
            exact hx (hstages x (by simp)).1
          refine (complete_of_staged hapart hplaces htrue hnamed hreviewed hg).trans ?_
          rw [Overwrites]
          simp only [hleaks, not_false_iff, true_and]
          exact not_congr ⟨fun h => ⟨hstages, h⟩, fun h => h.2⟩
      | @left g e done rest item hitems hdone hitem hg =>
          have hnot : ¬ Stages env files item := fun hstages => hitem hstages.1
          have hoverwrites : ¬ Overwrites env files items :=
            fun h => hnot (h.1 item (by simp [hitems]))
          by_cases hfirst : done = []
          · refine iff_of_true (complete_of_undone fun x hx => ?_)
              ⟨not_leaks hitems hdone hnot (.inr hfirst), hoverwrites⟩
            subst hfirst
            have hsame := fun p => hg.rest p List.not_mem_nil
            exact ⟨hsame _, fun hnone => (hsame _).trans hnone⟩
          · refine iff_of_false (fun hcomplete => ?_) fun h => h.1 ?_
            · obtain ⟨x, hx⟩ := List.exists_mem_of_ne_nil done hfirst
              have hmem : x ∈ items := hitems ▸ List.mem_append_left _ hx
              have hgone := (hcomplete.undone e rfl x hmem).2 (hg.fresh x hx)
              rw [hg.holds x hx] at hgone
              cases hgone
            · exact ⟨done, item, rest, hitems, hfirst, hdone, hitem⟩
      | @undone g e done rest item hitems hdone hitem hnot hg =>
          have hmem : ∀ x ∈ done ++ [item], x ∈ items := by
            intro x hx
            rw [hitems]
            rcases List.mem_append.mp hx with hx | hx
            · exact List.mem_append_left _ hx
            · simp [List.mem_singleton.mp hx]
          refine iff_of_true (complete_of_undone (undone_of_removed hapart hmem hg))
            ⟨not_leaks hitems hdone hnot (.inl hitem), ?_⟩
          exact fun h => hnot (h.1 item (by simp [hitems]))

/-! ### Two targets -/

def hooksPath : Path := [.rootDir, .normal "home", .normal ".codex", .normal "hooks.json"]

def settingsPath : Path := [.rootDir, .normal "home", .normal ".claude", .normal "settings.json"]

/-- The hooks of one provider exist, the settings of the other do not. -/
def hookChanges : List FileChange :=
  [⟨hooksPath, "old", "new"⟩, ⟨settingsPath, "", "fresh"⟩]

def hookFiles : Files := (Table.insert? ∅ hooksPath "old").getD ∅

theorem hookFiles_get {p : Path} {content : String} (h : hookFiles.get? p = some content) :
    p = hooksPath := by
  have hinsert : Table.insert? ∅ hooksPath "old" = some hookFiles := rfl
  rw [Table.get?_insert? hinsert] at h
  split at h
  case isTrue heq => exact heq
  case isFalse => cases h

/-- The names of the two targets are too short for names of backups. -/
theorem hooks_apart (env : Env) (henv : env.processId = 0) :
    Apart env "1700000000" (items hookChanges) := by
  have hall : ∀ x ∈ items hookChanges, x = (⟨hooksPath, "old", "new"⟩, 0) ∨
      x = (⟨settingsPath, "", "fresh"⟩, 1) := by
    intro x hx
    have hitems : items hookChanges =
        [(⟨hooksPath, "old", "new"⟩, 0), (⟨settingsPath, "", "fresh"⟩, 1)] := rfl
    rw [hitems] at hx
    simpa using hx
  constructor
  · intro x hx y hy
    unfold Env.temporary
    rw [henv]
    rcases hall x hx with rfl | rfl
    all_goals
      rcases hall y hy with rfl | rfl
      all_goals decide +kernel
  · intro x hx y hy k heq
    have hlast := congrArg List.getLast? heq
    rw [backupPath, withFileName_last] at hlast
    obtain ⟨suffix, -, htext⟩ :=
      backupName_toList "1700000000" ((lastName y.1.path).getD "config") k
    have hlong :
        14 ≤ (backupName "1700000000" ((lastName y.1.path).getD "config") k).toList.length := by
      rw [htext]
      simp
      omega
    generalize backupName "1700000000" ((lastName y.1.path).getD "config") k = name at hlast hlong
    rcases hall x hx with rfl | rfl
    all_goals
      cases hlast
      revert hlong
      decide

/-- The second directory cannot be made: the staged file of the first change is left. -/
theorem apply_changes_leaves_staged :
    ¬ Complete { fails := fun step => step == .createDir 1 } "1700000000" (items hookChanges)
      hookFiles (applyChanges { fails := fun step => step == .createDir 1 } hookChanges
        "1700000000" hookFiles) := by
  intro h
  have herror : (applyChanges { fails := fun step => step == .createDir 1 } hookChanges
      "1700000000" hookFiles).1 = .error (.failed (.createDir 1)) := by decide +kernel
  have hgone := (h.undone _ herror (⟨hooksPath, "old", "new"⟩, 0) (by decide)).2
    (by decide +kernel)
  revert hgone
  decide +kernel

theorem apply_changes_complete_hooks :
    Complete {} "1700000000" (items hookChanges) hookFiles
      (applyChanges {} hookChanges "1700000000" hookFiles) := by
  refine (apply_changes_complete {} hookChanges "1700000000" hookFiles (hooks_apart {} rfl)
    (fun _ _ => rfl) (fun p content h => ?_)).mpr fun _ => ⟨?_, ?_⟩
  · rw [hookFiles_get h]
    decide
  · rintro ⟨done, item, rest, hitems, -, -, hfails⟩
    have hall : ∀ x ∈ items hookChanges, prepare {} x = .ok () := by decide +kernel
    exact hfails (hall item (by simp [hitems]))
  · rintro ⟨-, -, -, done, item, rest, -, -, -, -, hblind⟩
    cases hblind

end Pikamux.Setup
