import Pikamux.Support.Interrupt
import Pikamux.Update.Release

/-!
# Update — Install

`install_staged` and `rollback_managed` of `update.rs`, operation by operation.  The disk is the
managed root with its releases, the `current` link, and the `pika` link in each bin directory; bin
directories are outside the root.  The installation lock is held by one run at a time.
-/

namespace Pikamux.Update

open Support Support.Program

/-- The name of a directory in `releases`; a version begins with a digit, a stage with a dot. -/
inductive ReleaseName where
  /-- `.stage-<uuid>`. -/
  | stage (uuid : String)
  /-- `<version>-<target>-<digits>`. -/
  | release (name : String)
  deriving DecidableEq, Repr

/-- A `pika` in a bin directory. -/
inductive Launcher where
  /-- A link to `current/bin/pika` of the managed root. -/
  | managed
  | foreign
  deriving DecidableEq, Repr

structure Disk where
  /-- The managed root exists. -/
  root : Bool := false
  /-- `.pika-install-root`. -/
  marker : Option ByteArray := none
  releases : Option (Table ReleaseName Directory) := none
  /-- What the link `current` points to. -/
  current : Option ReleaseName := none
  /-- The links `.current-<uuid>`. -/
  temporaries : Table String ReleaseName := ∅
  /-- The `pika` of each bin directory. -/
  launchers : Table String Launcher := ∅
  /-- The links `.pika-launcher-<uuid>` of each bin directory, to `current/bin/pika`. -/
  stagedLaunchers : Table (String × String) Unit := ∅

/-- What an operation meets: a failure, a fresh identifier, and how much of a file it writes. -/
structure Chance where
  fault : Fault UpdateError := none
  uuid : String := ""
  written : Nat := 0
  deriving DecidableEq, Repr

abbrev Action (α : Type) := Fallible Chance Disk UpdateError α

/-- Change the disk. -/
abbrev change {α : Type} (f : Chance → Disk → Except UpdateError (α × Disk)) : Action α :=
  operate Chance.fault f

/-- Look at the disk. -/
abbrev look {α : Type} (f : Disk → Except UpdateError α) : Action α := inspect Chance.fault f

/-- A check of owners, permissions and links, or the creation of a directory. -/
def secure : Action Unit := look fun _ => .ok ()

/-- `sync_directory`, `sync_file`. -/
def sync : Action Unit := look fun _ => .ok ()

def rootMarker : ByteArray := "pikamux-installer-v1\n".toUTF8

def Disk.release? (disk : Disk) (name : ReleaseName) : Option Directory :=
  disk.releases.bind fun releases => releases.get? name

/-! ### The managed root -/

def Disk.isEmpty (disk : Disk) : Bool :=
  disk.marker.isNone && disk.releases.isNone && disk.current.isNone && disk.temporaries.rows.isEmpty

def initializeOrValidateRoot (existed : Bool) : Action Unit := do
  secure
  let marked ← look fun disk => .ok disk.marker.isSome
  if existed || marked then
    look fun disk => do
      let bytes ← context (.safety "cannot open managed root marker as a regular file: not found")
        disk.marker
      ensure (bytes = rootMarker)
        (.safety "root is not a Pika-managed installation; nothing overwritten")
  else do
    look fun disk => ensure disk.isEmpty (.safety "new installation root is not empty")
    change fun i disk => .ok ((), { disk with marker := some (rootMarker.extract 0 i.written) })
    change fun _ disk => .ok ((), { disk with marker := some rootMarker })
    sync
    sync

/-- Check the root, if there is one. -/
def validateRoot : Action Unit := do
  let existed ← look fun disk => .ok disk.root
  if existed then initializeOrValidateRoot true else return ()

/-- Make the root, or check the one there is. -/
def createRoot : Action Unit := do
  let existed ← look fun disk => .ok disk.root
  if existed then initializeOrValidateRoot true
  else do
    change fun _ disk => .ok ((), { disk with root := true })
    onError (initializeOrValidateRoot false) (change fun _ disk => do
      ensure disk.isEmpty (.io "Directory not empty")
      return ((), { disk with root := false }))

/-! ### Links -/

def validateCurrent (disk : Disk) : Except UpdateError Unit :=
  match disk.current with
  | none => .ok ()
  | some name => ensure (disk.release? name).isSome (.safety "activation symlink is broken")

def validateLauncher (binDir : String) (disk : Disk) : Except UpdateError Unit :=
  match disk.launchers.get? binDir with
  | none => .ok ()
  | some launcher => ensure (launcher = .managed)
      (.safety (binDir ++ "/pika belongs to another installation"))

def currentReceipt (lib : Library) (disk : Disk) : Except UpdateError (Option CurrentReceipt) :=
  match disk.current with
  | none => .ok none
  | some name => do
      let dir ← context (.io "No such file or directory") (disk.release? name)
      let receipt ← currentReceiptOf lib dir
      return some receipt

def addLauncher (binDir : String) (disk : Disk) : Except UpdateError (Unit × Disk) := do
  let launchers ← context (.io "File exists") (disk.launchers.insert? binDir .managed)
  return ((), { disk with launchers })

def ensureLauncher (binDir : String) : Action Unit := do
  look (validateLauncher binDir)
  let present ← look fun disk => .ok (disk.launchers.contains binDir)
  if present then return ()
  secure
  change fun _ => addLauncher binDir
  sync

def removeStagedLauncher (staged : String × String) (disk : Disk) :
    Except UpdateError (Unit × Disk) :=
  .ok ((), { disk with stagedLaunchers := disk.stagedLaunchers.delete fun link _ => link = staged })

def stageLauncher (binDir : String) : Action (Option (String × String)) := do
  look (validateLauncher binDir)
  let present ← look fun disk => .ok (disk.launchers.contains binDir)
  if present then return none
  secure
  let staged ← change fun i disk => do
    let stagedLaunchers ← context (.io "File exists")
      (disk.stagedLaunchers.insert? (binDir, i.uuid) ())
    return ((binDir, i.uuid), { disk with stagedLaunchers })
  sync
  return some staged

/-- `fs::rename` of a staged launcher, if the launcher is not there. -/
def renameStagedLauncher (binDir : String) (staged : String × String) : Action Unit := do
  let present ← look fun disk => .ok (disk.launchers.contains binDir)
  if present then do
    look (validateLauncher binDir)
    change fun _ => removeStagedLauncher staged
  else
    change fun _ disk => do
      let renamed ← addLauncher binDir disk
      removeStagedLauncher staged renamed.2

def publishStagedLauncher (binDir : String) (staged : String × String) : Action Unit := do
  renameStagedLauncher binDir staged
  match ← attempt sync with
  | .ok _ => return ()
  | .error e => do
      let link ← attempt (look fun disk => .ok (disk.launchers.get? binDir))
      if link.toOption.join = some .managed then return () else check (.error e)

inductive LinkActivation where
  | durable
  | switchedDurabilityUnconfirmed
  deriving DecidableEq, Repr

def removeTemporary (temporary : String) (disk : Disk) : Except UpdateError (Unit × Disk) :=
  .ok ((), { disk with temporaries := disk.temporaries.delete fun link _ => link = temporary })

/-- `fs::rename` of a temporary link to `current`. -/
def renameTemporary (temporary : String) (disk : Disk) : Except UpdateError (Unit × Disk) := do
  let target ← context (.io "No such file or directory") (disk.temporaries.get? temporary)
  removeTemporary temporary { disk with current := some target }

def atomicSymlink (target : ReleaseName) : Action LinkActivation := do
  let temporary ← change fun i disk => do
    let temporaries ← context (.io "File exists") (disk.temporaries.insert? i.uuid target)
    return (i.uuid, { disk with temporaries })
  onError sync (change fun _ => removeTemporary temporary)
  onError (change fun _ => renameTemporary temporary) (change fun _ => removeTemporary temporary)
  match ← attempt sync with
  | .ok _ => return .durable
  | .error e => do
      let link ← attempt (look fun disk => .ok disk.current)
      if link.toOption.join = some target then return .switchedDurabilityUnconfirmed
      else check (.error e)

/-! ### Staging a release -/

/-- Change the files of a release directory. -/
def changeDirectory (name : ReleaseName) (f : Directory → Except UpdateError Directory)
    (disk : Disk) : Except UpdateError (Unit × Disk) := do
  let releases ← context (.io "No such file or directory") disk.releases
  let dir ← context (.io "No such file or directory") (releases.get? name)
  let dir ← f dir
  return ((), { disk with releases := some (releases.modify name fun _ => dir) })

/-- `create_private_leaf` in `releases`. -/
def createLeaf (name : ReleaseName) (disk : Disk) : Except UpdateError (Unit × Disk) := do
  let releases ← context (.io "No such file or directory") disk.releases
  let releases ← context (.io "File exists") (releases.insert? name ∅)
  return ((), { disk with releases := some releases })

/-- `write_new_file` and `fs::copy`: the file is created, then filled. -/
def writeNewFile (stage : ReleaseName) (file : ReleaseFile) (bytes : ByteArray) : Action Unit := do
  change fun _ => changeDirectory stage fun dir =>
    context (.io "File exists") (dir.insert? file ByteArray.empty)
  change fun i => changeDirectory stage fun dir =>
    .ok (dir.modify file fun _ => bytes.extract 0 i.written)
  change fun _ => changeDirectory stage fun dir => .ok (dir.modify file fun _ => bytes)
  sync

def writeNewFiles (stage : ReleaseName) : List (ReleaseFile × ByteArray) → Action Unit
  | [] => return ()
  | (file, bytes) :: rest => do
      writeNewFile stage file bytes
      writeNewFiles stage rest

/-- A request that was verified: its artifact and what it extracts to. -/
structure Verified where
  artifact : ReleaseArtifact
  extracted : Extracted
  deriving DecidableEq

def prepareRelease (lib : Library) (stage : ReleaseName) (request : InstallRequest)
    (verified : Verified) : Action Unit := do
  secure
  writeNewFile stage .pika verified.extracted.pika
  check (validateCandidate lib verified.extracted.pika request.manifest.version)
  writeNewFiles stage (preparedFiles lib request verified.artifact verified.extracted).tail
  sync
  sync
  sync

/-- The files of a directory are removed, then the directory. -/
def removeFiles (stage : ReleaseName) : List ReleaseFile → Action Unit
  | [] =>
      change fun _ disk => do
        let releases ← context (.io "No such file or directory") disk.releases
        let dir ← context (.io "No such file or directory") (releases.get? stage)
        ensure dir.rows.isEmpty (.io "Directory not empty")
        return ((), { disk with releases := some (releases.delete fun name _ => name = stage) })
  | file :: rest => do
      change fun _ => changeDirectory stage fun dir => .ok (dir.delete fun other _ => other = file)
      removeFiles stage rest

/-- `fs::remove_dir_all`. -/
def removeDirAll (stage : ReleaseName) : Action Unit := do
  let dir ← look fun disk => context (.io "No such file or directory") (disk.release? stage)
  removeFiles stage (dir.rows.map Prod.fst)

/-- `fs::rename` of a stage to the name of its release. -/
def renameStage (stage name : ReleaseName) (disk : Disk) : Except UpdateError (Unit × Disk) := do
  let releases ← context (.io "No such file or directory") disk.releases
  let dir ← context (.io "No such file or directory") (releases.get? stage)
  let releases ← context (.io "File exists")
    ((releases.delete fun other _ => other = stage).insert? name dir)
  return ((), { disk with releases := some releases })

/-! ### Installing -/

/-- The directory `releases`. -/
def provideReleases : Action Unit := do
  let present ← look fun disk => .ok disk.releases.isSome
  if present then secure
  else change fun _ disk => .ok ((), { disk with releases := some ∅ })

/-- The checks of a request that come before any of the managed root. -/
def verifyRequest (lib : Library) (request : InstallRequest) : Except UpdateError Verified := do
  request.manifest.validate
  ensure (request.target = lib.nativeTarget)
    (.safety ("artifact target " ++ request.target ++ " does not match this machine (" ++
      lib.nativeTarget ++ ")"))
  let artifact ← request.manifest.artifactFor request.target
  ensure (request.artifactFile = artifact.file)
    (.safety "artifact filename does not match manifest")
  verifyArtifact lib request.artifact artifact
  let extracted ← extractCandidate lib request.artifact request.target
  compareCandidateBytes lib request.candidate extracted.pika
  return ⟨artifact, extracted⟩

def releaseName (request : InstallRequest) (artifact : ReleaseArtifact) : ReleaseName :=
  .release (request.manifest.version ++ "-" ++ request.target ++ "-" ++
    String.ofList (artifact.sha256.toList.take 12))

inductive Outcome where
  | installed (release : ReleaseName) (activated : Bool)
  | rolledBack (previous version : String)
  deriving DecidableEq, Repr

/-- The release that is there, or a new one. -/
def provideRelease (lib : Library) (request : InstallRequest) (verified : Verified) :
    Action ReleaseName := do
  let name := releaseName request verified.artifact
  let existing ← look fun disk => .ok (disk.release? name)
  match existing with
  | some dir =>
      look fun _ => validateExistingRelease lib dir request verified.artifact verified.extracted
      return name
  | none => do
      let stage ← change fun i disk => do
        let created ← createLeaf (.stage i.uuid) disk
        return (ReleaseName.stage i.uuid, created.2)
      onError (prepareRelease lib stage request verified) (removeDirAll stage)
      onError (change fun _ => renameStage stage name) (removeDirAll stage)
      sync
      return name

/-- A launcher that was staged is removed again. -/
def discardLauncher : Option (String × String) → Action Unit
  | some staged => do
      let _ ← attempt (change fun _ => removeStagedLauncher staged)
      sync
  | none => return ()

def publishLauncher (binDir : String) : Option (String × String) → Action Unit
  | some staged => publishStagedLauncher binDir staged
  | none => return ()

/-- Switch to a release, then publish the launcher. -/
def activate (binDir : String) (name : ReleaseName) : Action Outcome := do
  let staged ← stageLauncher binDir
  let _ ← onError (atomicSymlink name) (discardLauncher staged)
  publishLauncher binDir staged
  return .installed name true

/-- The version that is current is installed again: nothing but its launcher may be missing. -/
def reinstall (lib : Library) (request : InstallRequest) (verified : Verified)
    (receipt : CurrentReceipt) : Action Outcome := do
  require (receipt.schema = manifestSchema && receipt.kind = some "native" &&
      receipt.target = some request.target && receipt.sha256 = verified.artifact.sha256)
    (.safety "same version has different package bytes; publish a new version")
  let name ← look fun disk => context (.io "No such file or directory") disk.current
  look fun disk => do
    let dir ← context (.io "No such file or directory") (disk.release? name)
    validateExistingRelease lib dir request verified.artifact verified.extracted
  ensureLauncher request.binDir
  return .installed name false

def installStaged (lib : Library) (request : InstallRequest) : Action Outcome := do
  let verified ← check (verifyRequest lib request)
  secure
  validateRoot
  look (validateLauncher request.binDir)
  check (validateCandidate lib verified.extracted.pika request.manifest.version)
  createRoot
  secure
  initializeOrValidateRoot true
  provideReleases
  sync
  sync
  look validateCurrent
  look (validateLauncher request.binDir)
  match ← look (currentReceipt lib) with
  | some receipt => do
      require (receipt.root = lib.root && receipt.binDir = request.binDir)
        (.safety "current release receipt does not own this installation")
      match ← check (compareVersions request.manifest.version receipt.version) with
      | .lt => check (.error (.safety "refusing a release downgrade; nothing activated"))
      | .eq => reinstall lib request verified receipt
      | .gt => do
          let name ← provideRelease lib request verified
          activate request.binDir name
  | none => do
      let name ← provideRelease lib request verified
      activate request.binDir name

/-! ### Rolling back -/

structure ManagedInstallation where
  binDir : String
  release : ReleaseName
  version : String
  sha256 : String
  deriving DecidableEq, Repr

/-- `discover_managed_install`, of the executable `bin/pika` in a release. -/
def discoverManagedInstall (lib : Library) (executable : ReleaseName) (disk : Disk) :
    Except UpdateError ManagedInstallation := do
  let dir ← context .unmanaged (disk.release? executable)
  ensure (dir.contains .pika) .unmanaged
  let receipt ← (currentReceiptOf lib dir).mapError fun _ => .unmanaged
  ensure (receipt.root = lib.root && disk.marker = some rootMarker) .unmanaged
  ensure (disk.current = some executable) .unmanaged
  ensure (succeeds (validateLauncher receipt.binDir disk)) .unmanaged
  return ⟨receipt.binDir, executable, receipt.version, receipt.sha256⟩

/-- The releases that may be rolled back to, among these entries of `releases`; `index` is the place
of the first. -/
def retainedReleases (lib : Library) (managed : ManagedInstallation) (requested : Option String) :
    Nat → List (ReleaseName × Directory) → Action (List (VersionKey × String × ReleaseName))
  | _, [] => return []
  | index, (name, dir) :: rest => do
      require (index < 256)
        (.safety "retained release inventory exceeds 256 entries; nothing activated")
      secure
      if name = managed.release then retainedReleases lib managed requested (index + 1) rest
      else do
        match ← attempt (look fun _ => validateRetainedRelease lib dir managed.binDir
            lib.nativeTarget) with
        | .error _ => retainedReleases lib managed requested (index + 1) rest
        | .ok version => do
            let order ← check (compareVersions version managed.version)
            if order = .lt && requested.all (· = version) then do
              let key ← check (parseVersion version)
              let others ← retainedReleases lib managed requested (index + 1) rest
              return (key, version, name) :: others
            else retainedReleases lib managed requested (index + 1) rest

def rollbackManaged (lib : Library) (executable : ReleaseName) (requested : Option String) :
    Action Outcome := do
  check (requested.elim (.ok ()) fun version => (parseVersion version).map fun _ => ())
  let managed ← look (discoverManagedInstall lib executable)
  secure
  initializeOrValidateRoot true
  look validateCurrent
  look fun disk => ensure (disk.current = some managed.release)
    (.safety "active release changed while rollback was starting; retry explicitly")
  look (validateLauncher managed.binDir)
  let entries ← look fun disk => context (.io "No such file or directory")
    (disk.releases.map Table.rows)
  let candidates ← retainedReleases lib managed requested 0 entries
  let chosen ← expect
    (.safety ((requested.elim "no prior validated native release is retained" fun version =>
      "retained release " ++ version ++ " is absent or failed validation") ++ "; nothing activated"))
    (candidates.mergeSort fun left right => !(right.1 < left.1)).getLast?
  let _ ← atomicSymlink chosen.2.2
  look (validateLauncher managed.binDir)
  return .rolledBack managed.version chosen.2.1

/-! ### Runs -/

inductive Call where
  | install (request : InstallRequest)
  | rollback (executable : ReleaseName) (requested : Option String)

def Call.code (lib : Library) : Call → Program Chance Disk (Except UpdateError Outcome)
  | install request => (installStaged lib request).run
  | rollback executable requested => (rollbackManaged lib executable requested).run

end Pikamux.Update
