import Pikamux.Processes.Record
import Pikamux.Support.Result
import Pikamux.Support.Table

/-!
# Setup — Changes

`setup.rs`: applying a reviewed batch of file changes.  Every new text is staged beside its target,
all targets are read again, those that exist are backed up, and then the staged files are renamed
into place.

A file system is a table of text files; links and directories only make steps fail, which is an
input.  What undoes a batch succeeds.
-/

namespace Pikamux.Setup

open Support Processes

abbrev Path := List Component

abbrev Files := Table Path String

structure FileChange where
  path : Path
  before : String
  after : String
  deriving DecidableEq, Repr

def FileChange.changed (change : FileChange) : Bool := change.before ≠ change.after

/-- A change with its place among those of the batch that change something. -/
abbrev Item := FileChange × Nat

/-- The three times that a target is read. -/
inductive Reading where
  | reviewed
  | staged
  | backedUp
  deriving DecidableEq, Repr

/-- What may fail, by the place of the change. -/
inductive Step where
  /-- `reject_symlink_target`, before a target is read. -/
  | link (reading : Reading) (index : Nat)
  | read (reading : Reading) (index : Nat)
  | createDir (index : Nat)
  /-- `reject_symlink_target`, before a file is staged. -/
  | linkStaging (index : Nat)
  | stage (index : Nat)
  /-- `exists` of a target. -/
  | present (index : Nat)
  /-- `exists` of a name for its backup. -/
  | presentBackup (index attempt : Nat)
  | copy (index : Nat)
  | rename (index : Nat)
  | permissions (index : Nat)
  deriving DecidableEq, Repr

inductive SetupError where
  | invalidStamp
  | duplicateTarget (path : Path)
  | changedSincePreview (path : Path)
  | noParent
  | failed (step : Step)
  /-- No loop of the source ends so. -/
  | unfinished
  deriving DecidableEq, Repr

structure ApplyReceipt where
  written : List Path
  backups : List Path
  deriving DecidableEq, Repr

/-- What a call is given from outside. -/
structure Env where
  processId : Nat := 0
  fails : Step → Bool := fun _ => false
  /-- What a copy that fails leaves under the name of the backup. -/
  leaves : Nat → Option String := fun _ => none

def Env.perform (env : Env) (step : Step) : Except SetupError Unit :=
  ensure (!env.fails step) (.failed step)

/-! ### Names -/

/-- `Path::with_file_name` -/
def withFileName (path : Path) (name : String) : Path :=
  if (lastName path).isSome then path.dropLast ++ [.normal name] else path ++ [.normal name]

def temporaryName (processId : Nat) (name : String) (index : Nat) : String :=
  "." ++ name ++ "." ++ toString processId ++ "." ++ toString index ++ ".tmp"

def Env.temporary (env : Env) (item : Item) : Path :=
  withFileName item.1.path
    (temporaryName env.processId ((lastName item.1.path).getD "pika") item.2)

/-- The first name has no suffix, the next ones count from 2. -/
def backupName (stamp name : String) (attempt : Nat) : String :=
  name ++ ".pika-backup-" ++ stamp ++ (if attempt ≤ 1 then "" else "-" ++ toString attempt)

def backupPath (stamp : String) (path : Path) (attempt : Nat) : Path :=
  withFileName path (backupName stamp ((lastName path).getD "config") attempt)

/-! ### Reading -/

def validateStamp (stamp : String) : Except SetupError Unit :=
  ensure (stamp ≠ "" && stamp.toList.all fun c => c.isAlphanum || c = '-' || c = '_') .invalidStamp

def readOptionalText (env : Env) (files : Files) (reading : Reading) (item : Item) :
    Except SetupError String := do
  env.perform (.read reading item.2)
  return (files.get? item.1.path).getD ""

/-- The target is as it was reviewed. -/
def revalidate (env : Env) (files : Files) (reading : Reading) (item : Item) :
    Except SetupError Unit := do
  env.perform (.link reading item.2)
  let current ← readOptionalText env files reading item
  ensure (current = item.1.before) (.changedSincePreview item.1.path)

/-- The first pass, with the targets it has seen. -/
def validateTargets (env : Env) (files : Files) : List Path → List Item → Except SetupError Unit
  | _, [] => .ok ()
  | targets, item :: rest => do
      ensure (!targets.contains item.1.path) (.duplicateTarget item.1.path)
      revalidate env files .reviewed item
      validateTargets env files (item.1.path :: targets) rest

/-! ### Undoing -/

def removeAll (paths : List Path) (files : Files) : Files :=
  loop paths files fun files path => files.erase path

def removeStaged (env : Env) (staged : List Item) (files : Files) : Files :=
  removeAll (staged.map env.temporary) files

/-- A target goes back to its backup, or goes if it has none. -/
def restore (backups : List (Path × Path)) (files : Files) (path : Path) : Files :=
  match backups.find? fun backup => backup.1 = path with
  | some (_, backup) =>
      match files.get? backup with
      | some content => files.upsert path content
      | none => files
  | none => files.erase path

def restoreWritten (written : List Path) (backups : List (Path × Path)) (files : Files) : Files :=
  loop written.reverse files (restore backups)

/-! ### The passes -/

/-- What comes before the file of a change is staged. -/
def prepare (env : Env) (item : Item) : Except SetupError Unit := do
  let _ ← context .noParent (parentPath item.1.path)
  env.perform (.createDir item.2)
  env.perform (.linkStaging item.2)

/-- A new file with the new text, unless there is one. -/
def stage (env : Env) (item : Item) (files : Files) : Except SetupError Files := do
  env.perform (.stage item.2)
  context (.failed (.stage item.2)) (files.insert? (env.temporary item) item.1.after)

def stageAll (env : Env) : List Item → List Item → Files → Except SetupError Unit × Files
  | _, [], files => (.ok (), files)
  | staged, item :: rest, files =>
      match prepare env item with
      -- what was staged before is left
      | .error e => (.error e, files)
      | .ok () =>
          match stage env item files with
          | .ok next => stageAll env (staged ++ [item]) rest next
          | .error e => (.error e, (removeStaged env staged files).erase (env.temporary item))

/-- The loop that looks for a free name. -/
def freeBackup (env : Env) (stamp : String) (files : Files) (item : Item) : Nat → Nat → Option Path
  | 0, _ => none
  | fuel + 1, attempt =>
      let path := backupPath stamp item.1.path attempt
      if files.contains path && !env.fails (.presentBackup item.2 attempt) then
        freeBackup env stamp files item fuel (attempt + 1)
      else some path

/-- A copy of the target under a free name; each file that exists takes at most one of the names. -/
def backUp (env : Env) (stamp : String) (item : Item) (content : String) (files : Files) :
    Except (SetupError × Files) (Path × Files) :=
  match freeBackup env stamp files item (files.rows.length + 1) 1 with
  | none => .error (.unfinished, files)
  | some path =>
      if env.fails (.copy item.2) then
        .error (.failed (.copy item.2), (env.leaves item.2).elim files (files.upsert path))
      else .ok (path, files.upsert path content)

def backupAll (env : Env) (stamp : String) (staged : List Item) : List (Path × Path) →
    List Item → Files → Except SetupError (List (Path × Path)) × Files
  | backups, [], files => (.ok backups, files)
  | backups, item :: rest, files =>
      match (files.get? item.1.path).filter fun _ => !env.fails (.present item.2) with
      | none => backupAll env stamp staged backups rest files
      | some content =>
          match backUp env stamp item content files with
          | .ok (path, next) =>
              backupAll env stamp staged (backups ++ [(item.1.path, path)]) rest next
          | .error (e, next) =>
              (.error e, removeAll (backups.map Prod.snd) (removeStaged env staged next))

/-- The staged file takes the place of the target. -/
def replace (env : Env) (item : Item) (files : Files) : Except SetupError Files := do
  revalidate env files .backedUp item
  env.perform (.rename item.2)
  let content ← context (.failed (.rename item.2)) (files.get? (env.temporary item))
  return (files.erase (env.temporary item)).upsert item.1.path content

def replaceAll (env : Env) (staged : List Item) (backups : List (Path × Path)) :
    List Path → List Item → Files → Except SetupError (List Path) × Files
  | written, [], files => (.ok written, files)
  | written, item :: rest, files =>
      match replace env item files with
      | .error e => (.error e, removeStaged env staged (restoreWritten written backups files))
      | .ok next =>
          let written := written ++ [item.1.path]
          if env.fails (.permissions item.2) then
            (.error (.failed (.permissions item.2)),
              removeStaged env staged (restoreWritten written backups next))
          else replaceAll env staged backups written rest next

/-- The changes that change something, in order. -/
def items (changes : List FileChange) : List Item := (changes.filter FileChange.changed).zipIdx

/-- What follows when all changes are staged. -/
def applyStaged (env : Env) (items : List Item) (stamp : String) (files : Files) :
    Except SetupError ApplyReceipt × Files :=
  match forM items (revalidate env files .staged) with
  | .error e => (.error e, removeStaged env items files)
  | .ok () =>
      match backupAll env stamp items [] items files with
      | (.error e, files) => (.error e, files)
      | (.ok backups, files) =>
          let result := replaceAll env items backups [] items files
          (result.1.map fun written => ⟨written, backups.map Prod.snd⟩, result.2)

def applyChanges (env : Env) (changes : List FileChange) (stamp : String) (files : Files) :
    Except SetupError ApplyReceipt × Files :=
  let items := items changes
  match validateStamp stamp >>= fun _ => validateTargets env files [] items with
  | .error e => (.error e, files)
  | .ok () =>
      match stageAll env [] items files with
      | (.error e, files) => (.error e, files)
      | (.ok (), files) => applyStaged env items stamp files

end Pikamux.Setup
