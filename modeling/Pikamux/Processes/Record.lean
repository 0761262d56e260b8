import Pikamux.Model
import Pikamux.Support.Lines
import Pikamux.Support.Map
import Pikamux.Support.Uuid

/-!
# Processes — Record

`process.rs`: the processes of one observation, and which provider a command line belongs to.

Paths are read as on Unix.  A command line is never executed or parsed further than its first
arguments: `processKind` is a hint, and the claim to a conversation needs its id
(`findSessionProcesses` in the next module).
-/

namespace Pikamux.Processes

open Std Support

/-! ### Paths -/

/-- `std::path::Component`. -/
inductive Component where
  | rootDir
  | curDir
  | parentDir
  | normal (name : String)
  deriving DecidableEq, Repr

/-- A piece of a path by its place: empty pieces are skipped, and `.` counts only in front. -/
def component (piece : List Char) (place : Nat) : Option Component :=
  if piece = [] then none
  else if piece = ['.'] then if place = 0 then some .curDir else none
  else if piece = ['.', '.'] then some .parentDir
  else some (.normal (String.ofList piece))

/-- `Path::is_absolute` -/
def isAbsolute (path : String) : Bool := path.toList.head? = some '/'

/-- `Path::components` -/
def components (path : String) : List Component :=
  let pieces := (path.toList.splitOn '/').zipIdx.filterMap fun (piece, place) =>
    component piece place
  if isAbsolute path then .rootDir :: pieces else pieces

/-- The last component, if it is a name. -/
def lastName (components : List Component) : Option String :=
  match components.getLast? with
  | some (.normal name) => some name
  | _ => none

/-- `Path::parent`, of a path by its components. -/
def parentPath (components : List Component) : Option (List Component) :=
  match components.getLast? with
  | some .rootDir | none => none
  | some _ => some components.dropLast

/-- `Path::file_name` -/
def fileName (path : String) : Option String := lastName (components path)

def toAsciiLowercase (text : String) : String := String.ofList (text.toList.map Char.toLower)

/-- A number as it stands in a version. -/
def allDigits (text : List Char) : Bool := !text.isEmpty && text.all fun c => '0' ≤ c && c ≤ '9'

/-- Three numbers with points between them. -/
def isRelease (text : List Char) : Bool :=
  let parts := text.splitOn '.'
  parts.length = 3 && parts.all allDigits

/-! ### Kinds -/

/-- `is_muse_native_name` -/
def isMuseNativeName (name : String) : Bool :=
  let stem := "muse-bin-".toList
  if stem.isPrefixOf name.toList then
    let version := name.toList.drop stem.length
    let (release, build) := ((splitOnce ['-', 'R'] version).or
      (splitOnce ['-', 'r'] version)).getD ([], [])
    isRelease release &&
      if build.all fun c => '0' ≤ c && c ≤ '9' then !build.isEmpty
      else match splitOnce ['.'] build with
        | some (number, patch) => allDigits number && allDigits patch
        | none => false
  else false

/-- `muse_executable_index` -/
def museExecutableIndex (argv : List String) : Option Nat :=
  let name (index : Nat) := (argv[index]?.bind fileName).map toAsciiLowercase
  if name 0 = some "muse" || (name 0).any isMuseNativeName then some 0
  else if (["sh", "bash", "zsh", "dash"].any fun shell => name 0 = some shell) &&
      name 1 = some "muse" then some 1
  else none

/-- `claude_version_executable` -/
def claudeVersionExecutable (path : String) : Bool :=
  match parentPath (components path), fileName path with
  | some parent, some version =>
      isAbsolute path && lastName parent = some "versions" &&
        (parentPath parent).bind lastName = some "claude" && isRelease version.toList
  | _, _ => false

/-- The provider that an argument names. -/
def namedProvider (value : String) : Option Provider :=
  match toAsciiLowercase ((fileName value).getD value) with
  | "codex" | "codex.js" => some .codex
  | "claude" | "claude-code" => some .claude
  | "opencode" | "opencode.js" => some .opencode
  | _ => none

/-- `process_kind`.  A command of pika carries a provider and an id as data. -/
def processKind (argv : List String) : Option Provider :=
  if (argv.head?.bind fileName).any fun name =>
      toAsciiLowercase name ∈ ["pika", "pika.exe"] then none
  else if (museExecutableIndex argv).isSome then some .muse
  else if argv.head?.any claudeVersionExecutable then some .claude
  else (argv.take 4).findSome? namedProvider

theorem processKind_nil : processKind [] = none := rfl

/-! ### Processes -/

/-- `ProcessRecord`.  A process is one generation of a pid. -/
structure ProcessRecord where
  pid : Int
  parentPid : Option Int
  startTime : Nat
  argv : List String
  deriving DecidableEq, Repr

structure ProcessGeneration where
  pid : Int
  startTime : Nat
  deriving DecidableEq, Repr

namespace ProcessRecord

def provider (self : ProcessRecord) : Option Provider := processKind self.argv

def generation (self : ProcessRecord) : ProcessGeneration :=
  { pid := self.pid, startTime := self.startTime }

theorem argv_ne_nil {self : ProcessRecord} (h : self.provider.isSome = true) : self.argv ≠ [] := by
  intro hnil
  rw [provider, hnil, processKind_nil] at h
  cases h

end ProcessRecord

/-- An observation: each process under its pid. -/
structure Observed where
  records : ExtTreeMap Int ProcessRecord compare
  keyed : ∀ (pid : Int) (record : ProcessRecord), records[pid]? = some record → record.pid = pid

namespace Observed

def empty : Observed := ⟨∅, by simp⟩

/-- A process that was read, in the place of what was read under its pid. -/
def insert (self : Observed) (record : ProcessRecord) : Observed where
  records := self.records.insert record.pid record
  keyed := by
    intro pid other h
    rw [ExtTreeMap.getElem?_insert] at h
    split at h
    case isTrue hpid =>
      obtain rfl := Option.some.inj h
      exact LawfulEqCmp.eq_of_compare hpid
    case isFalse => exact self.keyed pid other h

/-- The processes in the order of their pids. -/
def values (self : Observed) : List ProcessRecord := self.records.toList.map Prod.snd

theorem mem_values {self : Observed} {record : ProcessRecord} :
    record ∈ self.values ↔ self.records[record.pid]? = some record := by
  rw [values, List.mem_map]
  constructor
  · rintro ⟨⟨pid, other⟩, h, rfl⟩
    rw [ExtTreeMap.mem_toList_iff_getElem?_eq_some] at h
    rwa [self.keyed pid other h]
  · intro h
    exact ⟨(record.pid, record), ExtTreeMap.mem_toList_iff_getElem?_eq_some.mpr h, rfl⟩

/-- `collect_observation`, of the processes that could be read. -/
def collect (records : List ProcessRecord) : Observed := records.foldl insert empty

end Observed

end Pikamux.Processes
