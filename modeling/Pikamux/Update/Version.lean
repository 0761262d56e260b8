import Mathlib.Algebra.Order.Ring.Nat
import Mathlib.Data.List.Lex
import Mathlib.Data.List.SplitOn
import Pikamux.Support.Result

/-!
# Update — Version

Release versions of `update.rs`: three numbers and a phase, in the old and the new spelling, ordered
lexicographically.
-/

namespace Pikamux.Update

open Support

inductive UpdateError where
  | manifest (message : String)
  | unsupportedTarget (target : String)
  | checksumMismatch
  | unsafeArchiveMember (member : String)
  | safety (message : String)
  | candidate (message : String)
  | releaseLookup (message : String)
  | unmanaged
  | busy
  | io (message : String)
  deriving DecidableEq, Repr

structure VersionKey where
  major : Nat
  minor : Nat
  patch : Nat
  phase : Nat
  phaseNumber : Nat
  deriving DecidableEq, Repr

def VersionKey.parts (k : VersionKey) : List Nat :=
  [k.major, k.minor, k.patch, k.phase, k.phaseNumber]

instance : LT VersionKey := ⟨fun a b => a.parts < b.parts⟩

instance (a b : VersionKey) : Decidable (a < b) := inferInstanceAs (Decidable (a.parts < b.parts))

def number (value : List Char) : Except UpdateError Nat := do
  ensure (!value.isEmpty && value.all Char.isDigit) (.manifest "unsupported version")
  ensure (Nat.ofDigitChars 10 value 0 < 2 ^ 64) (.manifest "version number is too large")
  return Nat.ofDigitChars 10 value 0

/-- The phases and how they are spelled. -/
def phases : List (List Char × Nat) :=
  [(['a'], 0), (['b'], 1), (['r', 'c'], 2), ("-alpha.".toList, 0), ("-beta.".toList, 1),
    ("-rc.".toList, 2)]

def parsePhase (suffix : List Char) : Except UpdateError (Nat × Nat) :=
  if suffix.isEmpty then .ok (3, 0)
  else
    match phases.find? fun p => p.1.isPrefixOf suffix with
    | some p => (number (suffix.drop p.1.length)).map fun n => (p.2, n)
    | none => .error (.manifest "unsupported version")

/-- Where the suffix of a version begins. -/
def beginsSuffix (c : Char) : Bool := c.isAlpha || c = '-'

def parseVersion (value : String) : Except UpdateError VersionKey := do
  let core := value.toList.takeWhile fun c => !beginsSuffix c
  let suffix := value.toList.dropWhile fun c => !beginsSuffix c
  match core.splitOn '.' with
  | [major, minor, patch] => do
      let major ← number major
      let minor ← number minor
      let patch ← number patch
      let phase ← parsePhase suffix
      return ⟨major, minor, patch, phase.1, phase.2⟩
  | _ => .error (.manifest "unsupported version")

def compareVersions (left right : String) : Except UpdateError Ordering := do
  let left ← parseVersion left
  let right ← parseVersion right
  return if left < right then .lt else if left = right then .eq else .gt

end Pikamux.Update
