import Pikamux.Channel.Operation
import Pikamux.Support.Table
import Pikamux.Update.Version

/-!
# Update — Release

A release directory of `update.rs`: what an installation writes into it, and the checks that an
existing one passes.  A directory is its files by path; owners and permissions are not in the model,
and a check of them may fail like any other operation.

What stands outside the repository is a `Library`: digests, `tar`, running the executable, and
`serde_json`.
-/

namespace Pikamux.Update

open Support

structure ReleaseArtifact where
  file : String
  sha256 : String
  bytes : Nat
  deriving DecidableEq, Repr

structure ReleaseManifest where
  schema : Nat
  package : String
  version : String
  channel : String
  artifacts : List (String × ReleaseArtifact)
  deriving DecidableEq, Repr

structure InstallReceipt where
  schema : Nat
  kind : String
  root : String
  binDir : String
  version : String
  target : String
  artifact : String
  sha256 : String
  deriving DecidableEq, Repr

structure CurrentReceipt where
  schema : Nat
  root : String
  binDir : String
  version : String
  sha256 : String
  kind : Option String
  target : Option String
  deriving DecidableEq, Repr

/-- Bytes are compared as they are. -/
instance decidableEqBytes : DecidableEq ByteArray := fun a b =>
  decidable_of_iff (a.data = b.data) ⟨ByteArray.ext, congrArg ByteArray.data⟩

/-- The files of an archive. -/
structure Extracted where
  pika : ByteArray
  license : ByteArray
  thirdParty : ByteArray
  deriving DecidableEq

structure Library where
  /-- The managed root. -/
  root : String
  /-- `native_target`. -/
  nativeTarget : String
  /-- SHA-256 in hexadecimal. -/
  digest : ByteArray → String
  /-- What `tar` extracts from an archive whose members are as they should be. -/
  extract : ByteArray → Except UpdateError Extracted
  /-- What an executable prints when it is run with these arguments. -/
  run : ByteArray → List String → Except UpdateError String
  readManifest : ByteArray → Except UpdateError ReleaseManifest
  printManifest : ReleaseManifest → ByteArray
  readReceipt : ByteArray → Except UpdateError InstallReceipt
  readCurrentReceipt : ByteArray → Except UpdateError CurrentReceipt
  printReceipt : InstallReceipt → ByteArray
  /-- `scripts/install.sh`, as it is in this executable. -/
  installer : ByteArray

/-- What an installation receipt says to those that read fewer fields. -/
def InstallReceipt.current (r : InstallReceipt) : CurrentReceipt where
  schema := r.schema
  root := r.root
  binDir := r.binDir
  version := r.version
  sha256 := r.sha256
  kind := some r.kind
  target := some r.target

/-- What is known of `serde_json`: a receipt that was printed is read back, and one that is read
with all its fields is read with some of them. -/
structure Library.Faithful (lib : Library) : Prop where
  printed : ∀ r, lib.readReceipt (lib.printReceipt r) = .ok r
  current : ∀ text r, lib.readReceipt text = .ok r → lib.readCurrentReceipt text = .ok r.current

def manifestSchema : Nat := 2

def maxManifestBytes : Nat := 64 * 1024

def maxArtifactBytes : Nat := 20 * 1024 * 1024

def maxExecutableBytes : Nat := 50 * 1024 * 1024

def maxNoticeBytes : Nat := 2 * 1024 * 1024

/-! ### Manifests -/

def validateTarget (target : String) : Except UpdateError Unit :=
  ensure (target ∈ ["aarch64-apple-darwin", "x86_64-apple-darwin", "aarch64-unknown-linux-musl",
    "x86_64-unknown-linux-musl", "x86_64-pc-windows-msvc"]) (.unsupportedTarget target)

def validateSha256 (value : String) : Except UpdateError Unit :=
  ensure (value.utf8ByteSize = 64 && value.toList.all fun c => c.isDigit || ('a' ≤ c && c ≤ 'f'))
    (.manifest "sha256 must be 64 lowercase hexadecimal characters")

def artifactName (version target : String) : Except UpdateError String := do
  let _ ← parseVersion version
  validateTarget target
  return "pikamux-" ++ version ++ "-" ++ target ++
    (if target = "x86_64-pc-windows-msvc" then ".zip" else ".tar.gz")

def validateArtifact (version : String) (entry : String × ReleaseArtifact) :
    Except UpdateError Unit := do
  validateTarget entry.1
  let expected ← artifactName version entry.1
  ensure (entry.2.file = expected)
    (.manifest ("artifact for " ++ entry.1 ++ " must be named " ++ expected))
  validateSha256 entry.2.sha256
  ensure (entry.2.bytes ≠ 0 && entry.2.bytes ≤ maxArtifactBytes)
    (.manifest ("artifact for " ++ entry.1 ++ " has an invalid size"))

def ReleaseManifest.validate (m : ReleaseManifest) : Except UpdateError Unit := do
  ensure (m.schema = manifestSchema)
    (.manifest ("schema " ++ toString m.schema ++ " is unsupported"))
  ensure (m.package = "pikamux") (.manifest "package must be pikamux")
  let version ← parseVersion m.version
  ensure (m.channel = "preview" || m.channel = "stable")
    (.manifest "channel must be preview or stable")
  ensure (!(m.channel = "stable" && version.phase ≠ 3))
    (.manifest "stable channel cannot contain a prerelease")
  ensure (!m.artifacts.isEmpty) (.manifest "no target artifacts")
  forM m.artifacts (validateArtifact m.version)

def ReleaseManifest.artifactFor (m : ReleaseManifest) (target : String) :
    Except UpdateError ReleaseArtifact := do
  validateTarget target
  context (.manifest ("release has no artifact for " ++ target)) (m.artifacts.lookup target)

/-- `ReleaseManifest::parse`. -/
def parseManifest (lib : Library) (bytes : ByteArray) : Except UpdateError ReleaseManifest := do
  ensure (bytes.size ≤ maxManifestBytes) (.manifest "manifest exceeds 64 KiB")
  let manifest ← lib.readManifest bytes
  manifest.validate
  return manifest

/-! ### Files -/

/-- The files of a release directory. -/
inductive ReleaseFile where
  /-- `bin/pika`. -/
  | pika
  /-- `.pika-install.json`. -/
  | receipt
  /-- `LICENSE`. -/
  | license
  /-- `THIRD_PARTY.md`. -/
  | thirdParty
  /-- `bundle/<file>`, the archive. -/
  | artifact (file : String)
  /-- `bundle/pika-native-release.json`. -/
  | manifest
  /-- `bundle/<file>.sha256`. -/
  | sidecar (file : String)
  /-- `bundle/pika-version`. -/
  | version
  /-- `bundle/install.sh`. -/
  | installer
  /-- `bundle/LICENSE`. -/
  | bundleLicense
  /-- `bundle/THIRD_PARTY.md`. -/
  | bundleThirdParty
  deriving DecidableEq, Repr

def ReleaseFile.path : ReleaseFile → String
  | pika => "bin/pika"
  | receipt => ".pika-install.json"
  | license => "LICENSE"
  | thirdParty => "THIRD_PARTY.md"
  | artifact file => "bundle/" ++ file
  | manifest => "bundle/pika-native-release.json"
  | sidecar file => "bundle/" ++ file ++ ".sha256"
  | version => "bundle/pika-version"
  | installer => "bundle/install.sh"
  | bundleLicense => "bundle/LICENSE"
  | bundleThirdParty => "bundle/THIRD_PARTY.md"

/-- A directory is its files. -/
abbrev Directory := Table ReleaseFile ByteArray

def readFile (dir : Directory) (file : ReleaseFile) : Except UpdateError ByteArray :=
  context (.io (file.path ++ ": No such file or directory")) (dir.get? file)

/-- `read_regular_bounded`. -/
def readBounded (dir : Directory) (file : ReleaseFile) (limit : Nat) (description : String) :
    Except UpdateError ByteArray := do
  let bytes ← context (.safety ("cannot open " ++ description ++ " as a regular file: not found"))
    (dir.get? file)
  ensure (bytes.size ≠ 0 && bytes.size ≤ limit)
    (.safety (description ++ " has an invalid size: " ++ file.path))
  return bytes

def verifyArtifact (lib : Library) (bytes : ByteArray) (artifact : ReleaseArtifact) :
    Except UpdateError Unit := do
  ensure (bytes.size = artifact.bytes) .checksumMismatch
  ensure (lib.digest bytes = artifact.sha256) .checksumMismatch

/-- `str::lines().count()`. -/
def countLines (text : List Char) : Nat :=
  if text.getLast? = some '\n' then text.count '\n'
  else if text.isEmpty then 0 else text.count '\n' + 1

/-- `str::trim`. -/
def trim (text : List Char) : List Char :=
  ((text.dropWhile Channel.isWhitespace).reverse.dropWhile Channel.isWhitespace).reverse

/-- The text of one line. -/
def oneLine (text : String) : Option String :=
  if countLines text.toList = 1 then some (String.ofList (trim text.toList)) else none

def verifySidecar (dir : Directory) (artifact : ReleaseArtifact) : Except UpdateError Unit := do
  let bytes ← (readBounded dir (.sidecar artifact.file) 256 "artifact checksum").mapError
    fun _ => .checksumMismatch
  let value ← context .checksumMismatch (String.fromUTF8? bytes)
  ensure (oneLine value = some artifact.sha256) .checksumMismatch

def validateNoticeFile (dir : Directory) (file : ReleaseFile) (expected : ByteArray) :
    Except UpdateError Unit := do
  let bytes ← readBounded dir file maxNoticeBytes "release notice"
  ensure (bytes = expected)
    (.safety ("release notice differs from its verified archive: " ++ file.path))

/-! ### Candidates -/

def validateCandidate (lib : Library) (candidate : ByteArray) (version : String) :
    Except UpdateError Unit := do
  let output ← lib.run candidate ["--version"]
  ensure (trim output.toList = ("pika " ++ version).toList)
    (.candidate ("expected pika " ++ version ++ ", received " ++ output))
  let _ ← lib.run candidate ["--help"]
  let _ ← lib.run candidate ["skill", "show"]

def compareCandidateBytes (lib : Library) (supplied archived : ByteArray) :
    Except UpdateError Unit :=
  ensure (supplied.size ≠ 0 && supplied.size ≤ maxExecutableBytes && supplied.size = archived.size &&
      lib.digest supplied = lib.digest archived)
    (.safety "supplied executable differs from the checksum-verified archive; nothing executed")

/-- `extract_candidate`, and the notices beside the executable. -/
def extractCandidate (lib : Library) (archive : ByteArray) (target : String) :
    Except UpdateError Extracted := do
  validateTarget target
  ensure (target ≠ "x86_64-pc-windows-msvc") (.unsupportedTarget target)
  let extracted ← lib.extract archive
  ensure (extracted.pika.size ≠ 0 && extracted.pika.size ≤ maxExecutableBytes)
    (.candidate "native executable has an invalid size")
  ensure (extracted.license.size ≠ 0 && extracted.license.size ≤ maxNoticeBytes)
    (.safety "release notice has an invalid size: LICENSE")
  ensure (extracted.thirdParty.size ≠ 0 && extracted.thirdParty.size ≤ maxNoticeBytes)
    (.safety "release notice has an invalid size: THIRD_PARTY.md")
  return extracted

/-! ### What an installation writes -/

structure InstallRequest where
  manifest : ReleaseManifest
  target : String
  /-- The archive: its name and its bytes. -/
  artifactFile : String
  artifact : ByteArray
  candidate : ByteArray
  binDir : String
  deriving DecidableEq

def receiptFor (lib : Library) (request : InstallRequest) (artifact : ReleaseArtifact) :
    InstallReceipt where
  schema := manifestSchema
  kind := "native"
  root := lib.root
  binDir := request.binDir
  version := request.manifest.version
  target := request.target
  artifact := artifact.file
  sha256 := artifact.sha256

/-- The files that `prepare_release` writes, in their order. -/
def preparedFiles (lib : Library) (request : InstallRequest) (artifact : ReleaseArtifact)
    (extracted : Extracted) : List (ReleaseFile × ByteArray) :=
  [(.pika, extracted.pika),
    (.receipt, lib.printReceipt (receiptFor lib request artifact)),
    (.license, extracted.license),
    (.thirdParty, extracted.thirdParty),
    (.artifact artifact.file, request.artifact),
    (.manifest, lib.printManifest request.manifest),
    (.sidecar artifact.file, (artifact.sha256 ++ "\n").toUTF8),
    (.version, (request.manifest.version ++ "\n").toUTF8),
    (.installer, lib.installer),
    (.bundleLicense, extracted.license),
    (.bundleThirdParty, extracted.thirdParty)]

/-! ### What an existing release passes -/

def readBoundedReceipt (dir : Directory) : Except UpdateError ByteArray := do
  let bytes ← readFile dir .receipt
  ensure (bytes.size ≤ maxManifestBytes)
    (.safety "installation receipt is not a small regular file")
  readBounded dir .receipt maxManifestBytes "installation receipt"

def readReceiptOf (lib : Library) (dir : Directory) : Except UpdateError InstallReceipt := do
  let bytes ← readBoundedReceipt dir
  lib.readReceipt bytes

/-- `prepare_remote_install_bundle`, as far as it checks the bundle. -/
def validateBundle (lib : Library) (dir : Directory) (target version : String) :
    Except UpdateError Unit := do
  let bytes ← readBounded dir .manifest maxManifestBytes "release manifest"
  let manifest ← parseManifest lib bytes
  ensure (version = manifest.version)
    (.safety "remote bundle does not match the coordinator's pinned version")
  let artifact ← manifest.artifactFor target
  let archive ← readFile dir (.artifact artifact.file)
  verifyArtifact lib archive artifact
  verifySidecar dir artifact
  let bytes ← readBounded dir .version 128 "pika-version"
  let pinned ← context (.safety "pika-version is not UTF-8") (String.fromUTF8? bytes)
  ensure (oneLine pinned = some manifest.version)
    (.safety "remote bundle has an invalid pika-version file")
  let installer ← readBounded dir .installer (1024 * 1024) "bundle installer"
  ensure (installer = lib.installer)
    (.safety "remote bundle installer does not match this Pika release")
  let notices ← extractCandidate lib archive target
  validateNoticeFile dir .bundleLicense notices.license
  validateNoticeFile dir .bundleThirdParty notices.thirdParty

def validateExistingRelease (lib : Library) (dir : Directory) (request : InstallRequest)
    (artifact : ReleaseArtifact) (extracted : Extracted) : Except UpdateError Unit := do
  let receipt ← readReceiptOf lib dir
  ensure (receipt = receiptFor lib request artifact)
    (.safety "existing release directory has a different receipt")
  let installed ← readFile dir .pika
  ensure (installed.size ≤ maxExecutableBytes && lib.digest installed = lib.digest extracted.pika)
    (.safety "retained executable differs from its verified candidate")
  validateNoticeFile dir .license extracted.license
  validateNoticeFile dir .thirdParty extracted.thirdParty
  let bytes ← readBounded dir .manifest maxManifestBytes "release manifest"
  let bundled ← parseManifest lib bytes
  ensure (bundled = request.manifest)
    (.safety "existing release bundle has a different manifest")
  let archive ← readFile dir (.artifact artifact.file)
  verifyArtifact lib archive artifact
  verifySidecar dir artifact
  validateNoticeFile dir .bundleLicense extracted.license
  validateNoticeFile dir .bundleThirdParty extracted.thirdParty
  validateBundle lib dir request.target request.manifest.version

/-- `current_receipt`, of the directory that is current. -/
def currentReceiptOf (lib : Library) (dir : Directory) : Except UpdateError CurrentReceipt := do
  let bytes ← readBoundedReceipt dir
  let receipt ← lib.readCurrentReceipt bytes
  ensure ((receipt.schema = 1 || receipt.schema = manifestSchema) &&
      succeeds (validateSha256 receipt.sha256) && succeeds (parseVersion receipt.version) &&
      !(receipt.schema = manifestSchema && (receipt.kind ≠ some "native" ||
        receipt.target.all fun target => !succeeds (validateTarget target))))
    (.safety "invalid current installation receipt")
  return receipt

/-- A retained release proves itself; its version. -/
def validateRetainedRelease (lib : Library) (dir : Directory) (binDir target : String) :
    Except UpdateError String := do
  let receipt ← readReceiptOf lib dir
  ensure (receipt.schema = manifestSchema && receipt.kind = "native" && receipt.root = lib.root &&
      receipt.binDir = binDir && receipt.target = target)
    (.safety "retained release receipt does not own this installation")
  let bytes ← readBounded dir .manifest maxManifestBytes "release manifest"
  let manifest ← parseManifest lib bytes
  ensure (manifest.version = receipt.version)
    (.safety "retained release manifest and receipt differ")
  let artifact ← manifest.artifactFor target
  ensure (artifact.file = receipt.artifact && artifact.sha256 = receipt.sha256)
    (.safety "retained release artifact and receipt differ")
  let archive ← readFile dir (.artifact artifact.file)
  let extracted ← extractCandidate lib archive target
  validateExistingRelease lib dir
    { manifest, target, artifactFile := artifact.file, artifact := archive,
      candidate := extracted.pika, binDir } artifact extracted
  validateCandidate lib extracted.pika receipt.version
  return receipt.version

end Pikamux.Update
