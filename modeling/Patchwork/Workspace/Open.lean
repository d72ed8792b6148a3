import Patchwork.Archive.Tree
import Patchwork.Workspace.Basic
import Patchwork.Workspace.Package
/-!
Opening a packaged version: a version directory is made of an archive. The archive is a file or
comes from a URL; in the latter case the digest beside it must be there and agree, in the former it
must agree if it is there.
-/
namespace Patchwork

/-- Where an archive comes from. -/
inductive ArchiveSource where
  | file (path : Path)
  | url (url : String)
deriving DecidableEq, Repr

/-- The beginnings that tell a URL from a path. -/
def urlBeginnings : List String := ["http://", "https://", "file://"]

/-- Reads a source. -/
def ArchiveSource.parse (raw : String) : ArchiveSource :=
  if urlBeginnings.any fun beginning => Text.startsWith beginning raw then .url raw
  else .file ⟨raw⟩

/-- What to open, and under which name. Without a name the version directory is named for its
release. What is already there is replaced only when that is asked for. -/
structure OpenRequest where
  workspace : Workspace
  source : ArchiveSource
  name : Option String
  replace : Bool
deriving DecidableEq, Repr

/-- What was opened. -/
structure OpenSummary where
  dir : Path
  version : String
  toolchainVersion : String
  patches : Nat
deriving DecidableEq, Repr

namespace OpenRequest

/-- The first word of a text, or the empty one. -/
def firstWord (text : String) : String := (Text.words text).headD ""

/-- Compares the digest beside an archive with the archive's, if there is one. -/
def checkFile (archive : Path) : Action Unit := do
  let sidecar := sidecarOf archive
  if ← Action.isFile sidecar then
    let expected := Checksum.of .sha256 (firstWord (← Action.readText sidecar))
    let found ← fileDigest .sha256 archive
    if !expected.accepts found then throw (.mismatch archive.text expected.digest found)

/-- Downloads an archive into a directory; it must have the digest that is beside it. -/
def download (url : String) (scratch : Path) : Action Path := do
  let sidecar := url ++ sidecarEnding
  let word := firstWord (← fetchText sidecar)
  let expected ← Action.ofOutcome (Outcome.during (.readingSidecar sidecar)
    (Checksum.parse (DigestAlgorithm.sha256.name ++ ":" ++ word)))
  let target := scratch.join "archive.zip"
  let _ ← (Download.mk url target (some expected)).fetch
  return target

/-- The archive as a file whose digest was compared. -/
def obtain (source : ArchiveSource) (scratch : Path) : Action Path :=
  match source with
  | .file path => do
    if !(← Action.isFile path) then throw (.usage (.missingFile path.text))
    checkFile path
    return path
  | .url url => download url scratch

/-- The toolchain in the files of an archive. -/
def toolchainIn (archive : Path) (files : FileMap) : Outcome Toolchain :=
  match files.get? Toolchain.fileName with
  | none => .error (.usage (.metadataMissing archive.text Toolchain.fileName))
  | some bytes =>
    match String.fromUTF8? bytes with
    | none => .error (.fault .invalidUtf8)
    | some text => Toolchain.parse text

/-- The files of an archive that are patches, by their names below the directory of patches. -/
def patchFiles (files : FileMap) : List (String × ByteArray) :=
  files.toList.filterMap fun (name, bytes) =>
    (Text.after? (patchesName ++ "/") name).map fun rest => (rest, bytes)

/-- Makes room for the version directory. -/
def makeRoom (r : OpenRequest) (dir : Path) : Action Unit := do
  if ← Action.exists? dir then
    if !r.replace then throw (.usage (.dirInTheWay dir.text))
    Action.remove dir

/-- Writes patches below a version directory, one after another. -/
def writePatches (dir : Path) (patches : List (String × ByteArray)) : Action Unit := do
  let target := dir.join patchesName
  TreeHome.writeFiles target patches
  Action.changeBy (.creating dir.text) (·.makeDirs target)

/-- Makes a version directory of an archive. -/
def unpack (r : OpenRequest) (archive : Path) : Action OpenSummary := do
  let files ← Archive.read archive
  let toolchain ← Action.ofOutcome (toolchainIn archive files)
  let name := r.name.getD toolchain.version
  Action.ofOutcome (checkName name)
  let dir := r.workspace.versionDir name
  r.makeRoom dir
  let patches := patchFiles files
  writePatches dir patches
  (Profile.ofToolchain toolchain).save dir
  return ⟨dir, toolchain.version, toolchain.toolchainVersion, patches.length⟩

/-- Opens an archive. -/
def run (s : Surroundings) (r : OpenRequest) : Action OpenSummary :=
  Action.withScratch s fun scratch => do
    let archive ← obtain r.source scratch
    r.unpack archive

end OpenRequest
end Patchwork
