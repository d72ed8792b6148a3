import Patchwork.Archive.File
import Patchwork.Build.Layout
import Patchwork.Download.Fetch
import Patchwork.Toolchain.Json
import Patchwork.Toolchain.ProfileFile
/-!
Packaging a version directory: an archive that holds the toolchain and the patches, and beside it a
file with the archive's digest.
-/
namespace Patchwork

/-- The ending of the file that holds an archive's digest. -/
def sidecarEnding : String := ".sha256"

/-- The file that holds the digest of an archive. -/
def sidecarOf (archive : Path) : Path := ⟨archive.text ++ sidecarEnding⟩

/-- What to package. The toolchain's version is the recorded one, and the archive is put below the
version directory, unless something else is asked for. -/
structure PackageRequest where
  dir : Path
  toolchainVersion : Option String
  output : Option Path
deriving DecidableEq, Repr

/-- What was packaged. -/
structure PackageSummary where
  archive : Path
  sha256 : String
  patches : Nat
deriving DecidableEq, Repr

namespace PackageRequest

/-- Where the archive is put. -/
def archive (r : PackageRequest) (toolchainVersion : String) : Path :=
  r.output.getD ((r.dir.join "build").join ("remold-" ++ toolchainVersion ++ ".zip"))

/-- The version under which the toolchain is packaged. -/
def versionFor (r : PackageRequest) (p : Profile) : Outcome String :=
  match r.toolchainVersion <|> p.toolchainVersion? with
  | some version => .ok version
  | none => .error (.usage .toolchainUnknown)

/-- The files below the directory of patches by their names in the archive. -/
def patchFiles (r : PackageRequest) : Action (List (String × ByteArray)) := do
  let dir := r.dir.join patchesName
  if ← Action.isDir dir then
    let files ← Action.filesBelow dir
    return files.map fun (names, bytes) => (patchesName ++ "/" ++ Path.slashed names, bytes)
  else return []

/-- Packages a version directory. -/
def run (r : PackageRequest) : Action PackageSummary := do
  let profile ← Profile.require r.dir
  let version ← Action.ofOutcome (r.versionFor profile)
  let toolchain ← Action.ofOutcome (profile.toolchain version)
  let patches ← r.patchFiles
  let archive := r.archive version
  Archive.write archive ((Toolchain.fileName, toolchain.render.toUTF8) :: patches)
  let sha256 := DigestAlgorithm.sha256.compute (← Action.readFile archive)
  Action.writeFile (sidecarOf archive) sha256.toUTF8
  return ⟨archive, sha256, patches.length⟩

end PackageRequest
end Patchwork
