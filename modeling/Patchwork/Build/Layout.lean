import Patchwork.Disk.Path
import Patchwork.Toolchain.Side
/-!
Where a version directory keeps its parts: the patches and the working tree that belong to the
developer, and the results of a build, which may be thrown away.
-/
namespace Patchwork

/-- The name of the directory of patches. -/
def patchesName : String := "patches"

/-- A version directory. -/
structure BuildLayout where
  root : Path
deriving DecidableEq, Repr

namespace BuildLayout

/-- The directory of what builds make. -/
def work (l : BuildLayout) : Path := (l.root.join "build").join "remold"

/-- The downloaded jar of a side. -/
def download (l : BuildLayout) (side : Side) : Path :=
  (l.work.join "download").join (side.name ++ ".jar")

/-- The mappings of a side. -/
def mappings (l : BuildLayout) (side : Side) : Path :=
  (l.work.join "download").join (side.name ++ "-mappings.txt")

/-- The jar that the tools start from. -/
def inputJar (l : BuildLayout) (side : Side) : Path := l.work.join (side.name ++ ".jar")

/-- The directory of libraries that came with a jar. -/
def librariesDir (l : BuildLayout) : Path := l.work.join "libraries"

/-- The list of those libraries. -/
def librariesList (l : BuildLayout) : Path := l.work.join "libraries.json"

/-- What the remapper makes. -/
def remapped (l : BuildLayout) : Path := l.work.join "remapped.jar"

/-- What the decompiler makes, onto which the patches are applied. -/
def decompiled (l : BuildLayout) : Path := l.work.join "decompiled.jar"

/-- A directory for the tools' own files. -/
def tempDir (l : BuildLayout) : Path := l.work.join ".tmp"

/-- A directory for the tools' reports. -/
def reportsDir (l : BuildLayout) : Path := l.work.join "reports"

/-- What was decided about assets. -/
def assetsInfo (l : BuildLayout) : Path := l.work.join "assets.json"

/-- The archive of hunks that did not apply. -/
def rejects (l : BuildLayout) : Path := l.work.join "failed_patches.zip"

/-- The directory of patches. -/
def patches (l : BuildLayout) : Path := l.root.join patchesName

/-- The patched sources. -/
def workingTree (l : BuildLayout) : Path := ((l.root.join "src").join "main").join "java"

end BuildLayout
end Patchwork
