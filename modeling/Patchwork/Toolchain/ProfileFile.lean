import Patchwork.Toolchain.Profile
import Patchwork.World
/-!
Profiles on the disk. A directory is a version directory if it holds the file of a profile.
-/
namespace Patchwork.Profile

/-- The file of the profile in a directory. -/
def fileIn (dir : Path) : Path := dir.join fileName

/-- Reads the profile in a directory. -/
def load (dir : Path) : Action Profile := do
  let text ← Action.readText (fileIn dir)
  Action.ofOutcome (Outcome.during (.takingConfig (fileIn dir).text) (parse text))

/-- Reads the profile in a directory, which must hold one. -/
def require (dir : Path) : Action Profile := do
  if ← Action.isFile (fileIn dir) then load dir
  else throw (.usage (.notVersionDir dir.text))

/-- Writes the profile in a directory. -/
def save (p : Profile) (dir : Path) : Action Unit :=
  Action.writeFile (fileIn dir) p.render.toUTF8

end Patchwork.Profile
