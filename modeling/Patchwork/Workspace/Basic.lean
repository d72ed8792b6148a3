import Patchwork.World
/-!
Workspaces. A workspace holds version directories side by side, each under a plain name.
-/
namespace Patchwork

/-- A directory that holds version directories. -/
structure Workspace where
  root : Path
deriving DecidableEq, Repr

/-- The name of the directory of version directories. -/
def versionsName : String := "versions"

/-- Whether a name can only lead to a directory of its own: it is one part of a path, and no blanks
stand around it. -/
def isPlainName (name : String) : Bool :=
  name != "" && name != "." && name != ".." && !name.toList.contains '/'
    && !name.toList.contains '\\' && Text.trim name == name

/-- Refuses names that are not plain. -/
def checkName (name : String) : Outcome Unit :=
  if isPlainName name then .ok () else .error (.usage (.invalidDirName name))

namespace Workspace

/-- The directory of version directories. -/
def versions (w : Workspace) : Path := w.root.join versionsName

/-- The version directory of a name. -/
def versionDir (w : Workspace) (name : String) : Path := w.versions.join name

/-- The version directory of a name, below the root. -/
def shortPath (name : String) : String := versionsName ++ "/" ++ name

/-- The version directory of a name, which must be there. -/
def require (w : Workspace) (name : String) : Action Path := do
  Action.ofOutcome (checkName name)
  let dir := w.versionDir name
  if ← Action.isDir dir then return dir
  else throw (.usage (.missingVersionDir dir.text))

end Workspace
end Patchwork
