import Patchwork.Archive.File
/-!
A tree of files kept as a directory or as an archive. Both are written afresh: nothing of what was
there before stays.
-/
namespace Patchwork

/-- Where a tree is kept, and how. -/
inductive TreeHome where
  | folder (path : Path)
  | archive (path : Path)
deriving DecidableEq, Repr

/-- Endings of names that are taken for archives when nothing is there yet. -/
def archiveEndings : List String := ["zip", "jar"]

namespace TreeHome

/-- Where a tree is kept. -/
def path : TreeHome → Path
  | folder p => p
  | archive p => p

/-- How a tree is kept at a path: what is there decides, and else the ending of the name. -/
def of (d : Disk) (p : Path) : TreeHome :=
  let named := p.extension?.any fun ending => archiveEndings.any (Text.sameIgnoringCase ending)
  if d.isDir p then folder p
  else if named ∨ d.isFile p then archive p
  else folder p

/-- How a tree is kept at a path now. -/
def atPath (p : Path) : Action TreeHome := do return of (← Action.disk) p

/-- The files below a directory by their names with slashes. -/
def readFolder (p : Path) : Action FileMap := do
  let files ← Action.filesBelow p
  return FileMap.ofFiles (files.map fun (names, bytes) => (Path.slashed names, bytes))

/-- Writes files below a directory, one after another. -/
def writeFiles (p : Path) (files : List (String × ByteArray)) : Action Unit :=
  files.forM fun (name, bytes) => do
    let target := p.join name
    Action.makeParent target
    Action.writeFile target bytes

/-- Writes a new directory in the place of what was there. -/
def writeFolder (p : Path) (files : FileMap) : Action Unit := do
  Action.clear p
  Action.makeDirs p
  writeFiles p files.toList

/-- Reads a tree. -/
def read : TreeHome → Action FileMap
  | folder p => readFolder p
  | archive p => Archive.read p

/-- Replaces a tree. -/
def write (home : TreeHome) (files : FileMap) : Action Unit :=
  match home with
  | folder p => writeFolder p files
  | archive p => Archive.write p files.toList

end TreeHome
end Patchwork
