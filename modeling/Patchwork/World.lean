import Patchwork.Disk.Change
/-!
What an operation works on and what it may call upon. An operation changes the world step by step,
and what it changed before it failed stays changed (`Action`). Version control and external tools
are given from outside: the world only records what was asked of them.
-/
namespace Patchwork

/-- A request to the version control system. -/
inductive GitCall where
  /-- Stop tracking a path and leave the files alone. -/
  | untrack (path : String)
  | add (paths : List String)
deriving DecidableEq, Repr

/-- The start of an external program, with its output sent to a log. -/
structure Launch where
  program : String
  args : List String
  directory : Path
  log : Path
deriving DecidableEq, Repr

/-- How an external program ended. -/
structure ProgramEnd where
  status : Int
  logBytes : Nat
deriving DecidableEq, Repr

/-- The disk, and what was asked of version control and of external programs so far. -/
structure World where
  disk : Disk
  gitCalls : List GitCall
  launches : List Launch

/-- What lies outside: whether a directory is under version control, what version control answers,
what a program does after those launched before it, and an empty directory for passing files. -/
structure Surroundings where
  isRepository : Path → Bool
  git : GitCall → Outcome Unit
  run : List Launch → Launch → Disk → Outcome ProgramEnd × Disk
  scratch : Path

/-- An operation on the world that may fail. -/
abbrev Action (α : Type) := ExceptT Failure (StateM World) α

namespace Action

/-- The disk as it is. -/
def disk : Action Disk := do return (← get).disk

/-- Sets the disk. -/
def setDisk (d : Disk) : Action Unit := modify fun w => { w with disk := d }

/-- An outcome as an operation that changes nothing. -/
def ofOutcome {α : Type} : Outcome α → Action α
  | .ok a => pure a
  | .error e => throw e

/-- Names the step that an operation belongs to. -/
def during {α : Type} (step : Step) (action : Action α) : Action α :=
  tryCatch action fun e => throw (.during step e)

/-- A question to the disk. -/
def ask {α : Type} (step : Step) (question : Disk → Except IoError α) : Action α := do
  match question (← disk) with
  | .ok a => return a
  | .error e => throw (.io step e)

/-- A change to the disk, made in full or not at all. -/
def change (step : Step) (act : Disk → Except IoError Disk) : Action Unit := do
  setDisk (← ask step act)

/-- A change to the disk that may stop half-way. -/
def changeBy (step : Step) (act : Disk → Except IoError Unit × Disk) : Action Unit := do
  let (r, d) := act (← disk)
  setDisk d
  match r with
  | .ok () => return ()
  | .error e => throw (.io step e)

/-! ### Files and directories -/

/-- Whether a path leads to a file. -/
def isFile (p : Path) : Action Bool := do return (← disk).isFile p

/-- Whether a path leads to a directory. -/
def isDir (p : Path) : Action Bool := do return (← disk).isDir p

/-- Whether a path leads anywhere. -/
def exists? (p : Path) : Action Bool := do return (← disk).exists? p

/-- The bytes of a file. -/
def readFile (p : Path) : Action ByteArray := ask (.reading p.text) (·.read p)

/-- The text of a file. -/
def readText (p : Path) : Action String := ask (.reading p.text) (·.readText p)

/-- Writes a file. -/
def writeFile (p : Path) (bytes : ByteArray) : Action Unit :=
  change (.writing p.text) (·.write p bytes)

/-- Makes a directory and those above it. -/
def makeDirs (p : Path) : Action Unit := changeBy (.creating p.text) (·.makeDirs p)

/-- Makes the directory that a path lies in. -/
def makeParent (p : Path) : Action Unit :=
  match p.parent? with
  | some parent => makeDirs parent
  | none => return ()

/-- Removes what a path leads to, if it leads anywhere. -/
def remove (p : Path) : Action Unit := do
  match (← disk).find p with
  | .error .notFound => return ()
  | .error e => throw (.io (.inspecting p.text) e)
  | .ok _ => changeBy (.removing p.text) (·.remove p)

/-- Removes what a path leads to, and goes on when it cannot be removed. -/
def discard (p : Path) : Action Unit := tryCatch (remove p) fun _ => return ()

/-- Makes room for a new file or directory: removes what was there and makes the directory that it
lies in. -/
def clear (p : Path) : Action Unit := do
  remove p
  makeParent p

/-- The bytes of a file that is opened first. -/
def openFile (p : Path) : Action ByteArray := do
  let _ ← ask (.opening p.text) (·.find p)
  readFile p

/-- Copies everything below a directory into another one. A file that is already there is not
replaced. -/
def copyTree (source target : Path) : Action Unit := do
  makeDirs target
  let found ← ask (.walking source.text) (·.walk source)
  found.forM fun (names, node) => do
    let copy := target.joinAll names
    match node with
    | .dir => makeDirs copy
    | .file bytes =>
      if ← exists? copy then throw (.fault (.refusedOverwrite copy.text))
      change (.copying (source.joinAll names).text copy.text) (·.write copy bytes)

/-- The files below a path in order, which are read one after another. -/
def filesBelow (p : Path) : Action (List (List String × ByteArray)) := do
  match (← disk).files p with
  | .ok files => return files
  | .error e => throw (.during (.walking p.text) (.io (.visiting p.text e) e))

/-! ### Version control and programs -/

/-- Asks version control and keeps a record of it. -/
def git (s : Surroundings) (call : GitCall) : Action Unit := do
  modify fun w => { w with gitCalls := w.gitCalls ++ [call] }
  ofOutcome (s.git call)

/-- Lets an operation use the directory for passing files, which is removed whatever comes of it. -/
def withScratch {α : Type} (s : Surroundings) (use : Path → Action α) : Action α := do
  makeDirs s.scratch
  let a ← tryCatch (use s.scratch) fun e => do
    discard s.scratch
    throw e
  discard s.scratch
  return a

/-- Runs a program and keeps a record of it. -/
def launch (s : Surroundings) (l : Launch) : Action ProgramEnd := do
  let w ← get
  let (r, d) := s.run w.launches l w.disk
  set { w with disk := d, launches := w.launches ++ [l] }
  ofOutcome r

end Action
end Patchwork
