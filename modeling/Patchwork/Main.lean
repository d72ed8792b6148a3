import Patchwork.CommandLine.Reach
import Patchwork.Disk.Compare
/-!
The program on a machine. What a command may look at is read from the machine's disk, the command is
run on that, and the differences are written back. No other program is started: version control is
taken to be absent, and a tool cannot be launched.
-/
namespace Patchwork.Machine

/-- The path of a place. -/
def pathOf (place : Place) : String := "/" ++ Path.slashed place

/-- Reads what is at a place of the machine, and everything below it. -/
partial def read (d : Disk) (place : Place) : IO Disk := do
  match ← (IO.FS.realPath (pathOf place)).toBaseIO with
  | .error _ => return d
  | .ok path =>
    if ← path.isDir then
      let names := (← path.readDir).toList.map fun entry => entry.fileName
      names.foldlM (fun d name => read d (place ++ [name])) (d.put place .dir)
    else return d.put place (.file (← IO.FS.readBinFile path))

/-- Reads a directory of the machine without what is below it. -/
def readDir (d : Disk) (place : Place) : IO Disk := do
  match ← (IO.FS.realPath (pathOf place)).toBaseIO with
  | .error _ => return d
  | .ok path => return if ← path.isDir then d.put place .dir else d

/-- Reads the directories that lead to a path, and the path's own one if it is a directory. -/
def readWay (here : Path) (d : Disk) (p : Path) : IO Disk :=
  let place := (here.join p.text).parts
  (List.range place.length).foldlM (fun d length => readDir d (place.take (length + 1))) d

/-- Reads what is at a path of the machine. -/
def mount (here : Path) (d : Disk) (p : Path) : IO Disk := do
  read (← readWay here d p) (here.join p.text).parts

/-- Writes what became of a disk back to the machine. -/
def save (old new : Disk) : IO Unit := do
  for (place, node) in (old.gone new).reverse do
    match node with
    | .dir => IO.FS.removeDir (pathOf place)
    | .file _ => IO.FS.removeFile (pathOf place)
  for (place, node) in old.come new do
    match node with
    | .dir => IO.FS.createDirAll (pathOf place)
    | .file bytes => IO.FS.writeBinFile (pathOf place) bytes

/-- The variables of the machine that the program takes notice of. -/
def environment : IO Environment := do
  let names := CommandLine.rootVariable :: Settings.variableNames
  let found ← names.mapM fun name => do return (← IO.getEnv name).map fun value => (name, value)
  return ⟨found.filterMap id⟩

/-- A machine on which no program is started. -/
def surroundings : Surroundings where
  isRepository _ := false
  git _ := .ok ()
  run _ l d := (.error (.io (.starting l.program) .notFound), d)
  scratch := ⟨"/tmp/remold-scratch"⟩

end Patchwork.Machine

open Patchwork in
/-- Runs the program. -/
def main (args : List String) : IO UInt32 := do
  let here : Path := ⟨(← IO.currentDir).toString⟩
  let e ← Machine.environment
  let start : Disk := { Disk.empty with here := here.parts }
  let start ← Machine.readWay here start here
  let start ← Machine.readWay here start Machine.surroundings.scratch
  let old ← (CommandLine.reach here e args).foldlM (Machine.mount here) start
  let (r, w) := (CommandLine.run Machine.surroundings here e args).run ⟨old, [], []⟩
  Machine.save old w.disk
  IO.print r.output
  IO.eprint r.complaint
  return r.code.toUInt32
