import Patchwork.Disk.Basic
/-!
Changes to a disk. Each changes one place, or nothing when it is refused; making a directory with
all those above it, and removing a directory with all that it holds, are made from them.
-/
namespace Patchwork.Disk

/-- Puts something at a place. -/
def put (d : Disk) (place : Place) (node : Node) : Disk :=
  { d with nodes := d.nodes.insert place node }

/-- Makes a directory in a directory that is there. -/
def makeDir (d : Disk) (p : Path) : Except IoError Disk := do
  let place ← d.locate p
  match d.at? place with
  | some _ => throw .exists
  | none => return d.put place .dir

/-- Makes the first of several paths a directory, where each lies in the one after it; those that
are missing are made first. -/
def makeDirsOf (d : Disk) : List Path → Except IoError Unit × Disk
  | [] => (.error .notFound, d)
  | p :: up =>
    if p.text = "" then (.ok (), d)
    else
      match d.makeDir p with
      | .ok d => (.ok (), d)
      | .error .notFound =>
        match makeDirsOf d up with
        | (.error e, d) => (.error e, d)
        | (.ok (), d) =>
          match d.makeDir p with
          | .ok d => (.ok (), d)
          | .error e => (if d.isDir p then .ok () else .error e, d)
      | .error e => (if d.isDir p then .ok () else .error e, d)

/-- Makes a directory and those above it. Directories made on the way stay when a later one is
refused. -/
def makeDirs (d : Disk) (p : Path) : Except IoError Unit × Disk := d.makeDirsOf p.withParents

/-- Writes a file, in place of the one that was there. -/
def write (d : Disk) (p : Path) (bytes : ByteArray) : Except IoError Disk := do
  let place ← d.locate p
  if p.meansDir then throw .isDirectory
  match d.at? place with
  | some .dir => throw .isDirectory
  | _ => return d.put place (.file bytes)

/-- Why a path that does not mean a file at its place is refused for one. -/
def misplaced (d : Disk) (p : Path) (place : Place) : IoError :=
  if p.endsInName then .notDirectory
  else
    match d.at? place with
    | none => .notFound
    | some (.file _) => .notDirectory
    | some .dir => .busy

/-- Puts finished bytes in the place of a path at once. -/
def placeFile (d : Disk) (p : Path) (bytes : ByteArray) : Except IoError Disk := do
  let place ← d.locate p
  if p.meansDir || !p.endsInName then throw (d.misplaced p place)
  match d.at? place with
  | some .dir => throw .isDirectory
  | _ => return d.put place (.file bytes)

/-- Removes a place and everything below it. -/
def erase (d : Disk) (place : Place) : Disk :=
  { d with nodes := d.nodes.filter fun other _ => !place.isPrefixOf other }

/-- Removes everything below a place. -/
def emptied (d : Disk) (place : Place) : Disk :=
  { d with nodes := d.nodes.filter fun other _ => other == place || !place.isPrefixOf other }

/-- How removing a directory ends that stays, since its path does not end in its name. Behind two
points nothing is wrong any more when what stood in front of them is gone. -/
def staysBy (p : Path) : Except IoError Unit :=
  match p.lastPiece? with
  | none => .error .busy
  | some piece => if piece = "." then .error .invalidArgument else .ok ()

/-- Removes what a path leads to. A directory is emptied first, and it stays when the path does not
end in its name. -/
def remove (d : Disk) (p : Path) : Except IoError Unit × Disk :=
  match d.locate p, d.find p with
  | .ok place, .ok _ =>
    if p.endsInName then (.ok (), d.erase place) else (staysBy p, d.emptied place)
  | .error e, _ => (.error e, d)
  | _, .error e => (.error e, d)

end Patchwork.Disk
