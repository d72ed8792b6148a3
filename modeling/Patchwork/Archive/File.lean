import Patchwork.Archive.Content
import Patchwork.FileMap
import Patchwork.World
/-!
Archives on the disk. Only entries that are files and whose names stay below the place they would be
unpacked to are taken for files of the archive, and of entries with one name the last one counts.
-/
namespace Patchwork.Archive

/-- Whether the name of an entry names a directory. -/
def isDirName (name : String) : Bool := Text.endsWith "/" name || Text.endsWith "\\" name

/-- Whether names never lead above the place where they start; `depth` counts the names that were
followed. -/
def staysBelow : Nat → List String → Bool
  | _, [] => true
  | depth, name :: rest =>
    if name = ".." then
      match depth with
      | 0 => false
      | depth + 1 => staysBelow depth rest
    else if name = "." then staysBelow depth rest
    else staysBelow (depth + 1) rest

/-- Whether an entry would be unpacked below the place that is meant. -/
def isContained (name : String) : Bool :=
  !name.toList.contains '\x00' && !(Path.mk name).isAbsolute && staysBelow 0 (Path.mk name).parts

/-- Whether an entry is a file of the archive. -/
def isFileName (name : String) : Bool := !isDirName name && isContained name

/-- The bytes of an archive and the records of its directory. -/
def opened (p : Path) : Action (ByteArray × List Zip.Record) := do
  let node ← Action.ask (.opening p.text) (·.find p)
  match node with
  | .file bytes =>
    match Zip.records? bytes with
    | some records => return (bytes, records)
    | none => throw (.during (.openingArchive p.text) (.fault .damagedArchive))
  | .dir => throw (.during (.openingArchive p.text) (.fault .damagedArchive))

/-- Names the step in which an entry turned out to be faulty. -/
def outcomeOf {α : Type} (step : Step) : Except ArchiveFault α → Outcome α
  | .ok a => .ok a
  | .error fault => .error (.during step (.fault (.archive fault)))

/-- Reads an entry with its number if it is a file of the archive. -/
def fileOf? (archive : String) (bytes : ByteArray) (index : Nat) (r : Zip.Record) :
    Outcome (Option Zip.Entry) := do
  let packed ← outcomeOf (.readingEntry index archive) (r.find bytes)
  if isFileName r.name then
    let content ← outcomeOf (.readingMember r.name archive) packed.unpack.whole
    return some (r.name, content)
  else return none

/-- The files of an archive by name. -/
def filesOf (archive : String) (bytes : ByteArray) (records : List Zip.Record) :
    Outcome FileMap := do
  let files ← records.zipIdx.mapM fun (r, index) => fileOf? archive bytes index r
  return FileMap.ofFiles (files.filterMap id)

/-- Reads the files of an archive. -/
def read (p : Path) : Action FileMap := do
  let (bytes, records) ← opened p
  Action.ofOutcome (filesOf p.text bytes records)

/-- The record of a name. -/
def record? (records : List Zip.Record) (name : String) : Option Zip.Record :=
  records.reverse.find? fun r => r.name == name

/-- Reads what is kept under a name. -/
def readMember (p : Path) (name : String) : Action (Option ByteArray) := do
  let (bytes, records) ← opened p
  match record? records name with
  | none => return none
  | some r =>
    let content ← Action.ofOutcome (outcomeOf (.readingMember name p.text) (r.read bytes))
    return some content

/-- The distinct names with a beginning that name files, in order. -/
def namesWith (names : List String) (beginning : String) : List String :=
  (distinct names).filter fun name =>
    Text.startsWith beginning name && !Text.endsWith "/" name
where
  /-- The first of equal names. -/
  distinct : List String → List String
    | [] => []
    | name :: rest => name :: (distinct rest).filter (· != name)

/-- Reads the names with a beginning. -/
def names (p : Path) (beginning : String) : Action (List String) := do
  let (_, records) ← opened p
  return namesWith (records.map (·.name)) beginning

/-- Writes a new archive in the place of what was there. -/
def write (p : Path) (files : List (String × ByteArray)) : Action Unit := do
  Action.clear p
  Action.change (.creating p.text) (·.write p (Zip.encode files))

/-- Copies what is kept under a name to a file. When it turns out to be faulty, what came out before
stays in the file. -/
def extract (p : Path) (name : String) (target : Path) : Action Unit := do
  let (bytes, records) ← opened p
  let found := match record? records name with
    | none => .error .missing
    | some r => r.find bytes
  let packed ← Action.ofOutcome (outcomeOf (.findingMember name p.text) found)
  let unpacked := packed.unpack
  Action.clear target
  Action.change (.creating target.text) (·.write target unpacked.bytes)
  let _ ← Action.ofOutcome (outcomeOf (.extracting name target.text) unpacked.whole)

end Patchwork.Archive
