import Patchwork.Disk.Path
import Patchwork.FileMap
import Patchwork.Failure
/-!
A disk: files and directories by the names that lead to them from the root. Listing a disk in the
order of its keys visits a directory before what it holds and names in order, depth first.

A path is resolved one name at a time, so what stands in the way decides why it cannot be followed.
-/
namespace Patchwork

/-- What stands at a place. -/
inductive Node where
  | file (bytes : ByteArray)
  | dir
deriving DecidableEq

/-- The names that lead to a place from the root. -/
abbrev Place := List String

/-- Files and directories by place. The root is always a directory; a relative path starts at
`here`. -/
structure Disk where
  nodes : Std.TreeMap Place Node
  here : Place

namespace Disk

/-- A disk with nothing but its root. -/
def empty : Disk := ⟨∅, []⟩

/-- What stands at a place. -/
def at? (d : Disk) (place : Place) : Option Node :=
  if place = [] then some .dir else d.nodes[place]?

/-- The longest name in bytes. -/
def nameLimit : Nat := 255

/-- The longest path in bytes. -/
def pathLimit : Nat := 4095

/-- Follows names from a place on. Each name is looked up in a directory, except that two points
lead back; the last place need not exist. -/
def follow (d : Disk) (place : Place) : List String → Except IoError Place
  | [] => .ok place
  | name :: rest =>
    match d.at? place with
    | none => .error .notFound
    | some (.file _) => .error .notDirectory
    | some .dir =>
      if name = "." then follow d place rest
      else if name = ".." then follow d place.dropLast rest
      else if nameLimit < name.utf8ByteSize then .error .nameTooLong
      else follow d (place ++ [name]) rest

/-- The place that a path leads to. -/
def locate (d : Disk) (p : Path) : Except IoError Place :=
  if p.text.toList.contains '\x00' then .error .nulInName
  else if p.text = "" then .error .notFound
  else if pathLimit < p.text.utf8ByteSize then .error .nameTooLong
  else d.follow (if p.isAbsolute then [] else d.here) p.parts

/-- What a path leads to. -/
def find (d : Disk) (p : Path) : Except IoError Node := do
  let place ← d.locate p
  match d.at? place with
  | none => throw .notFound
  | some .dir => return .dir
  | some (.file bytes) => if p.meansDir then throw .notDirectory else return .file bytes

/-- Whether a path leads to a file. -/
def isFile (d : Disk) (p : Path) : Bool :=
  match d.find p with
  | .ok (.file _) => true
  | _ => false

/-- Whether a path leads to a directory. -/
def isDir (d : Disk) (p : Path) : Bool :=
  match d.find p with
  | .ok .dir => true
  | _ => false

/-- Whether a path leads anywhere. -/
def exists? (d : Disk) (p : Path) : Bool :=
  match d.find p with
  | .ok _ => true
  | .error _ => false

/-- The bytes of a file. -/
def read (d : Disk) (p : Path) : Except IoError ByteArray := do
  match ← d.find p with
  | .file bytes => return bytes
  | .dir => throw .isDirectory

/-- The text of a file. -/
def readText (d : Disk) (p : Path) : Except IoError String := do
  match String.fromUTF8? (← d.read p) with
  | some text => return text
  | none => throw .notUtf8

/-! ### What is below a place -/

/-- The names that lead from one place to another below it. -/
def below? (place : Place) (other : Place) : Option (List String) :=
  if place.isPrefixOf other then some (other.drop place.length) else none

/-- Everything below a place in order, by the names that lead there. -/
def under (d : Disk) (place : Place) : List (List String × Node) :=
  d.nodes.toList.filterMap fun (other, node) =>
    match below? place other with
    | none => none
    | some [] => none
    | some names => some (names, node)

/-- Everything below a path in order; a file has nothing below it but itself. -/
def walk (d : Disk) (p : Path) : Except IoError (List (List String × Node)) := do
  let place ← d.locate p
  match ← d.find p with
  | .file bytes => return [([], .file bytes)]
  | .dir => return d.under place

/-- The files below a path in order. -/
def files (d : Disk) (p : Path) : Except IoError (List (List String × ByteArray)) := do
  return (← d.walk p).filterMap fun (names, node) =>
    match node with
    | .file bytes => some (names, bytes)
    | .dir => none

/-- The names in a directory in order. -/
def names (d : Disk) (p : Path) : Except IoError (List String) := do
  let place ← d.locate p
  match ← d.find p with
  | .file _ => throw .notDirectory
  | .dir =>
    return (d.under place).filterMap fun (names, _) =>
      match names with
      | [name] => some name
      | _ => none

end Disk
end Patchwork
