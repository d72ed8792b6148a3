import Patchwork.Archive.File
import Patchwork.Download.Fetch
import Patchwork.Json.Parse
import Patchwork.Json.Print
import Patchwork.Text.Lines
/-!
The bundle that a server is published as: an archive that holds the server's jar and its libraries,
and two lists that name them. The names of the libraries are kept in a file for the next time; they
are taken from it only while it carries the bundle's digest.
-/
namespace Patchwork

/-- A line of the list of libraries: a digest, a coordinate and a path. -/
structure BundledLibrary where
  sha256 : String
  coordinate : String
  path : String
deriving DecidableEq, Repr

/-- The coordinates of a bundle's libraries, and the digest of the bundle. -/
structure LibraryList where
  sha256 : String
  libraries : List String
deriving DecidableEq, Repr

namespace LibraryList

/-- Writes a list. -/
def toJson (l : LibraryList) : Json :=
  .obj [("sha256", .str l.sha256), ("libraries", .strs l.libraries)]

/-- Reads a list. -/
def ofJson? (j : Json) : Option LibraryList :=
  match j.fields? ["sha256", "libraries"] with
  | some [sha256, libraries] => do
    return {
      sha256 := ← Json.required? Json.text? sha256
      libraries := ← Json.required? (Json.list? Json.text?) libraries }
  | _ => none

/-- Reads the text of a list. -/
def parse? (text : String) : Option LibraryList := Json.parse? text >>= ofJson?

end LibraryList

namespace Bundle

/-- The list that names the server's jar. -/
def versionsList : String := "META-INF/versions.list"

/-- The list of libraries. -/
def librariesList : String := "META-INF/libraries.list"

/-- Where jars named by the first list are found. -/
def versionsDir : String := "META-INF/versions/"

/-- Where libraries are found. -/
def librariesDir : String := "META-INF/libraries/"

/-- The lines of a list that are not blank. -/
def listLines (text : String) : List String :=
  (Text.bareLines text).filter fun line => Text.trim line ≠ ""

/-- The three words of a line. -/
def threeWords (list line : String) : Outcome (String × String × String) :=
  match Text.words line with
  | [a, b, c] => .ok (a, b, c)
  | _ => .error (.usage (.invalidListLine list line))

/-- Reads a list of libraries. -/
def parseLibraries (text : String) : Outcome (List BundledLibrary) :=
  (listLines text).mapM fun line => do
    let (sha256, coordinate, path) ← threeWords librariesList line
    return ⟨sha256, coordinate, path⟩

/-- The path of the server's jar below the directory of versions. -/
def parseVersions (text : String) : Outcome String :=
  match listLines text with
  | [line] => do
    let (_, _, path) ← threeWords versionsList line
    return path
  | lines => .error (.usage (.versionCount versionsList lines.length))

/-- Reads one of the lists of a bundle. -/
def readList (bundle : Path) (name : String) : Action String := do
  match ← Archive.readMember bundle name with
  | none => throw (.usage (.memberMissing bundle.text name))
  | some bytes =>
    match String.fromUTF8? bytes with
    | some text => return text
    | none => throw (.during (.decodingMember name) (.fault .invalidUtf8))

/-- Takes the server's jar out of a bundle. -/
def extractServer (bundle target : Path) : Action Unit := do
  let text ← readList bundle versionsList
  let path ← Action.ofOutcome (parseVersions text)
  Archive.extract bundle (versionsDir ++ path) target

/-- The list that is kept in a file, if it belongs to a bundle of some digest. -/
def kept? (file : Path) (digest : String) : Action (Option LibraryList) := do
  if ← Action.isFile file then
    let text ← Action.readText file
    return (LibraryList.parse? text).filter fun l => Text.sameIgnoringCase l.sha256 digest
  else return none

/-- The libraries that a bundle of some digest lists. -/
def list (bundle : Path) (digest : String) : Action LibraryList := do
  let text ← readList bundle librariesList
  let found ← Action.ofOutcome (parseLibraries text)
  return ⟨digest, found.map BundledLibrary.coordinate⟩

/-- Keeps a list of libraries in a file. -/
def keep (file : Path) (l : LibraryList) : Action Unit := do
  Action.makeParent file
  Action.writeFile file l.toJson.pretty.toUTF8

/-- The libraries of a bundle, from the file where they are kept or from the bundle itself. -/
def libraries (bundle file : Path) : Action LibraryList := do
  let digest ← fileDigest .sha256 bundle
  match ← kept? file digest with
  | some l => return l
  | none => do
    let l ← list bundle digest
    keep file l
    return l

/-- Takes the libraries out of a bundle, and gives the files in the order of the bundle. -/
def extractLibraries (bundle target : Path) : Action (List Path) := do
  let names ← Archive.names bundle librariesDir
  names.mapM fun name => do
    let file := target.join ((Text.after? librariesDir name).getD name)
    Archive.extract bundle name file
    return file

end Bundle
end Patchwork
