import Patchwork.Text.Lines
import Patchwork.Build.Layout
import Patchwork.Toolchain.ProfileFile
import Patchwork.Workspace.Basic
/-!
Moving a version directory to another release. Its patches and its profile go along, and what builds
left behind does not. All that can be objected to is looked at before the first change.

The list of files that version control ignores follows the move: version directories are ignored but
for those that a line takes back in, and such a line of the version that moves comes to name its target.
-/
namespace Patchwork.IgnoreFile

/-- The name of the list. -/
def fileName : String := ".gitignore"

/-- How a line begins that takes a version directory back in. -/
def takeBack : String := "!versions/"

/-- The characters that end a line. -/
def endsLine (c : Char) : Bool := c == '\n' || c == '\r'

/-- A line without the characters that end it. -/
def body (line : String) : String := String.ofList (Text.dropWhileEnd endsLine line.toList)

/-- The characters that end a line. -/
def ending (line : String) : String := String.ofList (line.toList.drop (body line).length)

/-- A line that takes back the version directory of a name, if it took one back before. -/
def retargetLine (name line : String) : String :=
  match Text.after? takeBack (body line) with
  | none => line
  | some "" => line
  | some _ => takeBack ++ name ++ ending line

/-- The list in which the version directory of a name is taken back. -/
def retarget (name text : String) : String :=
  Text.join ((Text.lines text).map (retargetLine name))

end Patchwork.IgnoreFile

namespace Patchwork

/-- A version directory that was moved: its name before and after. -/
structure Migration where
  origin : String
  target : String
deriving DecidableEq, Repr

namespace Migration

/-- Whether the names and the directories allow to move, and the profile to take along. -/
def check (w : Workspace) (m : Migration) : Action Profile := do
  Action.ofOutcome (checkName m.origin)
  Action.ofOutcome (checkName m.target)
  let dir := w.versionDir m.origin
  if !(← Action.isDir dir) then
    throw (.usage (.missingVersionDir (Workspace.shortPath m.origin)))
  if ← Action.exists? (w.versionDir m.target) then
    throw (.usage (.migrationTarget (Workspace.shortPath m.target)))
  if !(← Action.isFile (Profile.fileIn dir)) then
    throw (.usage (.configMissing (Profile.fileIn dir).text))
  Profile.load dir

/-- The list of ignored files of a workspace. -/
def ignoreFile (w : Workspace) : Path := w.root.join IgnoreFile.fileName

/-- Lets the list of ignored files follow the move. -/
def retargetIgnored (w : Workspace) (m : Migration) : Action Unit := do
  let file := ignoreFile w
  if ← Action.isFile file then
    let text ← Action.readText file
    let changed := IgnoreFile.retarget m.target text
    if changed ≠ text then Action.writeFile file changed.toUTF8

/-- Moves the directory. -/
def moveDir (w : Workspace) (m : Migration) (profile : Profile) : Action Unit := do
  let source := w.versionDir m.origin
  let target := w.versionDir m.target
  Action.makeDirs target
  let patches := source.join patchesName
  if ← Action.isDir patches then Action.copyTree patches (target.join patchesName)
  (profile.follow m.target).save target
  Action.remove source

/-- Tells version control about the move. -/
def tell (s : Surroundings) (w : Workspace) (m : Migration) : Action Unit := do
  if s.isRepository w.root then
    Action.git s (.untrack (Workspace.shortPath m.origin))
    let ignored := if ← Action.isFile (ignoreFile w) then [IgnoreFile.fileName] else []
    Action.git s (.add (Workspace.shortPath m.target :: ignored))

/-- Moves a version directory. -/
def run (s : Surroundings) (w : Workspace) (m : Migration) : Action Unit := do
  let profile ← m.check w
  m.retargetIgnored w
  m.moveDir w profile
  m.tell s w

end Migration
end Patchwork
