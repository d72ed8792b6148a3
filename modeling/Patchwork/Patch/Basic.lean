import Patchwork.Patch.Hunk
/-!
Patches of single files, and how a patch is written.
-/
namespace Patchwork

/-- What happens to the file as a whole. -/
inductive ChangeKind where
  | modify
  | add
  | delete
deriving DecidableEq, Repr

/-- All changes to one file, which is named by its relative path with forward slashes. -/
structure Patch where
  path : String
  kind : ChangeKind
  hunks : List Hunk
deriving DecidableEq, Repr

/-- The name that stands for no file. -/
def noFile : String := "/dev/null"

/-- The line that follows a line without a newline. -/
def endMarker : String := "\\ No newline at end of file"

/-- The number of the first line, and the number of lines unless it is one. -/
def LineRange.render (r : LineRange) : String :=
  if r.length = 1 then toString r.start else toString r.start ++ "," ++ toString r.length

/-- A hunk's line with its mark; a missing newline is added and noted on a line of its own. -/
def PatchLine.render (l : PatchLine) : String :=
  let body := String.singleton l.mark ++ l.text
  if Text.endsLine l.text then body else body ++ "\n" ++ endMarker ++ "\n"

/-- A hunk's header and lines. -/
def Hunk.render (h : Hunk) : String :=
  "@@ -" ++ h.old.render ++ " +" ++ h.new.render ++ " @@\n" ++
    Text.join (h.lines.map PatchLine.render)

namespace Patch

/-- The name of the file before the change. -/
def oldName (p : Patch) : String := if p.kind = .add then noFile else "a/" ++ p.path

/-- The name of the file after the change. -/
def newName (p : Patch) : String := if p.kind = .delete then noFile else "b/" ++ p.path

/-- The two lines that name the file. -/
def header (p : Patch) : String := "--- " ++ p.oldName ++ "\n+++ " ++ p.newName ++ "\n"

/-- Some hunks under the patch's header; a reject file holds those that did not apply. -/
def renderHunks (p : Patch) (hunks : List Hunk) : String :=
  p.header ++ Text.join (hunks.map Hunk.render)

/-- The patch as it is written. -/
def render (p : Patch) : String := p.renderHunks p.hunks

end Patch
end Patchwork
