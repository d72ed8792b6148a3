import Patchwork.Text.Lines
import Patchwork.Text.Numeral
/-!
Hunks: a stretch of changed lines with the unchanged lines around it, and the positions at which it
was recorded.
-/
namespace Patchwork

/-- One line of a hunk. The text keeps the newline that ends the line, if there is one. -/
inductive PatchLine where
  | context (text : String)
  | delete (text : String)
  | insert (text : String)
deriving DecidableEq, Repr, Inhabited

namespace PatchLine

/-- The line without its role. -/
def text : PatchLine → String
  | context t => t
  | delete t => t
  | insert t => t

/-- The character that marks the role in a written hunk. -/
def mark : PatchLine → Char
  | context _ => ' '
  | delete _ => '-'
  | insert _ => '+'

/-- Whether the line is the same on both sides. -/
def isContext : PatchLine → Bool
  | context _ => true
  | _ => false

/-- The line as the old side has it; an inserted line is not there. -/
def old? : PatchLine → Option String
  | context t => some t
  | delete t => some t
  | insert _ => none

/-- The line as the new side has it; a deleted line is not there. -/
def new? : PatchLine → Option String
  | context t => some t
  | delete _ => none
  | insert t => some t

/-- The inserted text, if it is an insertion. -/
def inserted? : PatchLine → Option String
  | insert t => some t
  | _ => none

end PatchLine

/-- A range of lines as a hunk's header gives it: it counts from one, and an empty range names the
line that it follows. -/
structure LineRange where
  start : Nat
  length : Nat
deriving DecidableEq, Repr, Inhabited

/-- The number of the line after the range, in 64-bit arithmetic. -/
def LineRange.stop (r : LineRange) : Nat := (r.start + r.length) % Text.wordLimit

/-- Lines with their roles and the two recorded ranges. -/
structure Hunk where
  old : LineRange
  new : LineRange
  lines : List PatchLine
deriving DecidableEq, Repr, Inhabited

namespace Hunk

/-- The index, from zero, of the first line that the hunk covers. The recorded start counts from
one, except that an empty range names the line it follows and so is the insertion point itself. -/
def origin (h : Hunk) : Nat := if h.old.length = 0 then h.old.start else h.old.start - 1

/-- The lines that must be there for the hunk to apply: context and deletions. -/
def oldSide (h : Hunk) : List String := h.lines.filterMap PatchLine.old?

/-- The lines that stand there after the hunk was applied as recorded. -/
def newSide (h : Hunk) : List String := h.lines.filterMap PatchLine.new?

/-- The number of context lines at the front. -/
def leading (h : Hunk) : Nat := (h.lines.takeWhile PatchLine.isContext).length

/-- The number of context lines at the end. -/
def trailing (h : Hunk) : Nat := (h.lines.reverse.takeWhile PatchLine.isContext).length

end Hunk
end Patchwork
