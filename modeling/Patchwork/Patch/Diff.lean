import Patchwork.Patch.Basic
import Patchwork.Script.Shortest
import Patchwork.Script.Compact
import Patchwork.Script.Change
/-!
The patch between two versions of a file. The lines of the two are compared, and each change is
recorded with some lines of context; changes whose context would touch or overlap share a hunk.
-/
namespace Patchwork

/-- The compacted edit script between the lines of two texts. -/
def lineScript (old new : List String) : EditScript String :=
  (EditScript.shortest old new).compact

/-- The last `n` items. -/
def lastItems {α : Type} (n : Nat) (xs : List α) : List α := xs.drop (xs.length - n)

/-- A header range for `length` lines from index `start` on. -/
def LineRange.ofIndex (start length : Nat) : LineRange :=
  ⟨if length = 0 then start else start + 1, length⟩

/-- A hunk that may still grow: where it begins on either side, and its lines so far. -/
structure OpenHunk where
  oldStart : Nat
  newStart : Nat
  lines : List PatchLine

namespace OpenHunk

/-- The hunk with the context that follows its last change. -/
def close (h : OpenHunk) (after : List String) : Hunk :=
  let lines := h.lines ++ after.map .context
  { old := .ofIndex h.oldStart (lines.filterMap PatchLine.old?).length
    new := .ofIndex h.newStart (lines.filterMap PatchLine.new?).length
    lines := lines }

end OpenHunk

/-- The lines of a change, deletions first. -/
def Change.hunkLines (c : Change String) : List PatchLine :=
  c.deleted.map .delete ++ c.inserted.map .insert

namespace HunkCutter

/-- How much context is recorded, and how many lines the two texts have. -/
structure Extent where
  context : Nat
  oldTotal : Nat
  newTotal : Nat

/-- How many context lines follow a change that ends at the given lines. -/
def Extent.after (e : Extent) (oldStop newStop : Nat) : Nat :=
  min e.context (min (e.oldTotal - oldStop) (e.newTotal - newStop))

/-- Whether a change from line `oldStart` on is recorded in the hunk whose last change ended at the
given lines: its context begins before the other's ends. -/
def Extent.joins (e : Extent) (oldStop newStop oldStart : Nat) : Bool :=
  min oldStart (e.oldTotal - 1) - e.context < oldStop + e.after oldStop newStop

/-- Opens a hunk at a change, with the end of what is kept before it as context. -/
def Extent.opening (e : Extent) (oldStop newStop : Nat) (c : Change String) : OpenHunk :=
  let before := lastItems e.context c.kept
  { oldStart := oldStop + c.kept.length - before.length
    newStart := newStop + c.kept.length - before.length
    lines := before.map .context ++ c.hunkLines }

/-- The hunks for the changes that follow an open hunk. `oldStop` and `newStop` are the lines after
its last change. -/
def Extent.cut (e : Extent) (h : OpenHunk) (oldStop newStop : Nat) (tail : List String) :
    List (Change String) → List Hunk
  | [] => [h.close (tail.take (e.after oldStop newStop))]
  | c :: rest =>
    let oldNext := oldStop + c.old.length
    let newNext := newStop + c.new.length
    if e.joins oldStop newStop (oldStop + c.kept.length) then
      e.cut { h with lines := h.lines ++ c.kept.map .context ++ c.hunkLines } oldNext newNext tail
        rest
    else
      h.close (c.kept.take (e.after oldStop newStop)) ::
        e.cut (e.opening oldStop newStop c) oldNext newNext tail rest

/-- The hunks for all changes between two texts. -/
def Extent.hunks (e : Extent) (all : Changes String) : List Hunk :=
  match all.changes with
  | [] => []
  | c :: rest => e.cut (e.opening 0 0 c) c.old.length c.new.length all.tail rest

end HunkCutter

/-- The hunks between two texts, each with up to `context` unchanged lines around its changes. -/
def hunksBetween (old new : String) (context : Nat) : List Hunk :=
  let xs := Text.lines old
  let ys := Text.lines new
  HunkCutter.Extent.hunks ⟨context, xs.length, ys.length⟩ (lineScript xs ys).changes

namespace Patch

/-- The patch from one version of a file to another, where `none` stands for no file. Adding or
deleting an empty file has no hunks; equal versions have no patch. -/
def between (path : String) (old new : Option String) (context : Nat) : Option Patch :=
  let kind : ChangeKind := match old, new with
    | none, some _ => .add
    | some _, none => .delete
    | _, _ => .modify
  let hunks := hunksBetween (old.getD "") (new.getD "") context
  if hunks = [] ∧ kind = .modify then none else some ⟨path, kind, hunks⟩

end Patch
end Patchwork
