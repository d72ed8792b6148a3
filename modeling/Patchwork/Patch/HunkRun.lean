import Patchwork.Patch.Placement
/-!
Putting hunks into a text. Hunks that stand somewhere as they are get their places first, each after
the one before it; the others are then fitted into the gaps, so a loose match never pushes out an
exact one. The result is the text with each accepted window replaced by what its hunk makes of it.
-/
namespace Patchwork

/-- What putting hunks into a text gives. -/
structure HunkRun where
  content : String
  fit : Fit
  applied : Nat
  failed : List Hunk
deriving DecidableEq, Repr

/-- A hunk and its place, if it has one. -/
abbrev Slot := Hunk × Option Placement

/-- The placement of a slot whose hunk is applied. -/
def Slot.accepted? (slot : Slot) : Option Placement := slot.2.filter Placement.accepted

namespace HunkRun

/-- Places each hunk whose old side stands somewhere after line `cursor`, expecting it as far from
its recorded position as the one before; every placement moves both on. -/
def placeShifted (lines : Array String) : Nat → Int → List Hunk → List Slot
  | _, _, [] => []
  | cursor, displacement, h :: rest =>
    match Placement.nearest lines cursor lines.size (displaced h.origin displacement) h.oldSide with
    | some start =>
      let p := Placement.whole h start
      (h, some p) :: placeShifted lines p.stop (p.displacement h) rest
    | none => (h, none) :: placeShifted lines cursor displacement rest

/-- The start of the first placement, or the end of the file. -/
def nextStart (lines : Array String) (slots : List Slot) : Nat :=
  (slots.findSome? fun slot => slot.2.map Placement.start).getD lines.size

/-- Fits the hunks without a place into the gaps between the others. `lower` and `displacement`
come from the last placement before. -/
def fillGaps (lines : Array String) (tolerance : Tolerance) : Nat → Int → List Slot → List Slot
  | _, _, [] => []
  | _, _, (h, some p) :: rest =>
    (h, some p) :: fillGaps lines tolerance p.stop (p.displacement h) rest
  | lower, displacement, (h, none) :: rest =>
    match Placement.loose lines lower (nextStart lines rest) (displaced h.origin displacement) h
        tolerance with
    | some p => (h, some p) :: fillGaps lines tolerance p.stop (p.displacement h) rest
    | none => (h, none) :: fillGaps lines tolerance lower displacement rest

/-- All hunks with their places. -/
def slots (lines : Array String) (hunks : List Hunk) (tolerance : Tolerance) : List Slot :=
  fillGaps lines tolerance 0 0 (placeShifted lines 0 0 hunks)

/-- What a hunk's lines make of a window: context keeps the file's own line, a deletion drops one,
an insertion adds its own. -/
def replacement : List PatchLine → List String → List String
  | [], _ => []
  | .context t :: body, [] => t :: replacement body []
  | .context _ :: body, line :: window => line :: replacement body window
  | .delete _ :: body, window => replacement body window.tail
  | .insert t :: body, window => t :: replacement body window

/-- The file's lines from `cursor` on with the accepted windows replaced. -/
def splice (lines : Array String) : Nat → List Slot → List String
  | cursor, [] => (lines.extract cursor lines.size).toList
  | cursor, slot :: rest =>
    match slot.accepted? with
    | none => splice lines cursor rest
    | some p =>
      windowAt lines cursor (p.start - cursor) ++
        (replacement p.body (windowAt lines p.start p.window) ++ splice lines p.stop rest)

/-- What the slots of all hunks and the lines made with them come to. -/
def report (slots : List Slot) (out : List String) : HunkRun :=
  let placed := slots.filterMap Slot.accepted?
  { content := Text.join out
    fit := Fit.loosest (.shifted 0) (placed.map Placement.fit)
    applied := placed.length
    failed := (slots.filter fun slot => slot.accepted?.isNone).map Prod.fst }

/-- Puts hunks into a text in order. Those that find no place are returned. -/
def of (text : String) (hunks : List Hunk) (tolerance : Tolerance) : HunkRun :=
  let lines := (Text.lines text).toArray
  let slots := slots lines hunks tolerance
  report slots (splice lines 0 slots)

end HunkRun
end Patchwork
