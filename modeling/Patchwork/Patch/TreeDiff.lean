import Patchwork.Patch.Diff
import Patchwork.FileMap
import Patchwork.Patch.PatchSet
/-!
The patch set between two trees: one patch for every path that differs and is text on both sides.
-/
namespace Patchwork

/-- Beginnings of paths that never belong in a patch set. -/
def unpatchedBeginnings : List String :=
  [".git", "data/", "assets/", "version.json", "flightrecorder-config.jfc", "pack.png"]

/-- The number of context lines when none is given. -/
def usualContext : Nat := 3

/-- What comparing two versions of one path gives. -/
inductive PathDiff where
  /-- Nothing to record. -/
  | same
  | patch (patch : Patch)
  /-- The versions differ and one of them is not UTF-8. -/
  | binary
deriving DecidableEq, Repr

/-- A version of a file as text: `some none` when there is no file, `none` when it is not UTF-8. -/
def versionText? : Option ByteArray → Option (Option String)
  | none => some none
  | some bytes => (FileMap.text? bytes).map some

/-- Compares two versions of one path. -/
def PathDiff.between (path : String) (old new : Option ByteArray) (context : Nat) : PathDiff :=
  if old = new then .same
  else
    match versionText? old, versionText? new with
    | some old, some new =>
      match Patch.between path old new context with
      | some p => .patch p
      | none => .same
    | _, _ => .binary

/-- Whether a path has one of the given beginnings. -/
def isIgnored (ignored : List String) (path : String) : Bool :=
  ignored.any fun beginning => Text.startsWith beginning path

/-- The paths of either tree that are not ignored, in order. -/
def comparedPaths (baseline working : FileMap) (ignored : List String) : List String :=
  (working.toList.foldl (fun t file => t.insert file.1 file.2) baseline).toList.map Prod.fst
    |>.filter fun path => !isIgnored ignored path

/-- The patch, if there is one to record. -/
def PathDiff.patch? : PathDiff → Option Patch
  | .patch p => some p
  | _ => none

/-- What comparing two trees gives for each path that is not ignored. -/
def treeDiffs (baseline working : FileMap) (context : Nat) (ignored : List String) :
    List (String × PathDiff) :=
  (comparedPaths baseline working ignored).map fun path =>
    (path, PathDiff.between path baseline[path]? working[path]? context)

/-- The patches between two trees, and the paths that were skipped because they are not text. -/
def PatchSet.between (baseline working : FileMap) (context : Nat) (ignored : List String) :
    Outcome (PatchSet × List String) := do
  let diffs := treeDiffs baseline working context ignored
  let skipped := (diffs.filter fun d => d.2 = .binary).map Prod.fst
  return (← PatchSet.empty.insertAll (diffs.filterMap fun d => d.2.patch?), skipped)

end Patchwork
