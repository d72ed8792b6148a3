import Patchwork.Patch.TreeRun
import Patchwork.Patch.TreeDiff
import Patchwork.Archive.Tree
/-!
Patch sets on the disk. A set is a directory with one file for each patch; it is applied to a
baseline tree to make the working tree, and made again from the difference between the two.
-/
namespace Patchwork

namespace PatchSet

/-- Adds the patch in a file that lies below a directory, if the file is one of a patch. -/
def insertFile (dir : Path) (s : PatchSet) (file : List String × ByteArray) : Outcome PatchSet :=
  match Text.before? suffix (Path.slashed file.1) with
  | none => .ok s
  | some path =>
    match String.fromUTF8? file.2 with
    | none => .error (.io (.reading (dir.joinAll file.1).text) .notUtf8)
    | some text => do s.insert (← Patch.parse path text)

/-- Reads the patches below a directory; without the directory there are none. -/
def load (dir : Path) : Action PatchSet := do
  if ← Action.exists? dir then
    let files ← Action.filesBelow dir
    Action.ofOutcome (files.foldlM (insertFile dir) empty)
  else return empty

/-- The files of a set by their names below the directory. -/
def files (s : PatchSet) : List (String × ByteArray) :=
  s.toList.map fun p => (p.path ++ suffix, p.render.toUTF8)

/-- Replaces a directory by the patches of a set. -/
def write (s : PatchSet) (dir : Path) : Action Unit := do
  Action.clear dir
  Action.makeDirs dir
  TreeHome.writeFiles dir s.files

end PatchSet

/-- What an application of a patch set made of the files. -/
structure PatchSummary where
  changed : Nat
  failed : Nat
  reports : List PatchReport
  rejects : Path
deriving DecidableEq, Repr

namespace PatchSummary

/-- The summary of some reports. -/
def of (reports : List PatchReport) (rejects : Path) : PatchSummary where
  changed := (reports.filter fun r => !r.isFailed).length
  failed := (reports.filter PatchReport.isFailed).length
  reports := reports
  rejects := rejects

/-- Whether every patch applied in full. -/
def isSuccess (s : PatchSummary) : Bool := s.failed == 0

/-- The failure that a summary amounts to, if a patch did not apply in full. -/
def failure? (s : PatchSummary) : Option Failure :=
  if s.isSuccess then none else some (.rejected s.failed s.reports.length s.rejects.text)

/-- Nothing, or the failure that a summary amounts to. -/
def toOutcome (s : PatchSummary) : Outcome Unit :=
  match s.failure? with
  | none => .ok ()
  | some e => .error e

end PatchSummary

/-- Where an application of patches reads and writes. -/
structure PatchApplication where
  baseline : Path
  patches : Path
  output : Path
  rejects : Path
  tolerance : Tolerance

namespace PatchApplication

/-- Copies the baseline as it is. -/
def copyBaseline (baseline output : TreeHome) : Action Unit :=
  match baseline, output with
  | .archive source, .archive target => do
    Action.clear target
    let bytes ← Action.ask (.copying source.text target.text) (·.read source)
    Action.change (.copying source.text target.text) (·.write target bytes)
  | _, _ => do output.write (← baseline.read)

/-- Applies the patches and writes the tree and the archive of rejects. Patches that do not apply
are no failure of the operation itself. -/
def run (r : PatchApplication) : Action PatchSummary := do
  let d ← Action.disk
  let baseline := TreeHome.of d r.baseline
  if !d.exists? r.baseline then throw (.usage (.missingBaseline r.baseline.text))
  let output := TreeHome.of d r.output
  let set ← PatchSet.load r.patches
  if set.isEmpty then
    copyBaseline baseline output
    Archive.write r.rejects []
    return .of [] r.rejects
  else
    let result := set.apply (← baseline.read) r.tolerance
    output.write result.tree
    Archive.write r.rejects result.rejects.toList
    return .of result.reports r.rejects

end PatchApplication

/-- What making a patch set again found. -/
structure RebuildSummary where
  changed : Nat
  added : Nat
  removed : Nat
  skipped : List String
deriving DecidableEq, Repr

/-- Where making a patch set again reads and writes. -/
structure PatchRebuild where
  baseline : Path
  working : Path
  patches : Path
  context : Nat
  ignored : List String

namespace PatchRebuild

/-- Makes the patch set again from the difference between the two trees. -/
def run (r : PatchRebuild) : Action RebuildSummary := do
  let d ← Action.disk
  if !d.exists? r.baseline then throw (.usage (.missingBaseline r.baseline.text))
  if !d.exists? r.working then throw (.usage (.missingWorkingTree r.working.text))
  let baseline ← (TreeHome.of d r.baseline).read
  let working ← (TreeHome.of d r.working).read
  let (set, skipped) ← Action.ofOutcome (PatchSet.between baseline working r.context r.ignored)
  set.write r.patches
  let count (kind : ChangeKind) : Nat := (set.toList.filter fun p => p.kind == kind).length
  return ⟨set.size, count .add, count .delete, skipped⟩

end PatchRebuild
end Patchwork
