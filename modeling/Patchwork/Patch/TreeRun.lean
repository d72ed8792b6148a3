import Patchwork.Patch.HunkRun
import Patchwork.FileMap
import Patchwork.Patch.PatchSet
/-!
Applying a patch set to a tree. Each patch changes its own file alone; the hunks of a file that did
not all apply are collected as a reject under the patch's name.
-/
namespace Patchwork

/-- What became of a patch. -/
inductive PatchVerdict where
  | applied (fit : Fit)
  | failed (appliedHunks failedHunks : Nat) (reject : String)
deriving DecidableEq, Repr

/-- A patched path and what became of its patch. -/
structure PatchReport where
  path : String
  verdict : PatchVerdict
deriving DecidableEq, Repr

namespace PatchReport

/-- Whether the patch did not apply in full. -/
def isFailed (r : PatchReport) : Bool :=
  match r.verdict with
  | .failed .. => true
  | .applied _ => false

/-- The text of the reject, if the patch did not apply in full. -/
def reject? (r : PatchReport) : Option String :=
  match r.verdict with
  | .failed _ _ reject => some reject
  | .applied _ => none

end PatchReport

/-- A report and the file's new content; `none` leaves no file. -/
structure FileChange where
  report : PatchReport
  content : Option ByteArray

namespace FileChange

/-- Puts the file's new content into a tree. -/
def store (c : FileChange) (tree : FileMap) : FileMap :=
  match c.content with
  | some bytes => tree.insert c.report.path bytes
  | none => tree.erase c.report.path

/-- Adds the reject, if there is one, under the name of the patch file. -/
def collect (c : FileChange) (rejects : FileMap) : FileMap :=
  match c.report.reject? with
  | some reject => rejects.insert (c.report.path ++ PatchSet.suffix) reject.toUTF8
  | none => rejects

end FileChange

namespace Patch

/-- The text that the hunks are put into: nothing for a file to be added, else the file's own text.
`none` when the patch does not suit what is there. -/
def target? (p : Patch) (baseline : Option ByteArray) : Option String :=
  match p.kind, baseline with
  | .add, none => some ""
  | .add, some _ => none
  | _, none => none
  | _, some bytes => FileMap.text? bytes

/-- Applies a patch to its file. A deletion that applies in full and leaves nothing removes the
file. -/
def apply (p : Patch) (baseline : Option ByteArray) (tolerance : Tolerance) : FileChange :=
  match p.target? baseline with
  | none => ⟨⟨p.path, .failed 0 p.hunks.length p.render⟩, baseline⟩
  | some text =>
    let run := HunkRun.of text p.hunks tolerance
    let verdict : PatchVerdict :=
      if run.failed = [] then .applied run.fit
      else .failed run.applied run.failed.length (p.renderHunks run.failed)
    let removed := p.kind = .delete ∧ run.failed = [] ∧ run.content = ""
    ⟨⟨p.path, verdict⟩, if removed then none else some run.content.toUTF8⟩

end Patch

/-- What applying a set to a tree gives. Rejects go by the name of the patch file. -/
structure TreeRun where
  tree : FileMap
  reports : List PatchReport
  rejects : FileMap

/-- Applies every patch of a set to the tree as it was. Files without a patch stay as they are. -/
def PatchSet.apply (s : PatchSet) (baseline : FileMap) (tolerance : Tolerance) : TreeRun :=
  let changes := s.toList.map fun p => p.apply baseline[p.path]? tolerance
  { tree := changes.foldl (fun tree c => c.store tree) baseline
    reports := changes.map FileChange.report
    rejects := changes.foldl (fun rejects c => c.collect rejects) ∅ }

end Patchwork
