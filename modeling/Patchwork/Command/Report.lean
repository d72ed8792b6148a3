import Patchwork.Build.Setup
import Patchwork.Workspace.Open
import Patchwork.Workspace.Update
/-!
What a command tells its caller: how it went, a message, and details. A failure that the user can
mend is told apart from all others.
-/
namespace Patchwork

/-- How a command went. -/
inductive ReportStatus where
  | ok
  | userError
  | failure
deriving DecidableEq, Repr

/-- What a report is about. -/
inductive Details where
  | nothing
  | code (code : FailureCode)
  | applied (summary : PatchSummary)
  | rebuilt (summary : RebuildSummary)
  | migrated (migration : Migration)
  | packaged (summary : PackageSummary)
  | opened (summary : OpenSummary)
  | setUp (summary : SetupSummary)

/-- What became of the patches, if any were applied. -/
def Details.patches? : Details → Option PatchSummary
  | .applied summary => some summary
  | .setUp summary => some summary.patches
  | _ => none

/-- What a command tells its caller. -/
structure Report where
  status : ReportStatus
  message : String
  details : Details

namespace Report

/-- The report of something that went well. -/
def success (message : String) (details : Details) : Report := ⟨.ok, message, details⟩

/-- The report of a failure. -/
def ofFailure (e : Failure) : Report where
  status := if e.code? = some .usage then .userError else .failure
  message := e.message
  details := match e.code? with
    | some code => .code code
    | none => .nothing

/-- The report of an application of patches. Patches that did not apply in full are a failure, of
which the details tell more. -/
def ofPatches (s : PatchSummary) (message : String) (details : Details) : Report :=
  match s.failure? with
  | none => success message details
  | some e => ⟨.failure, e.message, details⟩

/-- The report of an outcome. -/
def ofOutcome {α : Type} (tell : α → Report) : Outcome α → Report
  | .ok a => tell a
  | .error e => ofFailure e

end Report

/-! ### What each command tells -/

/-- The report of an application of patches. -/
def PatchSummary.report (s : PatchSummary) : Report :=
  .ofPatches s ("applied " ++ toString s.changed ++ " patched files") (.applied s)

/-- The report of making patches again. -/
def RebuildSummary.report (s : RebuildSummary) : Report :=
  let skipped := if s.skipped = [] then ""
    else " (" ++ toString s.skipped.length ++ " binary files skipped)"
  .success ("rebuilt " ++ toString s.changed ++ " patches" ++ skipped) (.rebuilt s)

/-- The report of moving a version directory. -/
def Migration.report (m : Migration) : Report :=
  .success ("migrated " ++ m.origin ++ " to " ++ m.target) (.migrated m)

/-- The report of following the releases. -/
def Migration.updateReport : Option Migration → Report
  | some m => .success ("updated " ++ m.origin ++ " to " ++ m.target) (.migrated m)
  | none => .success "already up to date" .nothing

/-- The report of packaging. -/
def PackageSummary.report (s : PackageSummary) : Report :=
  .success ("packaged " ++ s.archive.text) (.packaged s)

/-- The report of opening an archive. -/
def OpenSummary.report (s : OpenSummary) : Report :=
  .success
    ("opened " ++ s.version ++ " (" ++ toString s.patches ++ " patches) in " ++ s.dir.text)
    (.opened s)

/-- The report of a setup. -/
def SetupSummary.report (s : SetupSummary) : Report :=
  .ofPatches s.patches
    ("set up " ++ s.version ++ " (" ++ s.side.name ++ "; " ++ toString s.patches.changed ++
      " patched files)")
    (.setUp s)

end Patchwork
