import Patchwork.Command.Report
/-!
The JSON form of reports. The members of every object are in the order of their names.
-/
namespace Patchwork

/-- Writes how a patch fitted. -/
def Fit.toJson : Fit → Json
  | .shifted offset => .obj [("match", .str "exact"), ("offset", .int offset)]
  | .trimmed fuzz => .obj [("distance", .nat fuzz), ("match", .str "fuzz")]
  | .similar score => .obj [("match", .str "fuzzy"), ("score", .num (Binary64.pointText score))]

/-- Writes what became of a patch. -/
def PatchVerdict.toJson : PatchVerdict → Json
  | .applied fit => .obj [("quality", fit.toJson), ("status", .str "applied")]
  | .failed placed unplaced _ =>
    .obj [("applied_hunks", .nat placed), ("failed_hunks", .nat unplaced),
      ("status", .str "failed")]

/-- Writes the report on a patched path. -/
def PatchReport.toJson (r : PatchReport) : Json :=
  .obj [("outcome", r.verdict.toJson), ("path", .str r.path)]

/-- Writes what became of a patch set. -/
def PatchSummary.toJson (s : PatchSummary) : Json :=
  .obj [("changed_files", .nat s.changed), ("failed_files", .nat s.failed),
    ("files", .arr (s.reports.map PatchReport.toJson)), ("rejects", .str s.rejects.text)]

/-- Writes what making patches again found. -/
def RebuildSummary.toJson (s : RebuildSummary) : Json :=
  .obj [("added_files", .nat s.added), ("changed_files", .nat s.changed),
    ("removed_files", .nat s.removed), ("skipped", .strs s.skipped)]

/-- Writes a move. -/
def Migration.toJson (m : Migration) : Json :=
  .obj [("from", .str m.origin), ("to", .str m.target)]

/-- Writes what was packaged. -/
def PackageSummary.toJson (s : PackageSummary) : Json :=
  .obj [("archive", .str s.archive.text), ("patches", .nat s.patches), ("sha256", .str s.sha256)]

/-- Writes what was opened. -/
def OpenSummary.toJson (s : OpenSummary) : Json :=
  .obj [("dir", .str s.dir.text), ("minecraft_version", .str s.version),
    ("patches", .nat s.patches), ("toolchain_version", .str s.toolchainVersion)]

/-- Writes what was set up. -/
def SetupSummary.toJson (s : SetupSummary) : Json :=
  .obj [("java_version", .nat s.javaVersion), ("libraries", .strs s.libraries),
    ("minecraft_version", .str s.version), ("patches", s.patches.toJson),
    ("side", .str s.side.name)]

/-- Writes the details of a report. -/
def Details.toJson : Details → Json
  | .nothing => .null
  | .code c => .obj [("code", .str c.text)]
  | .applied summary => .obj [("summary", summary.toJson)]
  | .rebuilt summary => summary.toJson
  | .migrated migration => migration.toJson
  | .packaged summary => summary.toJson
  | .opened summary => summary.toJson
  | .setUp summary => .obj [("setup", summary.toJson)]

end Patchwork
