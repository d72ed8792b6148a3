import Patchwork.Command.Json
import Patchwork.CommandLine.Invocation
/-!
Telling a report: as JSON, or as lines for a reader. The lines are the message, one line for each
file whose patch failed or did not fit exactly, and the place of the rejects if there are any.
-/
namespace Patchwork

namespace ReportStatus

/-- The status that the program ends with. -/
def exitCode : ReportStatus → Nat
  | ok => 0
  | userError => 1
  | failure => 2

/-- The name of a status in JSON. -/
def label : ReportStatus → String
  | ok => "ok"
  | userError => "user-error"
  | failure => "failure"

/-- The mark in front of the message. -/
def mark : ReportStatus → String
  | ok => "✔"
  | userError => "✗"
  | failure => "✖"

end ReportStatus

/-- What is noted about a fit, unless the hunks stood where they were recorded. -/
def Fit.note? : Fit → Option String
  | .shifted offset => if offset = 0 then none else some ("offset " ++ toString offset)
  | .trimmed fuzz => some ("fuzz " ++ toString fuzz)
  | .similar score => some ("fuzzy " ++ Binary64.pointText score)

/-- What is noted about a patched file. -/
def PatchReport.note? (r : PatchReport) : Option String :=
  match r.verdict with
  | .applied fit => fit.note?
  | .failed _ hunks _ => some (toString hunks ++ " hunks failed")

/-- The lines about the patched files. -/
def PatchSummary.noteLines (s : PatchSummary) : List String :=
  s.reports.filterMap fun r => r.note?.map fun note => "  " ++ r.path ++ ": " ++ note

/-- The line that tells where the rejects are. -/
def PatchSummary.rejectLines (s : PatchSummary) : List String :=
  if s.isSuccess then [] else ["rejects written to " ++ s.rejects.text]

namespace Report

/-- The report as JSON. -/
def toJson (r : Report) : Json :=
  .obj [("details", r.details.toJson), ("message", .str r.message),
    ("status", .str r.status.label)]

/-- The report as lines. -/
def lines (r : Report) : List String :=
  (r.status.mark ++ " " ++ r.message) ::
    match r.details.patches? with
    | some s => s.noteLines ++ s.rejectLines
    | none => []

/-- What is printed. -/
def text (r : Report) (o : CommandLine.OutputOptions) : String :=
  if o.json then r.toJson.pretty ++ "\n"
  else if o.quiet then ""
  else String.join (r.lines.map (· ++ "\n"))

end Report
end Patchwork
