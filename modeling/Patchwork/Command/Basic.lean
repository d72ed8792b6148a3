import Patchwork.Command.Report
/-!
The commands. Each finds its way from the workspace, runs one operation and reports; none of them
fails without a report.
-/
namespace Patchwork

/-- The options that let patches apply where the text has changed. -/
structure FuzzOptions where
  minScore : Option Binary64
  maxFuzz : Option Nat
deriving DecidableEq, Repr

/-- The tolerance that options ask for. -/
def FuzzOptions.tolerance (o : FuzzOptions) : Outcome Tolerance :=
  Tolerance.ofOptions o.minScore o.maxFuzz

/-- What to do. Version directories are given by name. -/
inductive Command where
  | openArchive (source : String) (name : Option String) (replace : Bool)
  | setUp (version : String) (fuzz : FuzzOptions) (assets : AssetsMode) (strict : Bool)
  | migrate (origin target : String)
  | update (policy : UpdatePolicy)
  | package (version : String) (toolchainVersion : Option String) (output : Option Path)
  | apply (version : String) (fuzz : FuzzOptions)
  | rebuild (version : String) (context : Nat)
deriving DecidableEq, Repr

/-- Where a command runs, and with which settings. -/
structure CommandContext where
  workspace : Workspace
  settings : Settings
  environment : Environment

namespace Command

/-- Applies the patches of a version directory. -/
def runApply (c : CommandContext) (version : String) (fuzz : FuzzOptions) :
    Action PatchSummary := do
  let dir ← c.workspace.require version
  let layout : BuildLayout := ⟨dir⟩
  let tolerance ← Action.ofOutcome fuzz.tolerance
  PatchApplication.run {
    baseline := layout.decompiled
    patches := layout.patches
    output := layout.workingTree
    rejects := layout.rejects
    tolerance := tolerance }

/-- Makes the patches of a version directory again. -/
def runRebuild (c : CommandContext) (version : String) (context : Nat) :
    Action RebuildSummary := do
  let layout : BuildLayout := ⟨← c.workspace.require version⟩
  PatchRebuild.run {
    baseline := layout.decompiled
    working := layout.workingTree
    patches := layout.patches
    context := context
    ignored := unpatchedBeginnings }

/-- Sets up a version directory. -/
def runSetup (s : Surroundings) (c : CommandContext) (version : String) (fuzz : FuzzOptions)
    (assets : AssetsMode) (strict : Bool) : Action SetupSummary := do
  let dir ← c.workspace.require version
  let tolerance ← Action.ofOutcome fuzz.tolerance
  SetupRequest.run s {
    dir := dir
    settings := c.settings
    environment := c.environment
    tolerance := tolerance
    assets := assets
    strict := strict }

/-- Moves a version directory. -/
def runMigrate (s : Surroundings) (c : CommandContext) (m : Migration) : Action Migration := do
  m.run s c.workspace
  return m

/-- Follows the releases. -/
def runUpdate (s : Surroundings) (c : CommandContext) (policy : UpdatePolicy) :
    Action (Option Migration) := do
  let releases : ReleaseCache := ⟨c.settings.jsonsDir⟩
  let catalog ← releases.catalog c.settings.catalogUrl
  c.workspace.update s catalog policy

/-- Packages a version directory. -/
def runPackage (c : CommandContext) (version : String) (toolchainVersion : Option String)
    (output : Option Path) : Action PackageSummary := do
  let dir ← c.workspace.require version
  PackageRequest.run ⟨dir, toolchainVersion, output⟩

/-- Opens an archive. -/
def runOpen (s : Surroundings) (c : CommandContext) (source : String) (name : Option String)
    (replace : Bool) : Action OpenSummary :=
  OpenRequest.run s ⟨c.workspace, .parse source, name, replace⟩

/-- Runs an operation to its report. -/
def reported {α : Type} (tell : α → Report) (action : Action α) : StateM World Report :=
  Report.ofOutcome tell <$> action.run

/-- Runs a command. -/
def run (s : Surroundings) (c : CommandContext) : Command → StateM World Report
  | openArchive source name replace =>
    reported OpenSummary.report (runOpen s c source name replace)
  | setUp version fuzz assets strict =>
    reported SetupSummary.report (runSetup s c version fuzz assets strict)
  | migrate origin target => reported Migration.report (runMigrate s c ⟨origin, target⟩)
  | update policy => reported Migration.updateReport (runUpdate s c policy)
  | package version toolchainVersion output =>
    reported PackageSummary.report (runPackage c version toolchainVersion output)
  | apply version fuzz => reported PatchSummary.report (runApply c version fuzz)
  | rebuild version context => reported RebuildSummary.report (runRebuild c version context)

end Command
end Patchwork
