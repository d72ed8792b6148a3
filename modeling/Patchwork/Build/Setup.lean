import Patchwork.Assets.Setup
import Patchwork.Build.Bundle
import Patchwork.Build.Layout
import Patchwork.Build.ReleaseCache
import Patchwork.Build.ToolRun
import Patchwork.Patch.Files
import Patchwork.Settings
import Patchwork.Toolchain.ProfileFile
/-!
Setting up a version directory: from the release that its profile names to patched sources. The jar
and its mappings are downloaded, libraries and tools are provided, the tools make a source tree of
the jar, and the patches turn it into the working tree. Every stage clears its results before it
begins, and the working tree is written last.
-/
namespace Patchwork

/-- What to set up, and how. -/
structure SetupRequest where
  dir : Path
  settings : Settings
  environment : Environment
  tolerance : Tolerance
  assets : AssetsMode
  strict : Bool

/-- What was set up. -/
structure SetupSummary where
  version : String
  side : Side
  javaVersion : Nat
  libraries : List String
  patches : PatchSummary

/-- What a profile asks for. -/
structure SetupPlan where
  version : String
  side : Side
  remapper : Tool
  decompiler : Tool

/-- The names of the libraries of a jar, and the files to put on its class path. -/
structure ProvidedLibraries where
  names : List String
  classpath : List Path

/-- What a profile asks for, if it names all of it. -/
def Profile.plan (p : Profile) : Outcome SetupPlan := do
  let side ← p.side
  let remapper ← p.tool .remapper
  let decompiler ← p.tool .decompiler
  return { version := p.version, side, remapper, decompiler }

/-- The download of a file that a manifest names. -/
def RemoteFile.download (f : RemoteFile) (target : Path) : Download :=
  ⟨f.url, target, some f.checksum⟩

/-- The download of a library below a directory of libraries. -/
def LibraryJar.download (l : LibraryJar) (libraries : Path) : Download :=
  ⟨l.url, libraries.join l.path, some l.checksum⟩

/-- The download of a tool below a directory of tools. -/
def ToolJar.download (jar : ToolJar) (tools : Path) : Download :=
  ⟨jar.url, tools.join jar.fileName, some (.of .sha256 jar.sha256)⟩

namespace SetupRequest

/-- Where the version directory keeps its parts. -/
def layout (r : SetupRequest) : BuildLayout := ⟨r.dir⟩

/-- Where catalogs and manifests are kept. -/
def releases (r : SetupRequest) : ReleaseCache := ⟨r.settings.jsonsDir⟩

/-- Downloads the jar of a side and its mappings. -/
def downloadInputs (r : SetupRequest) (plan : SetupPlan) (m : Manifest) : Action Unit := do
  match m.mappings? plan.side with
  | none => throw (.usage (.noMappings plan.version plan.side.name))
  | some mappings =>
    let _ ← Batch.fetch [
      (m.jar plan.side).download (r.layout.download plan.side),
      mappings.download (r.layout.mappings plan.side)]

/-- Takes the jar of a server out of the downloaded bundle, and reads which libraries it has. -/
def openServer (r : SetupRequest) : Action LibraryList := do
  let bundle := r.layout.download .server
  Bundle.extractServer bundle (r.layout.inputJar .server)
  let list ← Bundle.libraries bundle r.layout.librariesList
  Action.clear r.layout.librariesDir
  return list

/-- Takes the jar of a server and its libraries out of the downloaded bundle. -/
def unpackServer (r : SetupRequest) : Action ProvidedLibraries := do
  let list ← r.openServer
  let files ← Bundle.extractLibraries (r.layout.download .server) r.layout.librariesDir
  return ⟨list.libraries, files⟩

/-- Copies the jar of a client and downloads its libraries. -/
def provideClient (r : SetupRequest) (m : Manifest) : Action ProvidedLibraries := do
  let input := r.layout.inputJar .client
  Action.clear input
  let bytes ← Action.ask (.copyingTo input.text) (·.read (r.layout.download .client))
  Action.change (.copyingTo input.text) (·.write input bytes)
  let artifacts ← Batch.ensure (m.libraryJars.map (LibraryJar.download · r.settings.librariesDir))
  return ⟨m.libraries.map Library.name, artifacts.map Artifact.path⟩

/-- Puts the jar in the place where the tools look for it, and its libraries beside it. -/
def provideInput (r : SetupRequest) (side : Side) (m : Manifest) : Action ProvidedLibraries :=
  match side with
  | .server => r.unpackServer
  | .client => r.provideClient m

/-- Provides the jars of both tools. -/
def provideTools (r : SetupRequest) (plan : SetupPlan) : Action Unit := do
  let _ ← Batch.ensure [
    plan.remapper.jar.download r.settings.toolsDir,
    plan.decompiler.jar.download r.settings.toolsDir]

/-- The values that the arguments of both tools may use. -/
def commonValues (r : SetupRequest) (classpath : List Path) : Placeholders :=
  let values := Placeholders.empty.setPaths "inputClasspath" classpath
  (values.setPath "tempDir" r.layout.tempDir).setPath "reportsDir" r.layout.reportsDir

/-- A run of a tool in the version directory. -/
def toolRun (r : SetupRequest) (role : ToolRole) (tool : Tool) (values : Placeholders)
    (output : Path) : ToolRun where
  name := role.name
  jar := r.settings.toolsDir.join tool.jar.fileName
  mainClass := tool.jar.mainClass
  args := tool.args
  values := values
  output := output
  directory := r.dir

/-- The run that gives the jar readable names. -/
def remapperRun (r : SetupRequest) (plan : SetupPlan) (classpath : List Path) : ToolRun :=
  let jar := r.settings.toolsDir.join plan.remapper.jar.fileName
  let values := ((r.commonValues classpath).setPath "input" (r.layout.inputJar plan.side)).setPath
    "output" r.layout.remapped
  let values := (values.setPath "mappingsFile" (r.layout.mappings plan.side)).setPath
    "remapperFile" jar
  r.toolRun .remapper plan.remapper (values.setPath? "paramsFile" none) r.layout.remapped

/-- The run that turns the jar into sources. -/
def decompilerRun (r : SetupRequest) (plan : SetupPlan) (classpath : List Path) : ToolRun :=
  let values := ((r.commonValues classpath).setPath "input" r.layout.remapped).setPath
    "output" r.layout.decompiled
  r.toolRun .decompiler plan.decompiler values r.layout.decompiled

/-- Runs both tools. -/
def runTools (s : Surroundings) (r : SetupRequest) (plan : SetupPlan) (classpath : List Path) :
    Action Unit := do
  let _ ← (r.remapperRun plan classpath).run s r.settings.java
  let _ ← (r.decompilerRun plan classpath).run s r.settings.java

/-- Provides the assets that a client runs with. -/
def provideAssets (r : SetupRequest) (plan : SetupPlan) (release : Release) (m : Manifest) :
    Action Unit := do
  if plan.side = .client ∧ r.assets ≠ .none then
    let indexText ← r.releases.assetIndex (m.assetTag?.getD release.id) m
    let _ ← AssetsRequest.run {
      mode := r.assets
      manifest := m
      indexText := indexText
      candidates := Platform.linux.places (.ofEnvironment r.environment)
      strict := r.strict
      store := ⟨r.settings.assetsDir⟩
      url := r.settings.assetsUrl
      infoFile := r.layout.assetsInfo }

/-- Applies the patches to the decompiled sources. -/
def applyPatches (r : SetupRequest) : Action PatchSummary :=
  PatchApplication.run {
    baseline := r.layout.decompiled
    patches := r.layout.patches
    output := r.layout.workingTree
    rejects := r.layout.rejects
    tolerance := r.tolerance }

/-- Reads what the profile asks for, and finds the release that it names. -/
def choose (r : SetupRequest) : Action (SetupPlan × Release) := do
  let profile ← Profile.require r.dir
  let plan ← Action.ofOutcome profile.plan
  let catalog ← r.releases.catalog r.settings.catalogUrl
  let release ← Action.ofOutcome (catalog.release plan.version)
  return (plan, release)

/-- Finds out what to build, and from what. -/
def consult (r : SetupRequest) : Action (SetupPlan × Release × Manifest) := do
  let (plan, release) ← r.choose
  return (plan, release, ← r.releases.manifest release)

/-- Makes everything that the patches need. -/
def prepare (s : Surroundings) (r : SetupRequest) (plan : SetupPlan) (release : Release)
    (m : Manifest) : Action ProvidedLibraries := do
  r.downloadInputs plan m
  let libraries ← r.provideInput plan.side m
  r.provideTools plan
  r.runTools s plan libraries.classpath
  r.provideAssets plan release m
  return libraries

/-- Sets up the version directory. -/
def run (s : Surroundings) (r : SetupRequest) : Action SetupSummary := do
  let (plan, release, manifest) ← r.consult
  let libraries ← prepare s r plan release manifest
  let patches ← r.applyPatches
  return {
    version := plan.version
    side := plan.side
    javaVersion := manifest.javaVersion
    libraries := libraries.names
    patches := patches }

end SetupRequest
end Patchwork
