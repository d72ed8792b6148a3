import Patchwork.CommandLine.Run
/-!
The parts of a machine that a command may look at or change. Only these need to be known before it
runs: the workspace, the cache, the directories of launchers, and what the command line and the
settings name.
-/
namespace Patchwork.CommandLine

/-- The path behind a URL that leads to a local file. -/
def localPath? (url : String) : Option Path :=
  match FileUrl.path? url with
  | .ok p => p
  | .error _ => none

/-- An archive and the file that holds its digest. -/
def archivePaths (archive : Path) : List Path := [archive, sidecarOf archive]

/-- What a command names. -/
def commandPaths : Command → List Path
  | .openArchive source _ _ =>
    match ArchiveSource.parse source with
    | .file p => archivePaths p
    | .url url => (localPath? url).toList ++ (localPath? (url ++ sidecarEnding)).toList
  | .package _ _ output => output.toList.flatMap archivePaths
  | _ => []

/-- What a command may look at or change. -/
def Invocation.reach (i : Invocation) (root : Path) (e : Environment) (s : Settings) : List Path :=
  let w : Workspace := ⟨root⟩
  [w.versions, Migration.ignoreFile w, s.cache]
    ++ (localPath? s.catalogUrl).toList
    ++ (localPath? s.assetsUrl).toList
    ++ Platform.linux.places (.ofEnvironment e)
    ++ commandPaths i.command

/-- What a command line makes the program look at or change. -/
def reach (here : Path) (e : Environment) (args : List String) : List Path :=
  match readArguments here e args, Settings.ofEnvironment here e with
  | .ok (i, root), .ok s => i.reach root e s
  | _, _ => []

end Patchwork.CommandLine
