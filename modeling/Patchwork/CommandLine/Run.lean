import Patchwork.CommandLine.Output
/-!
The program: from arguments and an environment to what is printed and the status it ends with. A
command line that cannot be read changes nothing and prints nothing but a complaint.
-/
namespace Patchwork.CommandLine

/-- What the program prints, where it complains, and the status it ends with. -/
structure ProgramResult where
  code : Nat
  output : String
  complaint : String
deriving DecidableEq, Repr

/-- The name of the program. -/
def programName : String := "remold"

/-- The version line. -/
def versionText : String := "remold-cli 0.1.0\n"

/-- A summary of the commands. -/
def helpText : String := String.join (List.map (· ++ "\n") [
  "Usage:",
  "    remold [OPTIONS] <COMMAND>",
  "",
  "Versions",
  "  open             Create versions/<dir> from a metadata archive (path or URL).",
  "  setup            Download, remap, decompile and patch one version.",
  "  migrate          Move a version directory and its patches to a new id.",
  "  update           Migrate the newest tracked version to a later release.",
  "  package          Write the metadata archive and its .sha256 sidecar.",
  "",
  "Patches",
  "  apply            Reapply patches onto the decompiled baseline.",
  "  rebuild          Capture working tree edits back into patches/."])

/-- The result of a command line that runs no command. -/
def Stop.result : Stop → ProgramResult
  | help => ⟨0, helpText, ""⟩
  | version => ⟨0, versionText, ""⟩
  | invalid error => ⟨2, "", programName ++ ": " ++ error.text ++ "\n"⟩

/-- The variable that names the workspace. -/
def rootVariable : String := "REMOLD_ROOT"

/-- The root of the workspace: the one that is asked for, or the one of the environment, or the
directory the program was started in. -/
def Invocation.rootIn (i : Invocation) (here : Path) (e : Environment) : Except Stop Path :=
  match i.root with
  | some root => .ok root
  | none =>
    match e.raw? rootVariable with
    | none => .ok here
    | some value =>
      if isPathValue value then .ok ⟨value⟩ else .error (.invalid (.invalidValue "root" value))

/-- Runs a command with the settings of an environment. -/
def Invocation.report (s : Surroundings) (here : Path) (e : Environment) (root : Path)
    (i : Invocation) : StateM World Report :=
  match Settings.ofEnvironment here e with
  | .error failure => return .ofFailure failure
  | .ok settings => i.command.run s ⟨⟨root⟩, settings, e⟩

/-- A command line that can be read, and the root of its workspace. -/
def readArguments (here : Path) (e : Environment) (args : List String) :
    Except Stop (Invocation × Path) := do
  let i ← Invocation.parse args
  return (i, ← i.rootIn here e)

/-- Runs the program. -/
def run (s : Surroundings) (here : Path) (e : Environment) (args : List String) :
    StateM World ProgramResult := do
  match readArguments here e args with
  | .error stop => return stop.result
  | .ok (i, root) =>
    let report ← i.report s here e root
    return ⟨report.status.exitCode, report.text i.output, ""⟩

end Patchwork.CommandLine
