import Patchwork.Command.Basic
import Patchwork.CommandLine.Options
/-!
Reading a command line: options that every command has, the name of a command, and the options and
operands of that command. Options that every command has may stand on either side of the name.
-/
namespace Patchwork.CommandLine

/-- How to tell the report. -/
structure OutputOptions where
  quiet : Bool
  json : Bool
deriving DecidableEq, Repr

/-- What a command line asks for. -/
structure Invocation where
  command : Command
  root : Option Path
  output : OutputOptions
deriving DecidableEq, Repr

/-- Any value at all. -/
def anyValue (_ : String) : Bool := true

/-- Values that can be paths. -/
def isPathValue (value : String) : Bool := value != ""

/-- Values that are numbers. -/
def isNumber (value : String) : Bool := (Binary64.ofText? value).isSome

/-- Values that are counts. -/
def isCount (value : String) : Bool := (Text.word? value).isSome

/-- The kinds of releases that an update may be limited to. -/
def releaseKinds : List String := ["release", "snapshot"]

/-- The ways to provide assets. -/
def assetsModes : List AssetsMode := [.auto, .downloaded, .none]

/-- The mode with an exact name. -/
def assetsMode? (value : String) : Option AssetsMode := assetsModes.find? (·.name == value)

/-- A flag. -/
def flag (name : String) : OptionSpec := ⟨name, none, .flag, false⟩

/-- An option with a value. -/
def valued (name : String) (accepts : String → Bool) : OptionSpec :=
  ⟨name, none, .required accepts, false⟩

/-- The options that every command has. Nothing is ever coloured, and logs are not kept, so some of
them change nothing. -/
def commonOptions : List OptionSpec := [
  ⟨"quiet", some 'q', .flag, false⟩,
  ⟨"verbose", some 'v', .flag, true⟩,
  flag "trace",
  flag "json",
  flag "no-color",
  valued "root" isPathValue,
  ⟨"help", some 'h', .stop .help, false⟩]

/-- The options that may stand in front of a command. -/
def leadingOptions : List OptionSpec :=
  commonOptions ++ [⟨"version", some 'V', .stop .version, false⟩]

/-- The options that let patches apply where the text has changed. -/
def fuzzSpecs : List OptionSpec := [
  ⟨"fuzzy", none, .optional isNumber "0.5", false⟩,
  valued "max-fuzz" isCount]

/-- The options of `fuzzSpecs` that were given. -/
def fuzzOptions (g : Given) : Except Stop FuzzOptions :=
  if g.has "fuzzy" ∧ g.has "max-fuzz" then .error (.invalid (.conflict "max-fuzz" "fuzzy"))
  else .ok ⟨(g.lookup "fuzzy").bind Binary64.ofText?, (g.lookup "max-fuzz").bind Text.word?⟩

/-- How the options and operands of a command are read. -/
structure CommandSpec where
  name : String
  options : List OptionSpec
  operands : List String
  read : Given → List String → Except Stop Command

/-- The operand that a command has at some place. -/
def operand (operands : List String) (index : Nat) : String := operands.getD index ""

/-- Opens an archive. -/
def openSpec : CommandSpec where
  name := "open"
  options := [valued "dir" anyValue, flag "force"]
  operands := ["ARCHIVE"]
  read g xs := .ok (.openArchive (operand xs 0) (g.lookup "dir") (g.has "force"))

/-- Sets up a version directory. -/
def setupSpec : CommandSpec where
  name := "setup"
  options := fuzzSpecs ++
    [valued "assets" fun value => (assetsMode? value).isSome, flag "strict-assets"]
  operands := ["VERSION"]
  read g xs := do
    let assets := ((g.lookup "assets").bind assetsMode?).getD .auto
    return .setUp (operand xs 0) (← fuzzOptions g) assets (g.has "strict-assets")

/-- Moves a version directory. -/
def migrateSpec : CommandSpec where
  name := "migrate"
  options := []
  operands := ["FROM", "TO"]
  read _ xs := .ok (.migrate (operand xs 0) (operand xs 1))

/-- Follows the releases. -/
def updateSpec : CommandSpec where
  name := "update"
  options := [valued "kind" releaseKinds.contains, flag "latest"]
  operands := []
  read g _ := .ok (.update ⟨g.lookup "kind", g.has "latest"⟩)

/-- Packages a version directory. -/
def packageSpec : CommandSpec where
  name := "package"
  options := [valued "toolchain-version" anyValue,
    ⟨"output", some 'o', .required isPathValue, false⟩]
  operands := ["VERSION"]
  read g xs :=
    let output := (g.lookup "output").map Path.mk
    .ok (.package (operand xs 0) (g.lookup "toolchain-version") output)

/-- Applies the patches of a version directory. -/
def applySpec : CommandSpec where
  name := "apply"
  options := fuzzSpecs
  operands := ["VERSION"]
  read g xs := do return .apply (operand xs 0) (← fuzzOptions g)

/-- Makes the patches of a version directory again. -/
def rebuildSpec : CommandSpec where
  name := "rebuild"
  options := [valued "context" isCount]
  operands := ["VERSION"]
  read g xs :=
    .ok (.rebuild (operand xs 0) (((g.lookup "context").bind Text.word?).getD usualContext))

/-- The commands. -/
def commands : List CommandSpec :=
  [openSpec, setupSpec, migrateSpec, updateSpec, packageSpec, applySpec, rebuildSpec]

/-- Reads the arguments that follow the name of a command. -/
def CommandSpec.parse (spec : CommandSpec) (args : List String) :
    Except Stop (Command × Given) := do
  let (given, operands) ← takeAll (commonOptions ++ spec.options) spec.operands.length [] [] args
  match spec.operands.drop operands.length with
  | missing :: _ => throw (.invalid (.missingOperand missing))
  | [] => return (← spec.read given operands, given)

/-- Reads a command line. -/
def Invocation.parse (args : List String) : Except Stop Invocation := do
  let (leading, rest) ← takeLeading leadingOptions [] args
  match rest with
  | [] => throw (.invalid .noCommand)
  | name :: rest =>
    match commands.find? (·.name == name) with
    | none => throw (.invalid (.unknownCommand name))
    | some spec =>
      let (command, given) ← spec.parse rest
      -- what follows the name comes first, so of two roots the later one counts
      let all : Given := given ++ leading
      return {
        command := command
        root := (all.lookup "root").map Path.mk
        output := ⟨all.has "quiet", all.has "json"⟩ }

end Patchwork.CommandLine
