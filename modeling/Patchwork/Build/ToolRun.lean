import Patchwork.Disk.Path
import Std.Data.TreeMap
import Patchwork.World
/-!
Running a tool: a jar under a Java launcher, with its arguments filled in. What was in the place of
the output is removed first, so a tool that makes nothing leaves nothing there.

Arguments are templates: a name between braces stands for its value when it has one, and for itself
otherwise; what a value contains is not looked at again.
-/
namespace Patchwork

/-- The values of the names in templates. -/
structure Placeholders where
  values : Std.TreeMap String String

namespace Placeholders

/-- No values. -/
def empty : Placeholders := ⟨∅⟩

/-- Sets the value of a name. -/
def set (v : Placeholders) (name value : String) : Placeholders := ⟨v.values.insert name value⟩

/-- Sets the value of a name to a path. -/
def setPath (v : Placeholders) (name : String) (p : Path) : Placeholders := v.set name p.text

/-- Sets the value of a name to a path, or to the word `null` when there is none. -/
def setPath? (v : Placeholders) (name : String) (p : Option Path) : Placeholders :=
  v.set name ((p.map Path.text).getD "null")

/-- Sets the value of a name to paths with colons between them. -/
def setPaths (v : Placeholders) (name : String) (ps : List Path) : Placeholders :=
  v.set name (":".intercalate (ps.map Path.text))

/-- The value of a name. -/
def get? (v : Placeholders) (name : String) : Option String := v.values[name]?

/-- What a name between braces becomes. -/
def fillName (v : Placeholders) (name : List Char) : List Char :=
  match v.get? (String.ofList name) with
  | some value => value.toList
  | none => '\x7b' :: (name ++ ['\x7d'])

/-- Fills in the characters of a template; `opened` is what followed a brace that is still open, in
reverse order. -/
def fillChars (v : Placeholders) (opened : Option (List Char)) : List Char → List Char
  | [] =>
    match opened with
    | none => []
    | some name => '\x7b' :: name.reverse
  | c :: rest =>
    match opened with
    | none => if c = '\x7b' then fillChars v (some []) rest else c :: fillChars v none rest
    | some name =>
      if c = '\x7d' then v.fillName name.reverse ++ fillChars v none rest
      else fillChars v (some (c :: name)) rest

/-- Fills in a template. -/
def fill (v : Placeholders) (template : String) : String :=
  String.ofList (v.fillChars none template.toList)

end Placeholders

/-- The limit of a tool's memory. -/
def memoryLimit : String := "2G"

/-- One run of a tool. With a main class the jar is put on the class path. -/
structure ToolRun where
  name : String
  jar : Path
  mainClass : Option String
  args : List String
  values : Placeholders
  output : Path
  directory : Path

/-- How a tool ended. -/
structure ToolReport where
  status : Int
  log : Path
  logBytes : Nat
deriving DecidableEq, Repr

namespace ToolRun

/-- The log of a tool, next to its output. -/
def logOf (output : Path) : Path := output.withFileName (output.fileName?.getD "" ++ ".log")

/-- The arguments of the launcher. -/
def commandLine (r : ToolRun) : List String :=
  let start := match r.mainClass with
    | some name => ["-cp", r.jar.text, name]
    | none => ["-jar", r.jar.text]
  ("-Xmx" ++ memoryLimit) :: start ++ r.args.map r.values.fill

/-- Runs a tool once; any status but zero is a failure. -/
def run (s : Surroundings) (java : String) (r : ToolRun) : Action ToolReport := do
  Action.clear r.output
  let log := logOf r.output
  let ended ← Action.launch s ⟨java, r.commandLine, r.directory, log⟩
  if ended.status = 0 then return ⟨ended.status, log, ended.logBytes⟩
  else throw (.toolExit r.name ended.status log.text)

end ToolRun
end Patchwork
