import Patchwork.Toolchain.Side
/-!
What a patch set was made with: the release it belongs to, and the two tools that turn the release's
jar into sources.
-/
namespace Patchwork

/-- The jar of a tool: where it comes from and which digest it must have. With a main class it is
put on the class path, else it is run as a jar. -/
structure ToolJar where
  coordinate : String
  url : String
  sha256 : String
  mainClass : Option String
deriving DecidableEq, Repr

namespace ToolJar

/-- A character that a file name takes over from a coordinate. -/
def isKept (c : Char) : Bool := c.isAlphanum || c == '.' || c == '-'

/-- The file name under which a jar is kept. -/
def fileName (jar : ToolJar) : String :=
  String.ofList (jar.coordinate.toList.map fun c => if isKept c then c else '_') ++ ".jar"

end ToolJar

/-- A jar and the templates of its arguments. -/
structure Tool where
  jar : ToolJar
  args : List String
deriving DecidableEq, Repr

/-- A place that libraries come from. -/
structure Repository where
  name : String
  url : String
  groups : Option (List String)
deriving DecidableEq, Repr

/-- The tools of a release and what they make. -/
structure Toolchain where
  version : String
  side : Side
  toolchainVersion : String
  remapper : Tool
  decompiler : Tool
  repositories : List Repository
deriving DecidableEq, Repr

end Patchwork
