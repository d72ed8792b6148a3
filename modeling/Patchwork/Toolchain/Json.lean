import Patchwork.Toolchain.Basic
import Patchwork.Json.Parse
import Patchwork.Json.Print
/-!
The JSON form of a toolchain, which travels with a packaged patch set. The arguments of a tool stand
apart from its jar, and what is absent is left out.
-/
namespace Patchwork

namespace ToolJar

/-- Writes a jar. -/
def toJson (jar : ToolJar) : Json :=
  .obj ([("coordinate", .str jar.coordinate), ("url", .str jar.url), ("sha256", .str jar.sha256)]
    ++ (jar.mainClass.map fun name => ("mainClass", Json.str name)).toList)

/-- Reads a jar. -/
def ofJson? (j : Json) : Option ToolJar :=
  match j.fields? ["coordinate", "url", "sha256", "mainClass"] with
  | some [coordinate, url, sha256, mainClass] => do
    return {
      coordinate := ← Json.required? Json.text? coordinate
      url := ← Json.required? Json.text? url
      sha256 := ← Json.required? Json.text? sha256
      mainClass := ← Json.optional? Json.text? mainClass }
  | _ => none

end ToolJar

namespace Repository

/-- Writes a repository. -/
def toJson (r : Repository) : Json :=
  .obj ([("name", .str r.name), ("url", .str r.url)]
    ++ (r.groups.map fun groups => ("groups", Json.strs groups)).toList)

/-- Reads a repository. -/
def ofJson? (j : Json) : Option Repository :=
  match j.fields? ["name", "url", "groups"] with
  | some [name, url, groups] => do
    return {
      name := ← Json.required? Json.text? name
      url := ← Json.required? Json.text? url
      groups := ← Json.optional? (Json.list? Json.text?) groups }
  | _ => none

end Repository

namespace Toolchain

/-- The name of the file that holds a toolchain inside an archive. -/
def fileName : String := "remold.json"

/-- The names of the fields in order. -/
def fieldNames : List String :=
  ["minecraftVersion", "side", "toolchainVersion", "remapper", "decompiler", "repositories",
    "remapperArgs", "decompilerArgs"]

/-- Writes a toolchain. -/
def toJson (t : Toolchain) : Json :=
  .obj [
    ("minecraftVersion", .str t.version),
    ("side", .str t.side.name),
    ("toolchainVersion", .str t.toolchainVersion),
    ("remapper", t.remapper.jar.toJson),
    ("decompiler", t.decompiler.jar.toJson),
    ("repositories", .arr (t.repositories.map Repository.toJson)),
    ("remapperArgs", .strs t.remapper.args),
    ("decompilerArgs", .strs t.decompiler.args)]

/-- Reads a toolchain. A missing side is the server, and missing lists are empty. -/
def ofJson? (j : Json) : Option Toolchain :=
  match j.fields? fieldNames with
  | some [version, side, toolchainVersion, remapper, decompiler, repositories, remapperArgs,
      decompilerArgs] => do
    let texts := Json.list? Json.text?
    return {
      version := ← Json.required? Json.text? version
      side := ← Json.defaulted? .server Side.ofJson? side
      toolchainVersion := ← Json.required? Json.text? toolchainVersion
      remapper := {
        jar := ← Json.required? ToolJar.ofJson? remapper
        args := ← Json.defaulted? [] texts remapperArgs }
      decompiler := {
        jar := ← Json.required? ToolJar.ofJson? decompiler
        args := ← Json.defaulted? [] texts decompilerArgs }
      repositories := ← Json.defaulted? [] (Json.list? Repository.ofJson?) repositories }
  | _ => none

/-- The text of a toolchain. -/
def render (t : Toolchain) : String := t.toJson.pretty

/-- Reads the text of a toolchain. -/
def parse (text : String) : Outcome Toolchain :=
  Json.decode "toolchain metadata" ofJson? text

end Toolchain
end Patchwork
