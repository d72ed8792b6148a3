import Patchwork.Toolchain.Basic
import Patchwork.Toml.Document
/-!
The profile of a version directory: a TOML document that names the release the directory follows and
the tools it is built with. Changing the release leaves the rest of the text as it was.
-/
namespace Patchwork

/-- The two tools of a toolchain. -/
inductive ToolRole where
  | remapper
  | decompiler
deriving DecidableEq, Repr

/-- The name of a tool and of its table. -/
def ToolRole.name : ToolRole → String
  | remapper => "remapper"
  | decompiler => "decompiler"

/-- The profile of a version directory. -/
structure Profile where
  document : Toml.Document

namespace Profile

/-- The name of the file that holds a profile. -/
def fileName : String := "remold.toml"

/-- The name of the release. -/
def versionKey : String := "minecraftVersion"

/-- The name of the side. -/
def sideKey : String := "side"

/-- The name of the toolchain's own version. -/
def toolchainKey : String := "toolchainVersion"

/-- The release that the directory follows. -/
def version? (p : Profile) : Option String := p.document.root.text? versionKey

/-- The release that the directory follows; the empty text when none is named. -/
def version (p : Profile) : String := p.version?.getD ""

/-- Reads a profile; it must name a release. -/
def parse (text : String) : Outcome Profile :=
  match Toml.Document.parse? text with
  | none =>
    .error (.during (.parsing "version configuration") (.fault (.malformed "not a TOML document")))
  | some document =>
    if (version? ⟨document⟩).isSome then .ok ⟨document⟩ else .error (.fault .unsetVersion)

/-- The text of a profile. -/
def render (p : Profile) : String := p.document.render

/-- Follows another release. -/
def follow (p : Profile) (version : String) : Profile :=
  ⟨p.document.setText versionKey version⟩

/-- The side that the directory follows; the server when no text names one. -/
def side (p : Profile) : Outcome Side :=
  match p.document.root.text? sideKey with
  | some text => Side.parse text
  | none => .ok .server

/-- The version of the toolchain, if it is recorded. -/
def toolchainVersion? (p : Profile) : Option String := p.document.root.text? toolchainKey

/-- A tool and the templates of its arguments. -/
def tool (p : Profile) (role : ToolRole) : Outcome Tool :=
  match p.document.root.table? role.name with
  | none => .error (.fault (.notTable role.name))
  | some table => do
    let field (key : String) : Outcome String :=
      match table.text? key with
      | some text => .ok text
      | none => .error (.fault (.notStringField role.name key))
    let coordinate ← field "coordinate"
    let url ← field "url"
    let sha256 ← field "sha256"
    return ⟨⟨coordinate, url, sha256, table.text? "mainClass"⟩, table.texts "args"⟩

/-- The repository that a table describes, if it has a name and a place. -/
def repositoryOf? (table : Toml.Table) : Option Repository := do
  let name ← table.text? "name"
  let url ← table.text? "url"
  return ⟨name, url, (table.find? "groups").map fun _ => table.texts "groups"⟩

/-- The repositories in order; tables that describe none are passed over. -/
def repositories (p : Profile) : List Repository :=
  (p.document.root.tables "repositories").filterMap repositoryOf?

/-- The toolchain that a profile describes, under a version of its own. -/
def toolchain (p : Profile) (toolchainVersion : String) : Outcome Toolchain := do
  let remapper ← p.tool .remapper
  let decompiler ← p.tool .decompiler
  let some version := p.version? | throw (.fault .missingVersion)
  let side ← p.side
  return { version, side, toolchainVersion, remapper, decompiler, repositories := p.repositories }

/-! ### Profiles made from a toolchain -/

section
open Toml

/-- The table that describes a tool. -/
def toolTable (tool : Tool) : Table :=
  .ofMembers
    ([assigned "coordinate" (.ofText tool.jar.coordinate), assigned "url" (.ofText tool.jar.url),
        assigned "sha256" (.ofText tool.jar.sha256)]
      ++ (tool.jar.mainClass.map fun name => assigned "mainClass" (.ofText name)).toList
      ++ [assigned "args" (.ofTexts tool.args)])

/-- The table that describes a repository. -/
def repositoryTable (r : Repository) : Table :=
  .ofMembers
    ([assigned "name" (.ofText r.name), assigned "url" (.ofText r.url)]
      ++ (r.groups.map fun groups => assigned "groups" (.ofTexts groups)).toList)

/-- The profile that describes a toolchain. -/
def ofToolchain (t : Toolchain) : Profile where
  document := {
    root := .mk .whole
      ([assigned versionKey (.ofText t.version), assigned sideKey (.ofText t.side.name),
          assigned toolchainKey (.ofText t.toolchainVersion),
          headed ToolRole.remapper.name (.table (toolTable t.remapper)),
          headed ToolRole.decompiler.name (.table (toolTable t.decompiler))]
        ++ if t.repositories = [] then []
          else [headed "repositories" (.tables (t.repositories.map repositoryTable))])
    tail := "" }

end

end Profile
end Patchwork
