import Patchwork.Assets.Store
import Patchwork.Json.Print
/-!
Providing the assets of a release: those that a launcher has, or a store that is filled. What was
decided is written down next to the other results of a build.
-/
namespace Patchwork

/-- How assets are provided. -/
inductive AssetsMode where
  /-- Those of a launcher, or else the store. -/
  | auto
  /-- Always the store. -/
  | downloaded
  /-- Not at all. -/
  | none
deriving DecidableEq, Repr

namespace AssetsMode

/-- The name as it is written. -/
def name : AssetsMode → String
  | auto => "auto"
  | downloaded => "downloaded"
  | none => "none"

/-- Reads a name in any case, with blanks around it. -/
def parse (value : String) : Outcome AssetsMode :=
  let name := (Text.trim value).toLower
  if name = "auto" then .ok auto
  else if name = "downloaded" then .ok downloaded
  else if name = "none" then .ok none
  else .error (.usage (.unknownAssetsMode name))

end AssetsMode

/-- Which assets a build uses: whether a launcher had them, where they are, and their index. -/
structure AssetsInfo where
  found : Bool
  dir : Option String
  index : Option String
deriving DecidableEq, Repr

namespace AssetsInfo

/-- No assets. -/
def absent : AssetsInfo := ⟨false, none, none⟩

/-- Writes what was decided. -/
def toJson (i : AssetsInfo) : Json :=
  .obj [("assetsFound", .bool i.found), ("assetsDir", .orNull (i.dir.map .str)),
    ("assetIndex", .orNull (i.index.map .str))]

end AssetsInfo

/-- What is needed to provide assets. -/
structure AssetsRequest where
  mode : AssetsMode
  manifest : Manifest
  indexText : String
  candidates : List Path
  strict : Bool
  store : AssetStore
  url : String
  infoFile : Path

namespace AssetsRequest

/-- Fills the store. -/
def fillStore (r : AssetsRequest) (tag : String) : Action AssetsInfo := do
  let _ ← r.store.fill r.url tag r.indexText
  return ⟨false, some r.store.root.text, some tag⟩

/-- Provides the assets. -/
def provide (r : AssetsRequest) (tag : String) : Action AssetsInfo :=
  match r.mode with
  | .none => return .absent
  | .downloaded => r.fillStore tag
  | .auto => do
    match LocatedAssets.find? (← Action.disk) r.strict r.candidates r.manifest with
    | some located => return ⟨true, some located.root.text, some located.tag⟩
    | none => r.fillStore tag

/-- Provides the assets and writes down what was decided. -/
def run (r : AssetsRequest) : Action AssetsInfo := do
  match r.manifest.assetTag? with
  | none => throw (.usage .noAssetIndex)
  | some tag => do
    let info ← r.provide tag
    Action.makeParent r.infoFile
    Action.writeFile r.infoFile info.toJson.pretty.toUTF8
    return info

end AssetsRequest
end Patchwork
