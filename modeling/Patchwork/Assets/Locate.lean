import Patchwork.Assets.Check
import Patchwork.Assets.Places
import Patchwork.Release.Manifest
/-!
Finding assets that a launcher has already downloaded. The directories belong to others, so one with
any defect is passed over.
-/
namespace Patchwork

/-- A directory of assets in which every object has its digest. -/
structure LocatedAssets where
  root : Path
  tag : String
  index : AssetIndex

namespace LocatedAssets

/-- The file name of an index. -/
def indexName (tag : String) : String := tag ++ ".json"

/-- The index of a directory of assets, if it is there and can be read; a strict search also
compares its digest. -/
def index? (d : Disk) (strict : Bool) (expected : Checksum) (p : Path) : Option AssetIndex :=
  match d.find p with
  | .ok (.file bytes) =>
    if strict && !expected.accepts (expected.algorithm.compute bytes) then none
    else do
      let text ← String.fromUTF8? bytes
      let index ← (AssetIndex.parse text).toOption
      if index.isEmpty then none else some index
  | _ => none

/-- The assets in a directory, if nothing is wrong with them. -/
def at? (d : Disk) (strict : Bool) (tag : String) (expected : Checksum) (root : Path) :
    Option LocatedAssets :=
  let indexes := root.join "indexes"
  let objects := root.join "objects"
  if d.isDir indexes && d.isDir objects then do
    let index ← index? d strict expected (indexes.join (indexName tag))
    if (AssetCheck.of d objects index).isComplete then some ⟨root, tag, index⟩ else none
  else none

/-- The assets of a release in the first of some directories that has them. -/
def find? (d : Disk) (strict : Bool) (candidates : List Path) (m : Manifest) :
    Option LocatedAssets := do
  let tag ← m.assetTag?
  candidates.findSome? (at? d strict tag m.assetIndex.checksum)

end LocatedAssets
end Patchwork
