import Patchwork.Download.Fetch
import Patchwork.Release.Catalog
import Patchwork.Release.Manifest
/-!
Catalogs, manifests and asset indexes that are kept between runs. The catalog has no digest that
could be compared, so it is downloaded every time; the others are downloaded only when the kept copy
does not have theirs.
-/
namespace Patchwork

/-- The directory where they are kept. -/
structure ReleaseCache where
  root : Path
deriving DecidableEq, Repr

namespace ReleaseCache

/-- Downloads the catalog. -/
def catalog (c : ReleaseCache) (url : String) : Action Catalog := do
  let file := c.root.join "catalog.json"
  let _ ← (Download.mk url file none).fetch
  Action.ofOutcome (Catalog.parse (← Action.readText file))

/-- Provides the manifest of a release. -/
def manifest (c : ReleaseCache) (r : Release) : Action Manifest := do
  let file := (c.root.join r.id).join "version.json"
  let _ ← (Download.mk r.url file (some r.checksum)).ensure
  Action.ofOutcome (Manifest.parse (← Action.readText file))

/-- Provides the text of an asset index, which is kept under an id. -/
def assetIndex (c : ReleaseCache) (id : String) (m : Manifest) : Action String := do
  let file := (c.root.join id).join "asset-index.json"
  let _ ← (Download.mk m.assetIndex.url file (some m.assetIndex.checksum)).ensure
  Action.readText file

end ReleaseCache
end Patchwork
