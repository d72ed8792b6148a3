import Patchwork.Assets.Locate
import Patchwork.Download.Batch
/-!
A directory of assets that is filled on demand. Objects that are there with their digest are kept,
and all others are downloaded together.
-/
namespace Patchwork

/-- A directory of assets. -/
structure AssetStore where
  root : Path
deriving DecidableEq, Repr

/-- How many distinct objects an index names, and how many of them were there. -/
structure FillSummary where
  requested : Nat
  reused : Nat
  downloaded : Nat
deriving DecidableEq, Repr

namespace AssetStore

/-- The directory of objects. -/
def objectsDir (s : AssetStore) : Path := s.root.join "objects"

/-- The file of an index. -/
def indexFile (s : AssetStore) (tag : String) : Path :=
  (s.root.join "indexes").join (LocatedAssets.indexName tag)

/-- The download of an object. -/
def request (s : AssetStore) (url : String) (o : AssetObject) : Outcome Download :=
  match o.path? with
  | some path =>
    .ok ⟨Text.trimEndOf '/' url ++ "/" ++ path, s.objectsDir.join path, some o.checksum⟩
  | none => .error (.fault (.badAssetHash (Text.shown o.hash)))

/-- Writes the file of an index. -/
def install (s : AssetStore) (tag indexText : String) : Action Unit := do
  Action.makeParent (s.indexFile tag)
  Action.writeFile (s.indexFile tag) indexText.toUTF8

/-- Installs an index, looks at the objects that it names, and gives the downloads of those that are
wanted. -/
def prepare (s : AssetStore) (url tag indexText : String) :
    Action (AssetCheck × List Download) := do
  let index ← Action.ofOutcome (AssetIndex.parse indexText)
  s.install tag indexText
  let check := AssetCheck.of (← Action.disk) s.objectsDir index
  let requests ← Action.ofOutcome (check.wanted.mapM (s.request url))
  return (check, requests)

/-- Installs an index and downloads what is wanted, by the schedule for so many downloads. -/
def fillBy (schedule : Nat → List Nat) (s : AssetStore) (url tag indexText : String) :
    Action FillSummary := do
  let (check, requests) ← s.prepare url tag indexText
  let _ ← Batch.fetchBy (schedule requests.length) requests
  return {
    requested := check.verified.length + requests.length
    reused := check.verified.length
    downloaded := requests.length }

/-- Installs an index and downloads what is wanted, one download after another. -/
def fill (s : AssetStore) (url tag indexText : String) : Action FillSummary :=
  fillBy Batch.inOrder s url tag indexText

end AssetStore
end Patchwork
