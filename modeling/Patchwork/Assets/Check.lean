import Patchwork.Assets.Index
import Patchwork.Download.Fetch
/-!
Comparing a directory of objects with an index. Every distinct object is there with its digest, is
missing, or is there with other bytes.
-/
namespace Patchwork

/-- How an object was found. -/
inductive ObjectState where
  | verified
  | missing
  | mismatched
deriving DecidableEq, Repr

/-- Looks at one object below a directory of objects. -/
def AssetObject.stateIn (d : Disk) (objects : Path) (o : AssetObject) : ObjectState :=
  match o.path? with
  | none => .mismatched
  | some path =>
    match d.find (objects.join path) with
    | .ok (.file bytes) =>
      if o.checksum.accepts (DigestAlgorithm.sha1.compute bytes) then .verified else .mismatched
    | _ => .missing

/-- What was found for every distinct object of an index. -/
structure AssetCheck where
  verified : List AssetObject
  missing : List AssetObject
  mismatched : List AssetObject

namespace AssetCheck

/-- Looks at all distinct objects of an index. -/
def of (d : Disk) (objects : Path) (index : AssetIndex) : AssetCheck :=
  let found := index.uniqueObjects.map fun o => (o, o.stateIn d objects)
  let those (state : ObjectState) := (found.filter fun f => f.2 == state).map Prod.fst
  ⟨those .verified, those .missing, those .mismatched⟩

/-- Whether every object is there with its digest. -/
def isComplete (c : AssetCheck) : Bool := c.missing.isEmpty && c.mismatched.isEmpty

/-- The objects to download: the missing ones, and then those with other bytes. -/
def wanted (c : AssetCheck) : List AssetObject := c.missing ++ c.mismatched

end AssetCheck
end Patchwork
