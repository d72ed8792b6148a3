import Patchwork.Disk.Basic
/-!
What became of a disk: the places where something went, and those where something came. Taking the
ones away from the last to the first, and then putting the others from the first to the last, leads
from the one disk to the other.
-/
namespace Patchwork.Disk

/-- The places of a disk at which another one has nothing or something of another kind, with what
stands there. -/
def gone (old new : Disk) : List (Place × Node) :=
  old.nodes.toList.filter fun (place, node) =>
    match node, new.nodes[place]? with
    | .dir, some .dir => false
    | .file _, some (.file _) => false
    | _, _ => true

/-- The places of a disk at which another one has something else, with what stands there now. -/
def come (old new : Disk) : List (Place × Node) :=
  new.nodes.toList.filter fun (place, node) => old.nodes[place]? != some node

end Patchwork.Disk
