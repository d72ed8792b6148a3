import Patchwork.Patch.Parse
import Std.Data.TreeMap
/-!
Patches by the path of the file that they change, at most one for a path.
-/
namespace Patchwork

/-- Patches by path, in the order of the paths. -/
structure PatchSet where
  byPath : Std.TreeMap String Patch

namespace PatchSet

/-- What a patch's file name adds to the path of the file it changes. -/
def suffix : String := ".patch"

/-- The set without patches. -/
def empty : PatchSet := ⟨∅⟩

/-- The patch of a path. -/
def get? (s : PatchSet) (path : String) : Option Patch := s.byPath[path]?

/-- The patches in the order of their paths. -/
def toList (s : PatchSet) : List Patch := s.byPath.toList.map Prod.snd

/-- The number of patches. -/
def size (s : PatchSet) : Nat := s.byPath.size

/-- Whether there is no patch. -/
def isEmpty (s : PatchSet) : Bool := s.byPath.isEmpty

/-- Adds a patch; its path must not have one. -/
def insert (s : PatchSet) (p : Patch) : Outcome PatchSet :=
  if s.byPath.contains p.path then .error (.usage (.repeatedPatch p.path))
  else .ok ⟨s.byPath.insert p.path p⟩

/-- Adds patches one after another. -/
def insertAll (s : PatchSet) (ps : List Patch) : Outcome PatchSet := ps.foldlM insert s

end PatchSet
end Patchwork
