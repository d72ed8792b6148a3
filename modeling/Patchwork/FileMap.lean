import Std.Data.TreeMap
/-!
Files of a tree in memory: contents by relative path, in the order of the paths. Paths are compared
character by character, which is also the order of their UTF-8 bytes.
-/
namespace Patchwork

/-- Contents are equal when their bytes are. -/
instance decidableEqBytes : DecidableEq ByteArray := ByteArray.instDecidableEq

/-- Contents by relative path with forward slashes. -/
abbrev FileMap := Std.TreeMap String ByteArray

namespace FileMap

/-- The paths in order. -/
def paths (t : FileMap) : List String := t.toList.map Prod.fst

/-- The tree with given files, where a later one replaces an earlier one of the same path. -/
def ofFiles (files : List (String × ByteArray)) : FileMap :=
  files.foldl (fun t file => t.insert file.1 file.2) ∅

/-- The text of some bytes, if they are UTF-8. -/
def text? (bytes : ByteArray) : Option String := String.fromUTF8? bytes

end FileMap
end Patchwork
