import Patchwork.Digest.Checksum
import Patchwork.Json.Parse
import Patchwork.Text.Shown
/-!
Asset indexes: objects by logical name, each kept under its digest. Several names may share an
object, and digests are the same whatever the case of their letters.
-/
namespace Patchwork

/-- An object: its digest and its size. -/
structure AssetObject where
  hash : String
  size : Nat
deriving DecidableEq, Repr

namespace AssetObject

/-- Whether the hash is a SHA-1 digest in hexadecimal; nothing else names an object. -/
def isValid (o : AssetObject) : Bool :=
  o.hash.utf8ByteSize == 40 && o.hash.toList.all Checksum.isHexDigit

/-- The digest that the object must have. -/
def checksum (o : AssetObject) : Checksum := .of .sha1 o.hash

/-- The name of the object's file. -/
def fileName (o : AssetObject) : String := o.hash.toLower

/-- The path of the object below the directory of objects: a directory for the first two digits, and
the digest. -/
def path? (o : AssetObject) : Option String :=
  if o.isValid then
    some (String.ofList (o.fileName.toList.take 2) ++ "/" ++ o.fileName)
  else none

end AssetObject

/-- Objects by logical name, in the order of the index. -/
structure AssetIndex where
  objects : List (String × AssetObject)
deriving DecidableEq, Repr

namespace AssetIndex

/-- Sets the object of a name: in its place if the name is there, else at the end. -/
def put (objects : List (String × AssetObject)) (name : String) (o : AssetObject) :
    List (String × AssetObject) :=
  if (objects.lookup name).isSome then
    objects.map fun entry => if entry.1 = name then (name, o) else entry
  else objects ++ [(name, o)]

/-- Reads an object. -/
def object? (j : Json) : Option AssetObject :=
  match j.fields? ["hash", "size"] with
  | some [hash, size] => do
    return {
      hash := ← Json.required? Json.text? hash
      size := ← Json.required? (Json.word? Text.wordLimit) size }
  | _ => none

/-- Reads objects by name. -/
def objects? (j : Json) : Option (List (String × AssetObject)) := do
  let members ← j.members?
  members.foldlM (fun objects m => do return put objects m.1 (← object? m.2)) []

/-- Reads an index, whatever its hashes are. -/
def ofJson? (j : Json) : Option AssetIndex :=
  match j.fields? ["objects"] with
  | some [objects] => do return ⟨← Json.required? objects? objects⟩
  | _ => none

/-- Reads the text of an index; every hash must be a digest. -/
def parse (text : String) : Outcome AssetIndex := do
  let index ← Json.decode "asset index" ofJson? text
  match index.objects.find? fun entry => !entry.2.isValid with
  | some (name, o) => throw (.fault (.invalidAssetHash name (Text.shown o.hash)))
  | none => return index

/-- Whether the index names nothing. -/
def isEmpty (index : AssetIndex) : Bool := index.objects.isEmpty

/-- The first of several objects with one digest, in order. -/
def distinct : List AssetObject → List AssetObject
  | [] => []
  | o :: rest => o :: (distinct rest).filter fun p => p.fileName != o.fileName

/-- The distinct objects in order. -/
def uniqueObjects (index : AssetIndex) : List AssetObject :=
  distinct (index.objects.map Prod.snd)

end AssetIndex
end Patchwork
