import Patchwork.Archive.Directory
import Patchwork.Archive.Inflate
import Patchwork.Failure
/-!
Reading the entries of a ZIP archive. An entry is found by its local record, and what comes out of
it is compared with its check at the end, so that bytes may have come out before a fault is noticed.
-/
namespace Patchwork.Zip

/-- The bytes of an entry as the archive holds them. -/
structure Packed where
  deflated : Bool
  check : Nat
  bytes : ByteArray

/-- What came out of an entry, and what was wrong with it. -/
structure Unpacked where
  bytes : ByteArray
  fault : Option ArchiveFault

/-- Finds the bytes of an entry. They may end with the archive. -/
def Record.find (archive : ByteArray) (r : Record) : Except ArchiveFault Packed := do
  if r.encrypted then throw .passwordNeeded
  if Nat.pow 2 63 ≤ r.start then throw .badOffset
  let some mark := number? archive r.start 4 | throw .cutShort
  if mark ≠ localMark then throw .noLocalRecord
  let some nameLength := number? archive (r.start + 26) 2 | throw .cutShort
  let some extraLength := number? archive (r.start + 28) 2 | throw .cutShort
  let start := r.start + 30 + nameLength + extraLength
  let bytes := archive.extract start (start + r.size)
  if r.method = 0 then return ⟨false, r.check, bytes⟩
  else if r.method = 8 then return ⟨true, r.check, bytes⟩
  else throw .unsupportedMethod

/-- Compares bytes with the check of their entry. -/
def Packed.checked (p : Packed) (bytes : ByteArray) : Unpacked :=
  ⟨bytes, if (Digest.crc32 bytes).toNat = p.check then none else some .wrongChecksum⟩

/-- How many bytes come out of deflated data at a time. -/
def outputStep : Nat := Nat.pow 2 15

/-- Unpacks the bytes of an entry. Of data that cannot be meant only the whole steps in front come
out. -/
def Packed.unpack (p : Packed) : Unpacked :=
  if p.deflated then
    match Inflate.unpack p.bytes with
    | (bytes, none) => p.checked bytes
    | (bytes, some .cut) => ⟨bytes, some .incompleteStream⟩
    | (bytes, some .corrupt) =>
      ⟨bytes.extract 0 (bytes.size / outputStep * outputStep), some .corruptStream⟩
  else p.checked p.bytes

/-- The bytes that came out, if nothing was wrong. -/
def Unpacked.whole (u : Unpacked) : Except ArchiveFault ByteArray :=
  match u.fault with
  | none => .ok u.bytes
  | some fault => .error fault

/-- Reads an entry. -/
def Record.read (archive : ByteArray) (r : Record) : Except ArchiveFault ByteArray := do
  (← r.find archive).unpack.whole

/-- The entries of an archive in the order of its directory, if all can be read. -/
def decode? (archive : ByteArray) : Option (List Entry) := do
  let records ← records? archive
  records.mapM fun r =>
    match r.read archive with
    | .ok bytes => some (r.name, bytes)
    | .error _ => none

end Patchwork.Zip
