import Patchwork.Digest.Crc32
/-!
Writing ZIP archives, with their entries stored as they are. Each entry is preceded by a local
record; a directory after the last one repeats the names with the places of the records, and an end
record tells where the directory begins.
-/
namespace Patchwork.Zip

/-- A name and the bytes stored under it. -/
abbrev Entry := String × ByteArray

/-- The lowest bytes of a number, the lowest first. -/
def littleEndian : Nat → Nat → List UInt8
  | 0, _ => []
  | width + 1, value => UInt8.ofNat value :: littleEndian width (value / 256)

/-- The mark that local records begin with. -/
def localMark : Nat := 0x04034b50

/-- The mark of an entry in the directory. -/
def centralMark : Nat := 0x02014b50

/-- The mark of the end record. -/
def endMark : Nat := 0x06054b50

/-- What the two records of an entry have in common: the least version that reads it, a flag for
names in UTF-8, the method, a date, the check, the sizes, and the lengths of the name and of extra
data. -/
def common (entry : Entry) : List UInt8 :=
  let size := entry.2.size
  littleEndian 2 20 ++ littleEndian 2 0x0800 ++ littleEndian 2 0 ++ littleEndian 2 0
    ++ littleEndian 2 0x21 ++ littleEndian 4 (Digest.crc32 entry.2).toNat ++ littleEndian 4 size
    ++ littleEndian 4 size ++ littleEndian 2 entry.1.utf8ByteSize ++ littleEndian 2 0

/-- The local record of an entry, its name and its bytes. -/
def localRecord (entry : Entry) : List UInt8 :=
  littleEndian 4 localMark ++ common entry ++ entry.1.toUTF8.toList ++ entry.2.toList

/-- The directory's record of an entry whose local record begins at an offset. -/
def centralRecord (entry : Entry) (offset : Nat) : List UInt8 :=
  littleEndian 4 centralMark ++ littleEndian 2 20 ++ common entry ++ littleEndian 2 0
    ++ littleEndian 2 0 ++ littleEndian 2 0 ++ littleEndian 4 0 ++ littleEndian 4 offset
    ++ entry.1.toUTF8.toList

/-- The local records one after another. -/
def localRecords (entries : List Entry) : List UInt8 := entries.flatMap localRecord

/-- The directory of entries whose local records begin at an offset. -/
def directory : Nat → List Entry → List UInt8
  | _, [] => []
  | offset, entry :: rest =>
    centralRecord entry offset ++ directory (offset + (localRecord entry).length) rest

/-- The end record. -/
def endRecord (count size offset : Nat) : List UInt8 :=
  littleEndian 4 endMark ++ littleEndian 2 0 ++ littleEndian 2 0 ++ littleEndian 2 count
    ++ littleEndian 2 count ++ littleEndian 4 size ++ littleEndian 4 offset ++ littleEndian 2 0

/-- The archive of some entries in order. -/
def encode (entries : List Entry) : ByteArray :=
  let records := localRecords entries
  let names := directory 0 entries
  ⟨(records ++ names ++ endRecord entries.length names.length records.length).toArray⟩

end Patchwork.Zip
