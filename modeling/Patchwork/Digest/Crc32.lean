/-!
The cyclic redundancy check of 32 bits that archives keep with every entry.
-/
namespace Patchwork.Digest

/-- One bit of the check. -/
def crcBit (crc : UInt32) : UInt32 :=
  if crc &&& 1 = 1 then (crc >>> 1) ^^^ 0xEDB88320 else crc >>> 1

/-- One byte of the check. -/
def crcByte (crc : UInt32) (byte : UInt8) : UInt32 :=
  let crc := crc ^^^ byte.toUInt32
  crcBit (crcBit (crcBit (crcBit (crcBit (crcBit (crcBit (crcBit crc)))))))

/-- The check of some bytes. -/
def crc32 (bytes : ByteArray) : UInt32 := bytes.foldl crcByte 0xFFFFFFFF ^^^ 0xFFFFFFFF

end Patchwork.Digest
