/-!
Percent encoding: a byte may be written as a percent sign and two hexadecimal digits. Control
characters and characters outside ASCII are always written so, byte by byte; which others are
depends on the part of a URL they stand in.
-/
namespace Patchwork.Url

/-- An upper-case hexadecimal digit. -/
def hexDigit (n : Nat) : Char :=
  if n < 10 then Char.ofNat ('0'.toNat + n) else Char.ofNat ('A'.toNat + (n - 10))

/-- The value of a hexadecimal digit. -/
def hexValue? (b : UInt8) : Option UInt8 :=
  if 0x30 ≤ b && b ≤ 0x39 then some (b - 0x30)
  else if 0x61 ≤ b && b ≤ 0x66 then some (b - 0x57)
  else if 0x41 ≤ b && b ≤ 0x46 then some (b - 0x37)
  else none

/-! ### What is encoded where -/

/-- What is encoded after the number sign. -/
def fragmentMarks : List Char := [' ', '"', '<', '>', Char.ofNat 0x60]

/-- What is encoded after the question mark. -/
def queryMarks : List Char := [' ', '"', '#', '<', '>']

/-- What is encoded in a path. -/
def pathMarks : List Char := fragmentMarks ++ ['#', '?', '\x7b', '\x7d']

/-- What is encoded in one name of a path, so that it stays one name and reads back. -/
def nameMarks : List Char := pathMarks ++ ['/', '%', '\\']

/-- What is encoded in the name of a user and in a password. -/
def credentialMarks : List Char :=
  pathMarks ++ ['/', ':', ';', '=', '@', '[', '\\', ']', '^', '|']

/-! ### Encoding and decoding -/

/-- Whether a byte is encoded where some marks are. -/
def isEncoded (marks : List Char) (b : UInt8) : Bool :=
  b < 0x20 || 0x7f ≤ b || marks.contains (Char.ofNat b.toNat)

/-- A byte as it is written where some marks are encoded. -/
def encodeByte (marks : List Char) (b : UInt8) : List Char :=
  if isEncoded marks b then ['%', hexDigit (b.toNat / 16), hexDigit (b.toNat % 16)]
  else [Char.ofNat b.toNat]

/-- A text as it is written where some marks are encoded. -/
def encode (marks : List Char) (s : List Char) : String :=
  String.ofList ((String.ofList s).toUTF8.toList.flatMap (encodeByte marks))

/-- The bytes that encoded ones stand for; a percent sign without two digits stands for itself. -/
def decodeBytes : List UInt8 → List UInt8
  | [] => []
  | 0x25 :: a :: b :: rest =>
    match hexValue? a, hexValue? b with
    | some x, some y => (16 * x + y) :: decodeBytes rest
    | _, _ => 0x25 :: decodeBytes (a :: b :: rest)
  | b :: rest => b :: decodeBytes rest

/-- The bytes that a text stands for. -/
def decode (s : String) : ByteArray := ⟨(decodeBytes s.toUTF8.toList).toArray⟩

end Patchwork.Url
