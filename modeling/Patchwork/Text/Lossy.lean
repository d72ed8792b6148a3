/-!
Text from bytes that need not be UTF-8: in the code page of the first personal computers, whose lower
half is ASCII and whose upper half holds accented letters, box drawing and a few signs, or as UTF-8
where every piece that is not the encoding of a character becomes one replacement character; a piece
is as long as it could still have begun one.
-/
namespace Patchwork.Text

/-- The characters of the upper half of the code page, in order. -/
def codePageUpper : String :=
  "ÇüéâäàåçêëèïîìÄÅÉæÆôöòûùÿÖÜ¢£¥₧ƒáíóúñÑªº¿⌐¬½¼¡«»" ++
  "░▒▓│┤╡╢╖╕╣║╗╝╜╛┐└┴┬├─┼╞╟╚╔╩╦╠═╬╧╨╤╥╙╘╒╓╫╪┘┌█▄▌▐▀" ++
  "αßΓπΣσµτΦΘΩδ∞φε∩≡±≥≤⌠⌡÷≈°∙·√ⁿ²■\u00a0"

/-- The character of a byte. -/
def codePageChar (b : UInt8) : Char :=
  if b < 0x80 then Char.ofNat b.toNat
  else codePageUpper.toList.getD (b.toNat - 0x80) '\ufffd'

/-- The text of bytes in the code page. -/
def ofCodePage (bytes : List UInt8) : String := String.ofList (bytes.map codePageChar)

/-- The replacement character. -/
def replacementChar : Char := '\ufffd'

/-- A character whose encoding has begun: the bits so far, how many bytes are left, and the range of
the next one. -/
structure Begun where
  value : Nat
  left : Nat
  low : UInt8
  high : UInt8

/-- What the first byte of an encoding tells; none for a byte that is no first byte of a longer
one. -/
def Begun.of? (b : UInt8) : Option Begun :=
  if 0xc2 ≤ b && b ≤ 0xdf then some ⟨b.toNat - 0xc0, 1, 0x80, 0xbf⟩
  else if b = 0xe0 then some ⟨0, 2, 0xa0, 0xbf⟩
  else if b = 0xed then some ⟨0xd, 2, 0x80, 0x9f⟩
  else if 0xe1 ≤ b && b ≤ 0xef then some ⟨b.toNat - 0xe0, 2, 0x80, 0xbf⟩
  else if b = 0xf0 then some ⟨0, 3, 0x90, 0xbf⟩
  else if 0xf1 ≤ b && b ≤ 0xf3 then some ⟨b.toNat - 0xf0, 3, 0x80, 0xbf⟩
  else if b = 0xf4 then some ⟨4, 3, 0x80, 0x8f⟩
  else none

/-- Takes a byte that begins something: the characters that are complete with it, and what it has
begun. -/
def takeFirst (b : UInt8) : List Char × Option Begun :=
  if b < 0x80 then ([Char.ofNat b.toNat], none)
  else match Begun.of? b with
    | some begun => ([], some begun)
    | none => ([replacementChar], none)

/-- Takes a byte after what was begun before it. -/
def takeByte (begun : Option Begun) (b : UInt8) : List Char × Option Begun :=
  match begun with
  | none => takeFirst b
  | some p =>
    if p.low ≤ b && b ≤ p.high then
      let value := 64 * p.value + (b.toNat - 0x80)
      if p.left ≤ 1 then ([Char.ofNat value], none)
      else ([], some ⟨value, p.left - 1, 0x80, 0xbf⟩)
    else
      let (chars, next) := takeFirst b
      (replacementChar :: chars, next)

/-- The characters of bytes after what was begun before them. -/
def lossyChars (begun : Option Begun) : List UInt8 → List Char
  | [] => if begun.isSome then [replacementChar] else []
  | b :: rest =>
    let (chars, next) := takeByte begun b
    chars ++ lossyChars next rest

/-- The text of bytes: as it is when they are UTF-8, and else with replacements. -/
def ofBytesLossy (bytes : ByteArray) : String :=
  match String.fromUTF8? bytes with
  | some text => text
  | none => String.ofList (lossyChars none bytes.toList)

end Patchwork.Text
