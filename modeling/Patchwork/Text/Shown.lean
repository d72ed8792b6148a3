import Patchwork.Text.Mark
import Patchwork.Text.Unprinted
/-!
Texts between double quotes for a reader's eye: quotes, backslashes and characters that do not show
are escaped. Those are the ones that are not printed, fillers, and those that extend the character
before them, but for the two voicing marks of half width.
-/
namespace Patchwork.Text

/-- Letters that stand for no sound and leave an empty place. -/
def fillers : List CharRange := [(0x115f, 0x1160), (0x3164, 0x3164), (0xffa0, 0xffa0)]

/-- The voicing marks of half width, which have a place of their own. -/
def halfWidthVoicing : List CharRange := [(0xff9e, 0xff9f)]

/-- Whether a character does not show by itself. -/
def isUnseen (c : Char) : Bool :=
  isUnprinted c || liesIn fillers c || (isExtending c && !liesIn halfWidthVoicing c)

/-- A character between double quotes. -/
def quotedChar (c : Char) : List Char :=
  if c = '"' then ['\\', '"']
  else if c = '\\' then ['\\', '\\']
  else if c = '\n' then ['\\', 'n']
  else if c = '\r' then ['\\', 'r']
  else if c = '\t' then ['\\', 't']
  else if c.toNat = 0 then ['\\', '0']
  else if isUnseen c then ['\\', 'u', '\x7b'] ++ Nat.toDigits 16 c.toNat ++ ['\x7d']
  else [c]

/-- A text between double quotes. -/
def shown (s : String) : String :=
  String.ofList ('"' :: (s.toList.flatMap quotedChar ++ ['"']))

end Patchwork.Text
