import Patchwork.Text.Blank
import Patchwork.Text.Mark
/-!
The direction in which characters are written, and the rule for names that mix directions: each
label runs one way, starts with a letter, and ends in a letter or a digit, marks aside.
-/
namespace Patchwork.Url

/-- How a character takes part in the direction of a line. -/
inductive Direction where
  | leftToRight
  | rightToLeft
  | digit
  | arabicDigit
  | neutral
  | mark
deriving DecidableEq, Repr

namespace Direction

/-- Letters that are written from right to left. -/
def rightToLeftLetters : List Text.CharRange := [
  (0x5be, 0x5be), (0x5c0, 0x5c0), (0x5c3, 0x5c3), (0x5c6, 0x5c6), (0x5d0, 0x5f4), (0x608, 0x608),
  (0x60b, 0x60b), (0x60d, 0x60d), (0x61b, 0x64a), (0x66d, 0x66f), (0x671, 0x6d5), (0x6e5, 0x6e6),
  (0x6ee, 0x6ef), (0x6fa, 0x710), (0x712, 0x72f), (0x74d, 0x7a5), (0x7b1, 0x7ea), (0x7f4, 0x7f5),
  (0x7fa, 0x7fa), (0x7fe, 0x815), (0x81a, 0x81a), (0x824, 0x824), (0x828, 0x828), (0x830, 0x858),
  (0x85e, 0x88e), (0x8a0, 0x8c9), (0x2135, 0x2138), (0xfb1d, 0xfb1d), (0xfb1f, 0xfb28),
  (0xfb2a, 0xfbc2), (0xfbd3, 0xfc5d), (0xfc64, 0xfd3d), (0xfd50, 0xfd8f), (0xfd92, 0xfdc7),
  (0xfdf0, 0xfdfc), (0xfe71, 0xfe71), (0xfe73, 0xfe73), (0xfe77, 0xfe77), (0xfe79, 0xfe79),
  (0xfe7b, 0xfe7b), (0xfe7d, 0xfe7d), (0xfe7f, 0xfefc), (0x10800, 0x1091b), (0x10920, 0x1093f),
  (0x10980, 0x10a00), (0x10a10, 0x10a35), (0x10a40, 0x10ae4), (0x10aeb, 0x10b35),
  (0x10b40, 0x10d23), (0x10e80, 0x10ea9), (0x10ead, 0x10eb1), (0x10f00, 0x10f45),
  (0x10f51, 0x10f81), (0x10f86, 0x10ff6), (0x1e800, 0x1e8cf), (0x1e900, 0x1e943),
  (0x1e94b, 0x1eebb)
]

/-- Digits that are read from left to right within a line that runs the other way. -/
def arabicDigits : List Text.CharRange := [
  (0x660, 0x669), (0x66b, 0x66c), (0x10d30, 0x10d39), (0x10e60, 0x10e7e)
]

/-- Digits outside ASCII that are read as ASCII ones. -/
def digits : List Text.CharRange := [(0x6f0, 0x6f9), (0x102e1, 0x102fb)]

/-- Signs outside ASCII that take the direction of what stands around them. -/
def neutrals : List Text.CharRange := [
  (0xa0, 0xa9), (0xab, 0xb1), (0xb4, 0xb4), (0xb6, 0xb8), (0xbb, 0xbb), (0xbf, 0xbf), (0xd7, 0xd7),
  (0xf7, 0xf7), (0x2b9, 0x2ba), (0x2c2, 0x2cf), (0x2d2, 0x2df), (0x2e5, 0x2ed), (0x2ef, 0x2ff),
  (0x374, 0x375), (0x37a, 0x37a), (0x37e, 0x37e), (0x384, 0x385), (0x387, 0x387), (0x3f6, 0x3f6),
  (0x58a, 0x58f), (0x606, 0x607), (0x609, 0x60a), (0x60c, 0x60c), (0x60e, 0x60f), (0x66a, 0x66a),
  (0x6de, 0x6de), (0x6e9, 0x6e9), (0x7f6, 0x7f9), (0x9f2, 0x9f3), (0x9fb, 0x9fb), (0xaf1, 0xaf1),
  (0xbf3, 0xbfa), (0xc78, 0xc7e), (0xe3f, 0xe3f), (0xf3a, 0xf3d), (0x1390, 0x1399),
  (0x1400, 0x1400), (0x169b, 0x169c), (0x17db, 0x17db), (0x17f0, 0x180a), (0x1940, 0x1945),
  (0x19de, 0x19ff), (0x1fbd, 0x1fbd), (0x1fbf, 0x1fc1), (0x1fcd, 0x1fcf), (0x1fdd, 0x1fdf),
  (0x1fed, 0x1fef), (0x1ffd, 0x205f), (0x207a, 0x207e), (0x208a, 0x208e), (0x20a0, 0x20a7),
  (0x20a9, 0x20c0), (0x2103, 0x2104), (0x2108, 0x2109), (0x2114, 0x2114), (0x2117, 0x2118),
  (0x211e, 0x211f), (0x2123, 0x2123), (0x2125, 0x2125), (0x2127, 0x2127), (0x2129, 0x2129),
  (0x212e, 0x212e), (0x213a, 0x213a), (0x2140, 0x2144), (0x214a, 0x214d), (0x218a, 0x2335),
  (0x237b, 0x2394), (0x2396, 0x2426), (0x2440, 0x244a), (0x2474, 0x24b5), (0x24eb, 0x26ab),
  (0x26ad, 0x27ff), (0x2900, 0x2b95), (0x2b97, 0x2bff), (0x2ce5, 0x2cea), (0x2cf9, 0x2cff),
  (0x2e00, 0x2e9e), (0x2ea0, 0x2ef2), (0x3000, 0x3004), (0x3008, 0x3020), (0x3030, 0x3030),
  (0x3036, 0x3037), (0x303d, 0x303f), (0x309b, 0x309c), (0x30a0, 0x30a0), (0x30fb, 0x30fb),
  (0x31c0, 0x31e3), (0x3200, 0x3243), (0x4dc0, 0x4dff), (0xa490, 0xa4c6), (0xa60d, 0xa60f),
  (0xa673, 0xa673), (0xa67e, 0xa67f), (0xa700, 0xa721), (0xa788, 0xa788), (0xa828, 0xa82b),
  (0xa838, 0xa839), (0xa874, 0xa877), (0xab6a, 0xab6b), (0xfb29, 0xfb29), (0xfc5e, 0xfc63),
  (0xfd3e, 0xfd4f), (0xfdcf, 0xfdcf), (0xfdfd, 0xfe18), (0xfe31, 0xfe70), (0xfe72, 0xfe72),
  (0xfe74, 0xfe76), (0xfe78, 0xfe78), (0xfe7a, 0xfe7a), (0xfe7c, 0xfe7c), (0xfe7e, 0xfe7e),
  (0xff01, 0xff0f), (0xff1a, 0xff20), (0xff3b, 0xff40), (0xff5b, 0xff65), (0xffe0, 0xffee),
  (0x10101, 0x10101), (0x10140, 0x1018c), (0x10190, 0x101a0), (0x1091f, 0x1091f),
  (0x10b39, 0x10b3f), (0x11052, 0x11065), (0x11660, 0x1166c), (0x11fd5, 0x11ff1),
  (0x16fe2, 0x16fe2), (0x1d1e9, 0x1d241), (0x1d245, 0x1d245), (0x1d300, 0x1d356),
  (0x1d6c1, 0x1d6c1), (0x1d6db, 0x1d6db), (0x1d6fb, 0x1d6fb), (0x1d715, 0x1d715),
  (0x1d735, 0x1d735), (0x1d74f, 0x1d74f), (0x1d76f, 0x1d76f), (0x1d789, 0x1d789),
  (0x1d7a9, 0x1d7a9), (0x1d7c3, 0x1d7c3), (0x1e2ff, 0x1e2ff), (0x1eef0, 0x1f0f5),
  (0x1f10b, 0x1f12a), (0x1f12f, 0x1f12f), (0x1f16d, 0x1f16f), (0x1f1ad, 0x1f1ad),
  (0x1f240, 0x1f248), (0x1f260, 0x1f6d7), (0x1f6dd, 0x1f773), (0x1f780, 0x1f7d8),
  (0x1f7e0, 0x1f8b1), (0x1f900, 0x1fa53), (0x1fa60, 0x1fa74), (0x1fa78, 0x1fa86),
  (0x1fa90, 0x1faac), (0x1fab0, 0x1faba), (0x1fac0, 0x1fac5), (0x1fad0, 0x1fad9),
  (0x1fae0, 0x1fae7), (0x1faf0, 0x1faf6), (0x1fb00, 0x1fbca)
]

/-- The direction of a character. -/
def of (c : Char) : Direction :=
  if c.isAlpha then leftToRight
  else if c.isDigit then digit
  else if c.toNat < 0x80 then neutral
  else if Text.liesIn rightToLeftLetters c then rightToLeft
  else if Text.liesIn arabicDigits c then arabicDigit
  else if Text.liesIn digits c then digit
  else if Text.liesIn neutrals c then neutral
  else if Text.isExtending c then mark
  else leftToRight

/-- Whether a character makes the direction of a name matter. -/
def isForeign : Direction → Bool
  | rightToLeft | arabicDigit => true
  | _ => false

/-- Whether one label keeps to the rule. -/
def fits (label : List Direction) : Bool :=
  let core := Text.dropWhileEnd (· == mark) label
  match label, core.getLast? with
  | leftToRight :: _, some last =>
    core.all (fun d => d ∉ [rightToLeft, arabicDigit]) && last ∈ [leftToRight, digit]
  | rightToLeft :: _, some last =>
    core.all (· != leftToRight) && last ∈ [rightToLeft, digit, arabicDigit] &&
      !(core.contains digit && core.contains arabicDigit)
  | label, _ => label.isEmpty

/-- Whether the labels of a name keep to the rule, which binds them only if one has a character
that runs from right to left. -/
def allFit (labels : List (List Char)) : Bool :=
  let directions := labels.map (·.map Direction.of)
  !directions.any (·.any isForeign) || directions.all fits

end Direction
end Patchwork.Url
