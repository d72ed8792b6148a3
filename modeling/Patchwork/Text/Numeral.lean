import Patchwork.Text.Blank
/-!
Decimal numerals for counts and positions, which are 64-bit words.
-/
namespace Patchwork.Text

/-- One more than the largest 64-bit word. -/
def wordLimit : Nat := Nat.pow 2 64

/-- The value of an ASCII digit. -/
def digit? (c : Char) : Option Nat :=
  if '0' ≤ c && c ≤ '9' then some (c.toNat - '0'.toNat) else none

/-- The value of a run of ASCII digits after a number already read. -/
def digitsValue? : Nat → List Char → Option Nat
  | value, [] => some value
  | value, c :: rest => (digit? c).bind fun d => digitsValue? (10 * value + d) rest

/-- Reads a word: an optional `+` and at least one digit, with a value below `2 ^ 64`. -/
def word? (s : String) : Option Nat :=
  let digits := match s.toList with
    | '+' :: rest => rest
    | cs => cs
  if digits = [] then none
  else (digitsValue? 0 digits).filter (· < wordLimit)

/-- A 64-bit word read as a signed number: the upper half stands for the negative numbers. -/
def signed (n : Int) : Int := n.bmod wordLimit

/-- The distance of a signed word from zero, as a signed word. That of the least one is none, and
comes out as the least one itself. -/
def signedDistance (n : Int) : Int := signed n.natAbs

end Patchwork.Text
