import Patchwork.Json.Basic
import Patchwork.Number.Binary64
/-!
Numbers of a JSON text in binary floating point. The digits are gathered in a word of 64 bits, which
is then scaled by a power of ten. The word, the power and the outcome are each rounded, so that a
number with many digits need not come out as the one nearest to its text.
-/
namespace Patchwork.Json

/-- The value of a decimal digit. -/
def digitValue (c : Char) : Nat := c.toNat - '0'.toNat

/-- Takes digits into a word for as long as they fit, and gives those that are left. -/
def fillWord (word : Nat) : List Char → Nat × List Char
  | [] => (word, [])
  | c :: rest =>
    let next := 10 * word + digitValue c
    if next < Nat.pow 2 64 then fillWord next rest else (word, c :: rest)

/-- The power of ten up to which numbers are scaled in one step. -/
def largestScale : Nat := 308

/-- A number times a power of ten; none if it grows too large. It is divided by at most
`10 ^ largestScale` at a time. -/
def scale? (f : Rat) (e : Int) : Option Rat :=
  let power (n : Nat) : Rat := Binary64.nearest (Nat.pow 10 n : Nat)
  if 0 ≤ e then
    if e ≤ largestScale then
      let q := f * power e.toNat
      if Binary64.overflow ≤ q then none else some (Binary64.nearest q)
    else if f = 0 then some 0 else none
  else if -e ≤ largestScale then some (Binary64.nearest (f / power (-e).toNat))
  else if f = 0 then some 0
  else scale? (Binary64.nearest (f / power largestScale)) (e + largestScale)
termination_by (-e).toNat
decreasing_by simp only [largestScale] at *; omega

/-- The value of an exponent. -/
def exponentValue (cs : List Char) : Int :=
  let value (digits : List Char) : Nat := digits.foldl (fun n c => 10 * n + digitValue c) 0
  match cs with
  | '-' :: digits => -(value digits : Int)
  | '+' :: digits => value digits
  | digits => value digits

/-- A number in binary floating point; none for any other value and for a number that is too
large. Digits of the whole part that the word does not hold raise the exponent; those of the
fraction are passed over. -/
def binary64? : Json → Option Binary64
  | .num text =>
    let cs := text.toList
    let negative := cs.head? == some '-'
    let body := if negative then cs.drop 1 else cs
    let (word, uncounted) := fillWord 0 (body.takeWhile Char.isDigit)
    let tail := body.dropWhile Char.isDigit
    let fraction := match tail with
      | '.' :: rest => rest.takeWhile Char.isDigit
      | _ => []
    let (word, dropped) := fillWord word fraction
    let marked := tail.dropWhile fun c => c != 'e' && c != 'E'
    let exponent := uncounted.length - (fraction.length - dropped.length) +
      exponentValue (marked.drop 1)
    (scale? (Binary64.nearest word) exponent).map (Binary64.finite negative)
  | _ => none

end Patchwork.Json
