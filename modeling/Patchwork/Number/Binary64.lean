import Patchwork.Text.Numeral
/-!
Binary floating point numbers of 64 bits as exact rationals: rounding to the nearest one, and the
shortest decimal text that rounds back to one.
-/
namespace Patchwork

/-- A number as scores and thresholds are given: finite, infinite or no number. The sign is kept
apart because zero has two. -/
inductive Binary64 where
  | nan
  | infinite (negative : Bool)
  | finite (negative : Bool) (magnitude : Rat)
deriving DecidableEq, Repr

namespace Binary64

/-- The exponent of the last place of a number: the largest `e` for which 53 binary places from
`2 ^ e` on hold it, and never less than -1074. -/
def lastPlace (num den : Nat) : Int :=
  let guess : Int := (num.log2 : Int) - (den.log2 : Int) - 52
  -- `num / den` lies between `2 ^ (guess + 51)` and `2 ^ (guess + 53)`
  let below : Bool :=
    if 0 ≤ guess + 52 then num < den * Nat.pow 2 (guess + 52).toNat
    else num * Nat.pow 2 (-(guess + 52)).toNat < den
  max (if below then guess - 1 else guess) (-1074)

/-- The quotient rounded to the nearest whole number, a half to the even one. -/
def divNearestEven (num den : Nat) : Nat :=
  let q := num / den
  let r := num % den
  if 2 * r < den then q
  else if 2 * r = den then q + q % 2
  else q + 1

/-- A power of two with any exponent. -/
def twoPow (e : Int) : Rat :=
  if 0 ≤ e then (Nat.pow 2 e.toNat : Nat) else mkRat 1 (Nat.pow 2 (-e).toNat)

/-- How many units of the last place a positive quotient comes to. -/
def units (num den : Nat) (e : Int) : Nat :=
  if 0 ≤ e then divNearestEven num (den * Nat.pow 2 e.toNat)
  else divNearestEven (num * Nat.pow 2 (-e).toNat) den

/-- The nearest number with 53 binary places, ties to the even one. -/
def nearest (q : Rat) : Rat :=
  if q.num = 0 then 0
  else
    let num := q.num.natAbs
    let e := lastPlace num q.den
    let magnitude := (units num q.den e : Rat) * twoPow e
    if q.num < 0 then -magnitude else magnitude

/-- The first magnitude that no longer rounds to a finite number is halfway to it from the largest
one. -/
def overflow : Rat := (Nat.pow 2 1024 - Nat.pow 2 970 : Nat)

/-- The number nearest to a rational. -/
def ofRat (negative : Bool) (q : Rat) : Binary64 :=
  if overflow ≤ q then .infinite negative else .finite negative (nearest q)

/-- The value of a finite number. -/
def value? : Binary64 → Option Rat
  | .finite negative q => some (if negative then -q else q)
  | _ => none

/-! ### Decimal text -/

/-- Ten to an integral power. -/
def tenPow (e : Int) : Rat :=
  if 0 ≤ e then (Nat.pow 10 e.toNat : Nat) else mkRat 1 (Nat.pow 10 (-e).toNat)

/-- How many digits the whole part of a quotient has when it is at least one. -/
def wholeDigits (num den : Nat) : Nat := (toString (num / den)).length

/-- The decimal exponent of a positive rational: the `e` with `10 ^ e ≤ q < 10 ^ (e + 1)`. -/
def decimalExponent (q : Rat) : Int :=
  let num := q.num.natAbs
  if q.den ≤ num then (wholeDigits num q.den : Int) - 1
  else
    -- the digits of the inverse count the zeros after the point
    let zeros := wholeDigits q.den num
    if q = tenPow (-((zeros : Int) - 1)) then -((zeros : Int) - 1) else -(zeros : Int)

/-- The two neighbours of `q` on the grid of multiples of `10 ^ e`, the nearer one first. -/
def gridNeighbours (q : Rat) (e : Int) : List Nat :=
  let scaled := q / tenPow e
  let low := scaled.num.natAbs / scaled.den
  if scaled - (low : Rat) ≤ mkRat 1 2 then [low, low + 1] else [low + 1, low]

/-- Digits and exponent of the shortest decimal that rounds to `q`: the first grid, from one digit
on, that has a point which does. -/
def shortestFrom (q : Rat) : Nat → Int → Nat × Int
  | 0, e => ((gridNeighbours q e).headD 0, e)
  | fuel + 1, e =>
    match (gridNeighbours q e).find? fun (m : Nat) => nearest ((m : Rat) * tenPow e) = q with
    | some m => (m, e)
    | none => shortestFrom q fuel (e - 1)

/-- Digits and exponent of the shortest decimal that rounds to a positive `q`; seventeen digits
always do. -/
def shortest (q : Rat) : Nat × Int :=
  let (m, e) := shortestFrom q 17 (decimalExponent q)
  -- a number just below a power of ten is met on the next grid as ten units
  if m % 10 = 0 then (m / 10, e + 1) else (m, e)

/-- A decimal `m * 10 ^ e` in positional notation, without a point when it is whole. -/
def positional (m : Nat) (e : Int) : String :=
  let digits := toString m
  if 0 ≤ e then digits ++ String.ofList (List.replicate e.toNat '0')
  else
    let places := (-e).toNat
    let padded := List.replicate (places + 1 - digits.length) '0' ++ digits.toList
    let whole := padded.take (padded.length - places)
    let part := padded.drop (padded.length - places)
    String.ofList (whole ++ '.' :: part)

/-- The shortest positional text of a number. -/
def text : Binary64 → String
  | .nan => "NaN"
  | .infinite negative => if negative then "-inf" else "inf"
  | .finite negative q =>
    let sign := if negative then "-" else ""
    if q = 0 then sign ++ "0"
    else
      let (m, e) := shortest q
      sign ++ positional m e

/-- A decimal `m * 10 ^ e` with an exponent and one digit before the point. -/
def withExponent (m : Nat) (e : Int) : String :=
  let digits := toString m
  let part := digits.toList.drop 1
  let point := if part = [] then [] else ['.']
  String.ofList (digits.toList.take 1 ++ point ++ part) ++ "e" ++ toString (e + part.length)

/-- The shortest text of a rational that tells it from a whole number: with a point, or with an
exponent when the point would stand more than sixteen places after the first digit or more than five
places before it. -/
def pointText (q : Rat) : String :=
  if q = 0 then "0.0"
  else
    let (m, e) := shortest (if q < 0 then -q else q)
    let place := e + (toString m).length
    let body :=
      if place ≤ -5 ∨ 16 < place then withExponent m e
      else if 0 ≤ e then positional m e ++ ".0"
      else positional m e
    if q < 0 then "-" ++ body else body

/-! ### Reading -/

/-- The exponent after `e` or `E`, with an optional sign; `none` when it is no number. -/
def exponent? : List Char → Option Int
  | '-' :: rest => if rest = [] then none else (Text.digitsValue? 0 rest).map fun n => -(n : Int)
  | '+' :: rest => if rest = [] then none else (Text.digitsValue? 0 rest).map Int.ofNat
  | rest => if rest = [] then none else (Text.digitsValue? 0 rest).map Int.ofNat

/-- The value of `digits * 10 ^ e`, kept small where the exponent alone settles the result. -/
def scaled (digits : Nat) (count : Nat) (e : Int) : Rat :=
  if digits = 0 then 0
  else if 400 < e then overflow
  else if e + count < -400 then 0
  else (digits : Rat) * tenPow e

/-- An unsigned decimal: digits with an optional point among, before or after them, then an
optional exponent. -/
def magnitude? (cs : List Char) : Option Rat :=
  let isMark := fun c : Char => c == 'e' || c == 'E'
  let mantissa := cs.takeWhile (fun c => !isMark c)
  let tail := cs.dropWhile (fun c => !isMark c)
  let whole := mantissa.takeWhile (· ≠ '.')
  let fraction := (mantissa.dropWhile (· ≠ '.')).drop 1
  if whole = [] ∧ fraction = [] then none
  else do
    let e ← if tail = [] then some 0 else exponent? (tail.drop 1)
    let digits ← Text.digitsValue? 0 (whole ++ fraction)
    return scaled digits (whole.length + fraction.length) (e - fraction.length)

/-- Reads a number: a decimal, `inf`, `infinity` or `nan` in any case, with an optional sign. -/
def ofText? (s : String) : Option Binary64 :=
  let (negative, body) := match s.toList with
    | '-' :: rest => (true, rest)
    | '+' :: rest => (false, rest)
    | cs => (false, cs)
  match (String.ofList body).toLower with
  | "nan" => some .nan
  | "inf" => some (.infinite negative)
  | "infinity" => some (.infinite negative)
  | _ => (magnitude? body).map (ofRat negative)

end Binary64
end Patchwork
