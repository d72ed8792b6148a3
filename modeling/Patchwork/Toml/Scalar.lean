import Patchwork.Number.Binary64
import Patchwork.Toml.Text
/-!
Numbers, dates, times and truth values of a TOML text. Nothing looks at what they are, so a reader
only skips them; but a text with a number that is out of range or a day that does not exist is no
TOML text.
-/
namespace Patchwork.Toml

/-! ### Numbers -/

/-- Skips digits with single underscores between them, after a first digit. -/
def moreDigits? (isDigit : Char → Bool) : List Char → Option (List Char)
  | '_' :: c :: rest => if isDigit c then moreDigits? isDigit rest else none
  | ['_'] => none
  | c :: rest => if isDigit c then moreDigits? isDigit rest else some (c :: rest)
  | [] => some []

/-- Skips at least one digit, with single underscores between them. -/
def digits? (isDigit : Char → Bool) : List Char → Option (List Char)
  | c :: rest => if isDigit c then moreDigits? isDigit rest else none
  | [] => none

/-- Skips a sign. -/
def skipSign : List Char → List Char
  | '+' :: rest => rest
  | '-' :: rest => rest
  | s => s

/-- Skips a decimal whole number: a single zero, or digits that do not begin with one. -/
def whole? (s : List Char) : Option (List Char) :=
  match skipSign s with
  | '0' :: rest => some rest
  | rest => digits? Char.isDigit rest

/-- Skips an exponent. -/
def exponent? : List Char → Option (List Char)
  | c :: rest => if c == 'e' || c == 'E' then digits? Char.isDigit (skipSign rest) else none
  | [] => none

/-- Whether an exponent begins. -/
def beginsExponent : List Char → Bool
  | c :: _ => c == 'e' || c == 'E'
  | [] => false

/-- Skips what makes a whole number a fractional one: a fraction, an exponent, or both. -/
def fraction? : List Char → Option (List Char)
  | '.' :: rest => do
    let rest ← digits? Char.isDigit rest
    if beginsExponent rest then exponent? rest else some rest
  | rest => exponent? rest

/-- A hexadecimal digit. -/
def isHex (c : Char) : Bool := (hexValue? c).isSome

/-- An octal digit. -/
def isOctal (c : Char) : Bool := '0' ≤ c && c ≤ '7'

/-- A binary digit. -/
def isBinary (c : Char) : Bool := c == '0' || c == '1'

/-- The value of digits in some base, underscores aside. -/
def valueIn (base : Nat) (digits : List Char) : Nat :=
  (digits.filterMap hexValue?).foldl (fun n d => base * n + d) 0

/-- Skips a whole number in another base; it must be below `2 ^ 63`. -/
def based? (base : Nat) (isDigit : Char → Bool) (s : List Char) : Option (List Char) := do
  let rest ← digits? isDigit s
  if valueIn base (consumed s rest) < Nat.pow 2 63 then some rest else none

/-- Whether a decimal whole number fits a signed word of 64 bits. -/
def fitsWord (digits : List Char) : Bool :=
  match digits with
  | '-' :: ds => valueIn 10 ds ≤ Nat.pow 2 63
  | '+' :: ds => valueIn 10 ds < Nat.pow 2 63
  | ds => valueIn 10 ds < Nat.pow 2 63

/-- Whether a fractional number is too large to be finite, given its digits without the point and
the power of ten that the last one counts. With its leading digit in the 309th place in front of the
point it may be; that is decided exactly. -/
def overflows (digits : List Char) (e : Int) : Bool :=
  let digits := digits.dropWhile (· == '0')
  let places : Int := digits.length + e
  if digits = [] ∨ places < 309 then false
  else if 309 < places then true
  else Binary64.overflow ≤ (valueIn 10 digits : Rat) * Binary64.tenPow e

/-- The value of an exponent. -/
def exponentOf : List Char → Int
  | '-' :: ds => -(valueIn 10 ds : Int)
  | '+' :: ds => (valueIn 10 ds : Int)
  | ds => (valueIn 10 ds : Int)

/-- Whether a fractional number as it is written is too large to be finite. Only positive ones are
refused. -/
def tooLarge (written : List Char) : Bool :=
  match written with
  | '-' :: _ => false
  | _ =>
    let cs := (skipSign written).filter (· ≠ '_')
    let isMark := fun c : Char => c == 'e' || c == 'E'
    let mantissa := cs.takeWhile fun c => !isMark c
    let power := (cs.dropWhile fun c => !isMark c).drop 1
    let fraction := (mantissa.dropWhile (· ≠ '.')).drop 1
    overflows (mantissa.filter (· ≠ '.')) (exponentOf power - fraction.length)

/-- Skips a number. -/
def number? (s : List Char) : Option (List Char) :=
  match s with
  | '0' :: 'x' :: rest => based? 16 isHex rest
  | '0' :: 'o' :: rest => based? 8 isOctal rest
  | '0' :: 'b' :: rest => based? 2 isBinary rest
  | _ =>
    match skipSign s with
    | 'i' :: 'n' :: 'f' :: rest => some rest
    | 'n' :: 'a' :: 'n' :: rest => some rest
    | _ => do
      let rest ← whole? s
      if rest.head? = some '.' || beginsExponent rest then
        let rest ← fraction? rest
        if tooLarge (consumed s rest) then none else some rest
      else if fitsWord (consumed s rest) then some rest
      else none

/-! ### Dates and times -/

/-- The value of two digits. -/
def twoDigits? : List Char → Option (Nat × List Char)
  | a :: b :: rest =>
    if a.isDigit && b.isDigit then some (valueIn 10 [a, b], rest) else none
  | _ => none

/-- Skips one given character. -/
def skip? (c : Char) : List Char → Option (List Char)
  | d :: rest => if c = d then some rest else none
  | [] => none

/-- Skips digits, if there is one. -/
def someDigits? (s : List Char) : Option (List Char) :=
  match s with
  | c :: rest => if c.isDigit then some (rest.dropWhile Char.isDigit) else none
  | [] => none

/-- The number of days of a month. -/
def daysIn (year month : Nat) : Nat :=
  if month = 2 then (if year % 4 = 0 ∧ (year % 100 ≠ 0 ∨ year % 400 = 0) then 29 else 28)
  else if month = 4 ∨ month = 6 ∨ month = 9 ∨ month = 11 then 30
  else 31

/-- Skips hours and minutes. -/
def hourMinute? (s : List Char) : Option (List Char) := do
  let (hour, s) ← twoDigits? s
  let s ← skip? ':' s
  let (minute, s) ← twoDigits? s
  if hour ≤ 23 ∧ minute ≤ 59 then some s else none

/-- Skips a time of day. -/
def time? (s : List Char) : Option (List Char) := do
  let s ← hourMinute? s
  let s ← skip? ':' s
  let (second, s) ← twoDigits? s
  if 60 < second then none
  else match s with
    | '.' :: rest => someDigits? rest
    | _ => some s

/-- Skips the distance to universal time, if it is given. -/
def zone? : List Char → Option (List Char)
  | 'Z' :: rest => some rest
  | 'z' :: rest => some rest
  | '+' :: rest => hourMinute? rest
  | '-' :: rest => hourMinute? rest
  | s => some s

/-- Whether two digits and a colon begin, and so a time. -/
def beginsTime : List Char → Bool
  | a :: b :: ':' :: _ => a.isDigit && b.isDigit
  | _ => false

/-- Skips a date, and a time after it. -/
def date? (s : List Char) : Option (List Char) := do
  let year := valueIn 10 (s.take 4)
  let s ← skip? '-' (s.drop 4)
  let (month, s) ← twoDigits? s
  let s ← skip? '-' s
  let (day, s) ← twoDigits? s
  if 1 ≤ month ∧ month ≤ 12 ∧ 1 ≤ day ∧ day ≤ daysIn year month then
    match s with
    | c :: rest =>
      if (c == 'T' || c == 't' || c == ' ') && beginsTime rest then time? rest >>= zone?
      else some s
    | [] => some []
  else none

/-- Whether four digits and a hyphen begin, and so a date. -/
def beginsDate : List Char → Bool
  | a :: b :: c :: d :: '-' :: _ => a.isDigit && b.isDigit && c.isDigit && d.isDigit
  | _ => false

/-- Skips a date, a time, a number or a truth value. -/
def plainScalar? (s : List Char) : Option (List Char) :=
  match s with
  | 't' :: 'r' :: 'u' :: 'e' :: rest => some rest
  | 'f' :: 'a' :: 'l' :: 's' :: 'e' :: rest => some rest
  | _ =>
    if beginsDate s then date? s
    else if beginsTime s then time? s
    else number? s

end Patchwork.Toml
