import Patchwork.Text.Numeral
/-!
Numerical addresses of machines. An address of four bytes has up to four numbers, each decimal,
octal or hexadecimal, the last of which fills what is left. An address of eight groups is written in
hexadecimal; one stretch of zero groups may be left out, and the last two groups may be written as
four bytes.
-/
namespace Patchwork.Url

/-! ### Four bytes -/

/-- The value of a digit up to a given base. -/
def digitIn? (base : Nat) (c : Char) : Option Nat :=
  let value? :=
    if c.isDigit then some (c.toNat - '0'.toNat)
    else if c.isLower then some (c.toNat - 'a'.toNat + 10)
    else if c.isUpper then some (c.toNat - 'A'.toNat + 10)
    else none
  value?.filter (· < base)

/-- The value of digits in a given base. -/
def valueIn? (base : Nat) (digits : List Char) : Option Nat :=
  digits.foldlM (fun value c => (digitIn? base c).map (value * base + ·)) 0

/-- A number of an address. A zero before other digits means octal ones, a zero and an x hexadecimal
ones. -/
def addressNumber? : List Char → Option Nat
  | [] => none
  | '0' :: 'x' :: digits => valueIn? 16 digits
  | '0' :: c :: digits => valueIn? 8 (c :: digits)
  | digits => valueIn? 10 digits

/-- The labels of a name without an empty one at its end. -/
def withoutRoot (labels : List (List Char)) : List (List Char) :=
  if labels.getLast? = some [] then labels.dropLast else labels

/-- Whether the labels of a name can only be meant as an address: the last one is a number. -/
def endsInNumber (labels : List (List Char)) : Bool :=
  match (withoutRoot labels).getLast? with
  | none => false
  | some [] => false
  | some last => last.all Char.isDigit || (addressNumber? last).isSome

/-- The address that the labels of a name stand for. -/
def address4? (labels : List (List Char)) : Option Nat := do
  let labels := withoutRoot labels
  let numbers ← labels.mapM addressNumber?
  let last ← numbers.getLast?
  let front := numbers.dropLast
  if 3 < front.length ∨ front.any (255 < ·) ∨ Nat.pow 256 (4 - front.length) ≤ last then none
  else
    let high := front.foldl (fun value n => value * 256 + n) 0
    some (high * Nat.pow 256 (4 - front.length) + last)

/-- An address of four bytes as it is written. -/
def address4Text (address : Nat) : String :=
  ".".intercalate ([3, 2, 1, 0].map fun k => toString (address / Nat.pow 256 k % 256))

/-! ### Eight groups -/

/-- A group of up to four hexadecimal digits. -/
def group? (s : List Char) : Option Nat :=
  if s = [] ∨ 4 < s.length then none else valueIn? 16 s

/-- One of the four bytes at the end, in decimal and without a zero in front. -/
def byte? (s : List Char) : Option Nat :=
  if s = [] ∨ 3 < s.length ∨ (s.head? = some '0' ∧ s ≠ ['0']) then none
  else (valueIn? 10 s).filter (· < 256)

/-- The two groups that four bytes stand for. -/
def bytePair? (s : List Char) : Option (List Nat) := do
  match ← (Text.cutAt (· == '.') s).mapM byte? with
  | [a, b, c, d] => some [256 * a + b, 256 * c + d]
  | _ => none

/-- Groups with colons between them; four bytes may be meant by the last piece if `atEnd`. -/
def groups? (atEnd : Bool) (s : List Char) : Option (List Nat) :=
  if s = [] then some []
  else
    let pieces := Text.cutAt (· == ':') s
    match pieces.getLast? with
    | none => some []
    | some last => do
      let front ← pieces.dropLast.mapM group?
      if atEnd && last.contains '.' then return front ++ (← bytePair? last)
      else return front ++ [← group? last]

/-- The eight groups of an address. -/
def address6? (s : List Char) : Option (List Nat) := do
  match Text.cutOnce? [':', ':'] s with
  | none => (← groups? true s) |> fun groups => if groups.length = 8 then some groups else none
  | some (before, after) =>
    let front ← groups? false before
    let back ← groups? true after
    if 7 < front.length + back.length then none
    else some (front ++ List.replicate (8 - front.length - back.length) 0 ++ back)

/-- A number in hexadecimal. -/
def hexText (n : Nat) : String := String.ofList (Nat.toDigits 16 n)

/-- Groups with colons between them. -/
def groupsText (groups : List Nat) : String := ":".intercalate (groups.map hexText)

/-- How many zeros some groups begin with. -/
def leadingZeros (groups : List Nat) : Nat := (groups.takeWhile (· = 0)).length

/-- Where the first of the longest stretches of zeros starts, and how long it is. -/
def longestZeros (groups : List Nat) : Nat × Nat :=
  (List.range groups.length).foldl
    (fun best start =>
      let length := leadingZeros (groups.drop start)
      if best.2 < length then (start, length) else best)
    (0, 0)

/-- An address of eight groups as it is written: the first of the longest stretches of at least two
zeros is left out. -/
def address6Text (groups : List Nat) : String :=
  let (start, length) := longestZeros groups
  if length < 2 then groupsText groups
  else groupsText (groups.take start) ++ "::" ++ groupsText (groups.drop (start + length))

end Patchwork.Url
