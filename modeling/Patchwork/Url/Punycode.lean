import Patchwork.Text.Blank
/-!
Punycode: names with characters outside ASCII, written in lower-case letters, digits and hyphens.
The ASCII characters come first, with a hyphen after them if there are any; then a row of numbers
tells where the others go. The digits of a number have places whose weights adapt to the numbers
before it.
-/
namespace Patchwork.Url.Punycode

/-- The value of a digit: the letters come before the ten digits. -/
def digitValue? (c : Char) : Option Nat :=
  if c.isLower then some (c.toNat - 'a'.toNat)
  else if c.isDigit then some (c.toNat - '0'.toNat + 26)
  else none

/-- The digit with a given value. -/
def digit (value : Nat) : Char :=
  if value < 26 then Char.ofNat ('a'.toNat + value) else Char.ofNat ('0'.toNat + (value - 26))

/-- A digit at place `k` that is below this value is the last one of its number. -/
def threshold (k bias : Nat) : Nat := if k ≤ bias then 1 else min 26 (k - bias)

/-- The first character that is not ASCII, by number. -/
def firstNumber : Nat := 0x80

/-- The bias that a first number is written with. -/
def firstBias : Nat := 72

/-- Brings a difference down by powers of 35 and counts them in `k`. -/
def settle (delta k : Nat) : Nat :=
  if delta > 455 then settle (delta / 35) (k + 36) else k + 36 * delta / (delta + 38)
termination_by delta

/-- The bias after a number, given how many characters there are with the new one. -/
def adapt (delta count : Nat) (isFirst : Bool) : Nat :=
  let delta := if isFirst then delta / 700 else delta / 2
  settle (delta + delta / count) 0

/-! ### Reading -/

/-- Reads one number: `value` is that of the digits before place `k`, whose weight is `weight`.
Gives the number and what follows it. -/
def readNumber? (bias k weight value : Nat) : List Char → Option (Nat × List Char)
  | [] => none
  | c :: rest =>
    match digitValue? c with
    | none => none
    | some d =>
      let value := value + d * weight
      if d < threshold k bias then some (value, rest)
      else readNumber? bias (k + 36) (weight * (36 - threshold k bias)) value rest

theorem length_lt_of_readNumber? {bias k weight value n : Nat} {s rest : List Char}
    (h : readNumber? bias k weight value s = some (n, rest)) : rest.length < s.length := by
  induction s generalizing k weight value with
  | nil => simp [readNumber?] at h
  | cons c tail ih =>
    unfold readNumber? at h
    split at h
    · contradiction
    · dsimp only at h
      split at h
      · simp only [Option.some.injEq, Prod.mk.injEq] at h
        simp [← h.2]
      · have := ih h
        simp only [List.length_cons]
        omega

/-- Reads numbers to the end. `found` are the characters so far; the next one is to be counted from
`number` and from `place` on. -/
def insertAll? (bias number place : Nat) (isFirst : Bool) (found s : List Char) :
    Option (List Char) :=
  if s = [] then some found
  else
    match h : readNumber? bias 36 1 0 s with
    | none => none
    | some (delta, rest) =>
      let count := found.length + 1
      let number := number + (place + delta) / count
      let place := (place + delta) % count
      if Nat.isValidChar number then
        have := length_lt_of_readNumber? h
        insertAll? (adapt delta count isFirst) number (place + 1) false
          (found.take place ++ Char.ofNat number :: found.drop place) rest
      else none
termination_by s.length

/-- The name that a text stands for. -/
def decode? (s : List Char) : Option (List Char) :=
  let (ascii, numbers) :=
    match Text.cutOnce? ['-'] s.reverse with
    | some (after, before) => (before.reverse, after.reverse)
    | none => ([], s)
  insertAll? firstBias firstNumber 0 true ascii numbers

/-! ### Writing -/

theorem threshold_pos (k bias : Nat) : 0 < threshold k bias := by
  unfold threshold
  split <;> omega

/-- Writes one number from place `k` on. -/
def writeNumber (bias k value : Nat) : List Char :=
  let t := threshold k bias
  if h : value < t then [digit value]
  else digit (t + (value - t) % (36 - t)) :: writeNumber bias (k + 36) ((value - t) / (36 - t))
termination_by value
decreasing_by
  have := threshold_pos k bias
  have := Nat.div_le_self (value - threshold k bias) (36 - threshold k bias)
  omega

/-- How far the writing of a name has come: the bias, what is to be skipped before the next
character, how many are written, and the text so far. -/
structure Progress where
  bias : Nat
  skipped : Nat
  count : Nat
  isFirst : Bool
  text : List Char

/-- Goes past one character of the name while those with a given number are written. -/
def Progress.pass (number : Nat) (p : Progress) (c : Char) : Progress :=
  if c.toNat < number then { p with skipped := p.skipped + 1 }
  else if c.toNat = number then
    ⟨adapt p.skipped (p.count + 1) p.isFirst, 0, p.count + 1, false,
      p.text ++ writeNumber p.bias 36 p.skipped⟩
  else p

/-- Writes the characters of a name with each of some numbers, in order; those up to `done` are
written. -/
def writeAll (name : List Char) (done : Nat) (p : Progress) : List Nat → List Char
  | [] => p.text
  | number :: rest =>
    let p := { p with skipped := p.skipped + (number - done) * (p.count + 1) }
    let p := name.foldl (Progress.pass number) p
    writeAll name (number + 1) { p with skipped := p.skipped + 1 } rest

/-- The text that stands for a name. -/
def encode (name : List Char) : List Char :=
  let ascii := name.filter (·.toNat < firstNumber)
  let numbers := ((name.map Char.toNat).filter (firstNumber ≤ ·)).mergeSort.eraseDups
  writeAll name firstNumber
    ⟨firstBias, 0, ascii.length, true, if ascii = [] then [] else ascii ++ ['-']⟩ numbers

end Patchwork.Url.Punycode
