import Patchwork.Text.Numeral
/-!
Instants as RFC 3339 writes them: a date, a time of day and the distance to universal time. Two
instants are compared by the time that has passed, whatever their distances.
-/
namespace Patchwork

/-- Seconds since the beginning of 1970 in universal time, the nanoseconds after the last whole one,
and the distance of the clock that was read. -/
structure Instant where
  seconds : Int
  nanosecond : Nat
  offset : Int
deriving DecidableEq, Repr

namespace Instant

/-- Whether an instant comes before another. -/
def earlier (a b : Instant) : Bool :=
  a.seconds < b.seconds || (a.seconds == b.seconds && a.nanosecond < b.nanosecond)

/-- Whether a year has a 29th of February. -/
def isLeap (year : Nat) : Bool := year % 4 == 0 && (year % 100 != 0 || year % 400 == 0)

/-- The number of days of a month. -/
def daysIn (year month : Nat) : Nat :=
  if month = 2 then (if isLeap year then 29 else 28)
  else if month = 4 ∨ month = 6 ∨ month = 9 ∨ month = 11 then 30
  else 31

/-- The days of the years before a year, from the year 0 on. -/
def daysBeforeYear (year : Nat) : Nat :=
  365 * year + (year + 3) / 4 - (year + 99) / 100 + (year + 399) / 400

/-- The days of the months before a month. -/
def daysBeforeMonth (year month : Nat) : Nat :=
  ((List.range' 1 (month - 1)).map (daysIn year)).foldl (· + ·) 0

/-- The days between the beginning of 1970 and a date. -/
def dayNumber (year month day : Nat) : Int :=
  (daysBeforeYear year + daysBeforeMonth year month + (day - 1) : Nat) - (daysBeforeYear 1970 : Int)

/-- A number of exactly so many digits, and the rest. -/
def digits? : Nat → Nat → List Char → Option (Nat × List Char)
  | 0, value, s => some (value, s)
  | n + 1, value, c :: s => (Text.digit? c).bind fun d => digits? n (10 * value + d) s
  | _ + 1, _, [] => none

/-- The rest after one given character. -/
def skip? (c : Char) : List Char → Option (List Char)
  | d :: s => if c = d then some s else none
  | [] => none

/-- A number of two digits up to a limit, and the rest. -/
def twoDigits? (limit : Nat) (s : List Char) : Option (Nat × List Char) :=
  (digits? 2 0 s).filter fun r => r.1 ≤ limit

/-- The nanoseconds that the digits of a fraction stand for; digits beyond the ninth are dropped. -/
def nanoseconds (fraction : List Char) : Nat :=
  let kept := fraction.take 9
  (Text.digitsValue? 0 kept).getD 0 * Nat.pow 10 (9 - kept.length)

/-- The fraction of a second, if there is one, and the rest. -/
def fraction? : List Char → Option (Nat × List Char)
  | '.' :: s =>
    let fraction := s.takeWhile Char.isDigit
    if fraction = [] then none else some (nanoseconds fraction, s.dropWhile Char.isDigit)
  | s => some (0, s)

/-- The distance to universal time in seconds. Nothing may follow it. -/
def offset? : List Char → Option Int
  | ['Z'] => some 0
  | ['z'] => some 0
  | c :: s => do
    let sign : Int ← if c = '+' then some 1 else if c = '-' then some (-1) else none
    let (hour, s) ← twoDigits? 23 s
    let s ← skip? ':' s
    let (minute, s) ← twoDigits? 59 s
    if s = [] then some (sign * (3600 * hour + 60 * minute)) else none
  | [] => none

/-- Whether a second in universal time is the last one of a month, for a clock that shows a day of
the given month: then the next second begins that month or the one after. -/
def endsMonth (year month : Nat) (seconds : Int) : Bool :=
  let first := dayNumber year month 1
  seconds + 1 == 86400 * first || seconds + 1 == 86400 * (first + daysIn year month)

/-- Reads an instant. Between date and time stands any one ASCII character. Second 60 is the end of
second 59, and only the last second of a month in universal time can have it. -/
def ofText? (text : String) : Option Instant := do
  let s := text.toList
  let (year, s) ← digits? 4 0 s
  let s ← skip? '-' s
  let (month, s) ← twoDigits? 12 s
  let s ← skip? '-' s
  let (day, s) ← twoDigits? 31 s
  if month = 0 ∨ day = 0 ∨ daysIn year month < day then none
  else
    match s with
    | [] => none
    | separator :: s =>
      if 0x80 ≤ separator.toNat then none
      else
        let (hour, s) ← twoDigits? 23 s
        let s ← skip? ':' s
        let (minute, s) ← twoDigits? 59 s
        let s ← skip? ':' s
        let (second, s) ← twoDigits? 60 s
        let (nanosecond, s) ← fraction? s
        let offset ← offset? s
        let seconds := 86400 * dayNumber year month day + (3600 * hour + 60 * minute : Nat)
          - offset
        if second < 60 then some ⟨seconds + second, nanosecond, offset⟩
        else if endsMonth year month (seconds + 59) then some ⟨seconds + 59, 999999999, offset⟩
        else none

end Instant
end Patchwork
