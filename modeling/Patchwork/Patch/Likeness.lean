import Patchwork.Text.Blank
import Patchwork.Number.Binary64
/-!
How alike two lines are: one less the share of characters that have to be inserted, deleted or
replaced to turn one into the other. Quotients and differences pass through a rounding function; the
identity gives the exact measure, and scores are computed with the rounding of 64-bit floating point
numbers.
-/
namespace Patchwork

namespace EditDistance
variable {α : Type} [DecidableEq α]

/-- The next row of the table of distances: `above` is the entry over the last one of the new row,
`left` the last entry. -/
def nextEntries (a : α) : List α → Nat → List Nat → Nat → List Nat
  | b :: bs, diagonal, above :: row, left =>
    let entry := min (min (diagonal + if a = b then 0 else 1) (above + 1)) (left + 1)
    entry :: nextEntries a bs above row entry
  | _, _, _, _ => []

/-- The row for one more item of the first sequence. -/
def nextRow (bs : List α) (row : List Nat) (a : α) : List Nat :=
  match row with
  | [] => []
  | first :: rest => (first + 1) :: nextEntries a bs first rest (first + 1)

/-- The least number of items to insert, delete or replace to turn one sequence into the other,
computed row by row. -/
def distance (as bs : List α) : Nat :=
  (as.foldl (nextRow bs) (List.range (bs.length + 1))).getLastD 0

end EditDistance

/-- How alike two texts are, between 0 and 1. -/
def likenessIn (round : Rat → Rat) (a b : String) : Rat :=
  if a = b then 1
  else
    let as := a.toList
    let bs := b.toList
    let longest := max as.length bs.length
    round (1 - round (mkRat (EditDistance.distance as bs) longest))

/-- The mean likeness of the lines of a window to the wanted lines, blanks around them aside. -/
def windowLikenessIn (round : Rat → Rat) (window wanted : List String) : Rat :=
  let total := (window.zip wanted).foldl
    (fun sum pair => round (sum + likenessIn round (Text.trim pair.1) (Text.trim pair.2))) 0
  round (total / (wanted.length : Rat))

/-- How alike two texts are, in 64-bit floating point numbers. -/
def likeness (a b : String) : Rat := likenessIn Binary64.nearest a b

/-- The likeness of a window to the wanted lines, in 64-bit floating point numbers. -/
def windowLikeness (window wanted : List String) : Rat :=
  windowLikenessIn Binary64.nearest window wanted

end Patchwork
