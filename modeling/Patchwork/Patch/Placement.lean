import Patchwork.Patch.Hunk
import Patchwork.Patch.Likeness
import Patchwork.Failure
/-!
Finding the place of a hunk in a file, and how well it fits there. An exact search looks for the
hunk's old lines outward from the expected position; a loose one takes the most similar window, or
drops outer context lines and searches exactly again. Every search stays inside the lines that it is
given.
-/
namespace Patchwork

/-- How a hunk found its place: by its lines at some distance from the recorded position, by its
lines without some of the outer context, or by the likeness of its lines. -/
inductive Fit where
  | shifted (offset : Int)
  | trimmed (fuzz : Nat)
  | similar (score : Rat)
deriving DecidableEq, Repr

namespace Fit

/-- How loose the kind of fit is. -/
def rank : Fit → Nat
  | shifted offset => if offset = 0 then 0 else 1
  | trimmed _ => 2
  | similar _ => 3

/-- The one of two that strayed further from the recorded text. Of two that strayed equally far it
is the first. How far an offset strays is told in signed words. -/
def looser : Fit → Fit → Fit
  | shifted a, shifted b =>
    shifted (if Text.signedDistance b ≤ Text.signedDistance a then a else b)
  | trimmed a, trimmed b => trimmed (max a b)
  | similar a, similar b => similar (if a ≤ b then a else b)
  | p, q => if p.rank < q.rank then q else p

/-- The loosest of a start and some others. -/
def loosest (start : Fit) (others : List Fit) : Fit :=
  others.foldl looser start

end Fit

/-- How far a hunk may stray from its recorded text. -/
inductive Tolerance where
  /-- Its lines as they are, near the recorded position. -/
  | shifted
  /-- Else the most similar window, when its score reaches `minScore`. -/
  | similar (minScore : Rat)
  /-- Else its lines without up to `maxFuzz` context lines at either end. -/
  | trimmed (maxFuzz : Nat)
deriving DecidableEq, Repr

/-- The least score that is asked for when none is given. -/
def usualMinScore : Rat := mkRat 1 2

/-- Similar windows are allowed from a score between 0 and 1 on. -/
def Tolerance.ofScore (score : Binary64) : Outcome Tolerance :=
  match score.value? with
  | some q =>
    if 0 ≤ q ∧ q ≤ 1 then .ok (.similar q) else .error (.usage (.scoreOutOfRange score))
  | none => .error (.usage (.scoreOutOfRange score))

/-- The tolerance for two options that exclude each other. -/
def Tolerance.ofOptions (minScore : Option Binary64) (maxFuzz : Option Nat) : Outcome Tolerance :=
  match minScore, maxFuzz with
  | some _, some _ => .error (.usage .fuzzCombined)
  | some score, none => Tolerance.ofScore score
  | none, some maxFuzz => .ok (.trimmed maxFuzz)
  | none, none => .ok .shifted

/-- An exact match further than this from the expected position is not trusted. -/
def maxDisplacement : Nat := 1000

/-- Where a hunk goes: the window of the file that it covers, and the lines put there. -/
structure Placement where
  start : Nat
  window : Nat
  body : List PatchLine
  /-- How many context lines were dropped from the front of the hunk. -/
  dropped : Nat
  fit : Fit
  /-- Whether the hunk is applied there; a window that scores too low only keeps its lines from
  the other hunks. -/
  accepted : Bool
deriving DecidableEq, Repr

namespace Placement

/-- The line after the window. -/
def stop (p : Placement) : Nat := p.start + p.window

/-- How far the window lies from the recorded position, as a signed word. -/
def displacement (p : Placement) (h : Hunk) : Int :=
  Text.signed ((p.start : Int) - ((h.origin : Int) + (p.dropped : Int)))

end Placement

/-- A position moved by a signed distance. Moving on stops at the largest word, moving back at
zero. -/
def displaced (origin : Nat) (distance : Int) : Nat :=
  if 0 ≤ distance then max origin (min (origin + distance.toNat) (Text.wordLimit - 1))
  else origin - (-distance).toNat

/-- The distance between two positions. -/
def gap (a b : Nat) : Nat := (a - b) + (b - a)

/-- The lines of a file from `start` on, `length` of them. -/
def windowAt (lines : Array String) (start length : Nat) : List String :=
  (lines.extract start (start + length)).toList

namespace Placement

/-! ### Exact search -/

/-- Whether the wanted lines stand at `start`, not too far from the expected position. -/
def standsAt (lines : Array String) (expected : Nat) (wanted : List String) (start : Nat) : Bool :=
  gap start expected ≤ maxDisplacement && windowAt lines start wanted.length == wanted

/-- The candidates at one distance from `first`, between `lower` and `last`, the later one first. -/
def atDistance (lower last first distance : Nat) : List Nat :=
  (if first + distance ≤ last then [first + distance] else []) ++
    (if 0 < distance ∧ lower + distance ≤ first then [first - distance] else [])

/-- The nearest place to `expected` where the wanted lines stand, within `lower` and `upper` and no
further than `maxDisplacement` away; of two equally near places the later one. -/
def nearest (lines : Array String) (lower upper expected : Nat) (wanted : List String) :
    Option Nat :=
  let upper := min upper lines.size
  if lower + wanted.length ≤ upper then
    let last := upper - wanted.length
    let first := max lower (min expected last)
    -- the search ends where nothing further out can be near enough
    let reach := min (last - lower) (gap first expected + maxDisplacement)
    (List.range (reach + 1)).findSome? fun distance =>
      (atDistance lower last first distance).find? (standsAt lines expected wanted)
  else none

/-- The placement of a whole hunk where its old lines stand. -/
def whole (h : Hunk) (start : Nat) : Placement where
  start := start
  window := h.oldSide.length
  body := h.lines
  dropped := 0
  fit := .shifted (Text.signed ((start : Int) - (h.origin : Int)))
  accepted := true

/-! ### The most similar window -/

/-- Whether a window should replace the best one so far: it scores higher, or as high and lies
nearer to the expected position. -/
def improves (expected : Nat) (best : Nat × Rat) (start : Nat) (score : Rat) : Bool :=
  best.2 < score || (score == best.2 && gap start expected < gap best.1 expected)

/-- Keeps the better one of the best window so far and the window at `start`. -/
def better (score : List String → List String → Rat) (lines : Array String) (expected : Nat)
    (wanted : List String) (best : Option (Nat × Rat)) (start : Nat) : Option (Nat × Rat) :=
  let value := score (windowAt lines start wanted.length) wanted
  match best with
  | none => some (start, value)
  | some found => if improves expected found start value then some (start, value) else best

/-- The window with the highest score between `lower` and `upper`, ties broken by closeness to
`expected`. The choice does not depend on any threshold. -/
def mostSimilar (score : List String → List String → Rat) (lines : Array String)
    (lower upper expected : Nat) (wanted : List String) : Option (Nat × Rat) :=
  let upper := min upper lines.size
  if wanted = [] ∨ upper - lower < wanted.length then none
  else
    (List.range' lower (upper - wanted.length - lower + 1)).foldl
      (better score lines expected wanted) none

/-- The placement of a whole hunk at a window with a score. -/
def alike (h : Hunk) (minScore : Rat) (found : Nat × Rat) : Placement where
  start := found.1
  window := h.oldSide.length
  body := h.lines
  dropped := 0
  fit := .similar found.2
  accepted := decide (minScore ≤ found.2)

/-- The placement of a hunk at its most similar window. -/
def similar (lines : Array String) (lower upper expected : Nat) (h : Hunk) (minScore : Rat) :
    Option Placement :=
  (mostSimilar windowLikeness lines lower upper expected h.oldSide).map (alike h minScore)

/-! ### Dropped context -/

/-- The lines of a hunk without some at the front and some at the end. -/
def trimmedBody (h : Hunk) (front back : Nat) : List PatchLine :=
  (h.lines.take (h.lines.length - back)).drop front

/-- The placement of part of a hunk where the old lines of that part stand. -/
def partOf (body : List PatchLine) (front fuzz start : Nat) : Placement where
  start := start
  window := (body.filterMap PatchLine.old?).length
  body := body
  dropped := front
  fit := .trimmed fuzz
  accepted := true

/-- The placement of a hunk without `fuzz` context lines at either end, or as many as there are. -/
def withFuzz (lines : Array String) (lower upper expected : Nat) (h : Hunk) (fuzz : Nat) :
    Option Placement :=
  let front := min fuzz h.leading
  let body := trimmedBody h front (min fuzz h.trailing)
  let wanted := body.filterMap PatchLine.old?
  if wanted = [] then none
  else
    (nearest lines lower upper ((expected + front) % Text.wordLimit) wanted).map
      (partOf body front fuzz)

/-- The placement with the least fuzz that has one, from 1 to `maxFuzz`. More fuzz than there are
context lines changes nothing; without any, the search is still made once, because the gap and the
expected position may differ from those of the exact search. -/
def trimmed (lines : Array String) (lower upper expected : Nat) (h : Hunk) (maxFuzz : Nat) :
    Option Placement :=
  (List.range' 1 (min maxFuzz (max 1 (max h.leading h.trailing)))).findSome?
    (withFuzz lines lower upper expected h)

/-- The placement that a tolerance allows for a hunk that stands nowhere as it is. -/
def loose (lines : Array String) (lower upper expected : Nat) (h : Hunk) : Tolerance →
    Option Placement
  | .shifted => none
  | .similar minScore => similar lines lower upper expected h minScore
  | .trimmed maxFuzz => trimmed lines lower upper expected h maxFuzz

end Placement
end Patchwork
