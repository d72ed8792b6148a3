/-!
The middle snake of two sequences: a point on some shortest path through their edit graph, found by
searching from both ends at once along diagonals. The search decides where a script is cut in two;
whether the script fits does not depend on it.
-/
namespace Patchwork.Snake

/-- How far a search has come on each diagonal. -/
structure Frontier where
  origin : Nat
  reach : Array Nat

namespace Frontier

/-- A frontier for diagonals from `-bound` to `bound`. -/
def start (bound : Nat) : Frontier := ⟨bound + 1, Array.replicate (2 * bound + 3) 0⟩

/-- The place of a diagonal in the table. -/
def index (f : Frontier) (k : Int) : Nat := (k + f.origin).toNat

/-- How far the search has come on diagonal `k`. -/
def get (f : Frontier) (k : Int) : Nat := f.reach.getD (f.index k) 0

/-- Records how far the search has come on diagonal `k`. -/
def set (f : Frontier) (k : Int) (x : Nat) : Frontier :=
  { f with reach := f.reach.setIfInBounds (f.index k) x }

/-- Where a path of `d` edits enters diagonal `k`: from the neighbour that is further on. -/
def enter (f : Frontier) (d k : Int) : Nat :=
  if k = -d ∨ (k ≠ d ∧ f.get (k - 1) < f.get (k + 1)) then f.get (k + 1) else f.get (k - 1) + 1

end Frontier

variable {α : Type} [DecidableEq α]

/-- How many items are equal from places `x` of `old` and `y` of `new` on, at most `limit`. -/
def run (old new : Array α) : Nat → Nat → Nat → Nat
  | 0, _, _ => 0
  | limit + 1, x, y =>
    match old[x]?, new[y]? with
    | some a, some b => if a = b then run old new limit (x + 1) (y + 1) + 1 else 0
    | _, _ => 0

/-- How many items are equal backwards from the end of the first `n` of `old` and the first `m` of
`new`. -/
def runBack (old new : Array α) : Nat → Nat → Nat
  | n + 1, m + 1 =>
    match old[n]?, new[m]? with
    | some a, some b => if a = b then runBack old new n m + 1 else 0
    | _, _ => 0
  | _, _ => 0

/-- Two searches, and the point where they met. -/
structure Meeting where
  forth : Frontier
  back : Frontier
  point : Option (Nat × Nat) := none

/-- The diagonals that a path of `d` edits can end on, the greatest first. -/
def diagonals (d : Nat) : List Int :=
  (List.range (d + 1)).map fun (i : Nat) => (d : Int) - 2 * (i : Int)

/-- Extends the forward search on diagonal `k`. -/
def stepForth (old new : Array α) (d : Nat) (m : Meeting) (k : Int) : Meeting :=
  match m.point with
  | some _ => m
  | none =>
    let delta : Int := (old.size : Int) - new.size
    let x := m.forth.enter d k
    let y := (x : Int) - k
    let far := if 0 ≤ y then x + run old new (old.size - x) x y.toNat else x
    let forth := m.forth.set k far
    if delta % 2 = 1 ∧ ((k - delta).natAbs : Int) ≤ (d : Int) - 1 ∧
        old.size ≤ far + m.back.get (delta - k) then
      { m with forth, point := some (x, y.toNat) }
    else { m with forth }

/-- Extends the backward search on diagonal `k`. -/
def stepBack (old new : Array α) (d : Nat) (m : Meeting) (k : Int) : Meeting :=
  match m.point with
  | some _ => m
  | none =>
    let delta : Int := (old.size : Int) - new.size
    let x := m.back.enter d k
    let y := (x : Int) - k
    let advance :=
      if 0 ≤ y then runBack old new (old.size - x) (new.size - y.toNat) else 0
    let far := x + advance
    let back := m.back.set k far
    if delta % 2 = 0 ∧ (k - delta).natAbs ≤ d ∧ old.size ≤ far + m.forth.get (delta - k) then
      { m with back, point := some (old.size - far, ((new.size : Int) - (y + advance)).toNat) }
    else { m with back }

/-- Searches with ever more edits, at most `fuel` rounds from `d` on. -/
def search (old new : Array α) : Nat → Nat → Meeting → Meeting
  | 0, _, m => m
  | fuel + 1, d, m =>
    let m := (diagonals d).foldl (stepForth old new d) m
    let m := (diagonals d).foldl (stepBack old new d) m
    match m.point with
    | some _ => m
    | none => search old new fuel (d + 1) m

/-- Where the two searches meet: how many items of each sequence lie before the snake. -/
def middle (old new : List α) : Nat × Nat :=
  let a := old.toArray
  let b := new.toArray
  let rounds := (a.size + b.size + 1) / 2 + 1
  let start := Frontier.start rounds
  let m := search a b rounds 0 ⟨start, start, none⟩
  m.point.getD (0, 0)

end Patchwork.Snake
