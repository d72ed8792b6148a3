/-!
Ranges of characters, given by the numbers of the first and the last.
-/
namespace Patchwork.Text

/-- A range of characters by number, both ends included. -/
abbrev CharRange := Nat × Nat

/-- Whether a character lies in one of some ranges. -/
def liesIn (ranges : List CharRange) (c : Char) : Bool :=
  ranges.any fun (first, last) => first ≤ c.toNat && c.toNat ≤ last

end Patchwork.Text
