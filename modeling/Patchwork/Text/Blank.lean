/-!
Blank characters and the ways a text is cut at them. Blanks are the characters with Unicode's
White_Space property, so a no-break space is trimmed as a space is.
-/
namespace Patchwork.Text

/-- The characters with the White_Space property. -/
def isBlank (c : Char) : Bool :=
  let n := c.val
  (0x09 ≤ n && n ≤ 0x0d) || n == 0x20 || n == 0x85 || n == 0xa0 || n == 0x1680 ||
    (0x2000 ≤ n && n ≤ 0x200a) || n == 0x2028 || n == 0x2029 || n == 0x202f || n == 0x205f ||
    n == 0x3000

/-- Drops the last elements that satisfy `p`. -/
def dropWhileEnd {α : Type} (p : α → Bool) (xs : List α) : List α :=
  (xs.reverse.dropWhile p).reverse

/-- The text without the blanks at its end. -/
def trimEnd (s : String) : String :=
  String.ofList (dropWhileEnd isBlank s.toList)

/-- The text without the blanks at either end. -/
def trim (s : String) : String :=
  String.ofList (dropWhileEnd isBlank (s.toList.dropWhile isBlank))

/-- The text without the copies of one character at its end. -/
def trimEndOf (c : Char) (s : String) : String :=
  String.ofList (dropWhileEnd (· == c) s.toList)

/-- Cuts a list at every element that satisfies `p`; the pieces may be empty, and there is always
at least one. -/
def cutAt {α : Type} (p : α → Bool) : List α → List (List α)
  | [] => [[]]
  | c :: rest =>
    if p c then [] :: cutAt p rest
    else
      match cutAt p rest with
      | [] => [[c]]
      | piece :: pieces => (c :: piece) :: pieces

/-- The pieces of a text between the copies of one character. -/
def pieces (c : Char) (s : String) : List String :=
  (cutAt (· == c) s.toList).map String.ofList

/-- The longest stretches of a text without a blank. -/
def words (s : String) : List String :=
  ((cutAt isBlank s.toList).filter (· ≠ [])).map String.ofList

/-- What follows a given beginning, if the text has that beginning. -/
def dropStart? (beginning : List Char) : List Char → Option (List Char) := fun s =>
  match beginning, s with
  | [], rest => some rest
  | _ :: _, [] => none
  | b :: bs, c :: cs => if b = c then dropStart? bs cs else none

/-- What follows a given beginning, if the text has that beginning. -/
def after? (beginning s : String) : Option String :=
  (dropStart? beginning.toList s.toList).map String.ofList

/-- What precedes a given ending, if the text has that ending. -/
def before? (ending s : String) : Option String :=
  (dropStart? ending.toList.reverse s.toList.reverse).map fun rest => String.ofList rest.reverse

/-- Whether the text has a given beginning. -/
def startsWith (beginning s : String) : Bool := (after? beginning s).isSome

/-- Whether the text has a given ending. -/
def endsWith (ending s : String) : Bool := (before? ending s).isSome

/-- Cuts a list at the first place where `mark` occurs; the mark belongs to neither part. -/
def cutOnce? (mark : List Char) : List Char → Option (List Char × List Char)
  | [] => if mark = [] then some ([], []) else none
  | c :: rest =>
    match dropStart? mark (c :: rest) with
    | some after => some ([], after)
    | none => (cutOnce? mark rest).map fun (before, after) => (c :: before, after)

/-- Cuts a text at the first place where `mark` occurs. -/
def splitOnce? (mark s : String) : Option (String × String) :=
  (cutOnce? mark.toList s.toList).map fun (before, after) =>
    (String.ofList before, String.ofList after)

/-- Cuts a text at the last place where `mark` occurs. -/
def splitOnceEnd? (mark s : String) : Option (String × String) :=
  (cutOnce? mark.toList.reverse s.toList.reverse).map fun (after, before) =>
    (String.ofList before.reverse, String.ofList after.reverse)

/-- Whether `part` occurs somewhere in the text. -/
def contains (part s : String) : Bool := (splitOnce? part s).isSome

/-- Two texts that differ at most in the case of ASCII letters. -/
def sameIgnoringCase (a b : String) : Bool := a.toLower == b.toLower

theorem dropStart?_eq_some_iff {b s r : List Char} : dropStart? b s = some r ↔ s = b ++ r := by
  induction b generalizing s with
  | nil => simp [dropStart?, eq_comm]
  | cons x xs ih =>
    cases s with
    | nil => simp [dropStart?]
    | cons y ys =>
      by_cases h : x = y
      · subst h; simp [dropStart?, ih]
      · simp [dropStart?, h]; intro h'; exact absurd h'.symm h

end Patchwork.Text
