import Patchwork.Text.Blank
/-!
Paths. A path keeps the text it was written with, since messages show it, but two paths lead to the
same place whenever their parts agree: repeated slashes, points between slashes and a slash at the
end do not count.
-/
namespace Patchwork

/-- A path as it is written. -/
structure Path where
  text : String
deriving DecidableEq, Repr, Inhabited

namespace Path

/-- Texts with a slash between them. -/
def slashed (parts : List String) : String := "/".intercalate parts

/-- Whether a path starts at the root. -/
def isAbsolute (p : Path) : Bool := Text.startsWith "/" p.text

/-- Whether a path ends in a slash. -/
def endsInSlash (p : Path) : Bool := Text.endsWith "/" p.text

/-- A piece between slashes that leads nowhere. -/
def isIdle (piece : String) : Bool := piece == "" || piece == "."

/-- Whether only a directory can be meant, since a slash follows the last name. -/
def meansDir (p : Path) : Bool :=
  match (Text.pieces '/' p.text).reverse with
  | last :: _ :: _ => isIdle last
  | _ => false

/-- The last piece of a path, apart from slashes at its end. -/
def lastPiece? (p : Path) : Option String := (Text.pieces '/' p.text).reverse.find? (· != "")

/-- Whether a path ends in a name. The root does not, and neither does a path that ends in points. -/
def endsInName (p : Path) : Bool := p.lastPiece?.any fun piece => piece != "." && piece != ".."

/-- The names that a path leads through. A point counts only in front of a relative path. -/
def parts (p : Path) : List String :=
  match Text.pieces '/' p.text with
  | [] => []
  | first :: rest => (if first = "" then [] else [first]) ++ rest.filter (!isIdle ·)

/-- A path below another one. An absolute path stands for itself. -/
def join (p : Path) (rest : String) : Path :=
  if Text.startsWith "/" rest ∨ p.text = "" then ⟨rest⟩
  else if p.endsInSlash then ⟨p.text ++ rest⟩
  else ⟨p.text ++ "/" ++ rest⟩

/-- A path below another one, given name by name. -/
def joinAll (p : Path) (names : List String) : Path := names.foldl join p

/-- The pieces in front of the last part, given the pieces in reverse order. -/
def dropPart (reversed : List String) : List String :=
  ((reversed.dropWhile isIdle).drop 1).dropWhile isIdle

/-- The path without its last part; the root and the empty path have none. -/
def parent? (p : Path) : Option Path :=
  match Text.pieces '/' p.text with
  | [] => none
  | first :: rest =>
    if rest.all isIdle then
      if first = "" then none else some ⟨""⟩
    else
      match dropPart rest.reverse with
      | [] => some ⟨if first = "" then "/" else first⟩
      | front => some ⟨slashed (first :: front.reverse)⟩

/-- The name at the end of a path; a path that ends at the root or goes up has none. -/
def fileName? (p : Path) : Option String :=
  p.parts.getLast?.filter fun name => name ≠ ".." ∧ name ≠ "."

/-- The path with another name at its end, or with one more when it has none. -/
def withFileName (p : Path) (name : String) : Path :=
  if p.fileName?.isSome then (p.parent?.getD p).join name else p.join name

/-- What follows the last point of the name at the end, if something precedes the point. -/
def extension? (p : Path) : Option String := do
  let name ← p.fileName?
  let (before, after) ← Text.splitOnceEnd? "." name
  if before = "" then none else some after

/-- Whether two paths have the same parts. -/
def same (p q : Path) : Bool := p.isAbsolute == q.isAbsolute && p.parts == q.parts

/-- The path, its parent, the parent's parent and so on; `fuel` bounds their number. -/
def upwards : Nat → Path → List Path
  | 0, p => [p]
  | fuel + 1, p =>
    p :: match p.parent? with
      | none => []
      | some q => upwards fuel q

/-- The path and all paths above it, from the path up. -/
def withParents (p : Path) : List Path := upwards (p.parts.length + 1) p

end Path
end Patchwork
