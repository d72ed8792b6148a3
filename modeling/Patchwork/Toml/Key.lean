import Patchwork.Toml.Text
/-!
Keys of a TOML text. A key is one or more parts with points between them. Every part remembers how
it was written and the blanks around it, so that a key can be written again when its parts have come
to stand in front of others.
-/
namespace Patchwork.Toml

/-- What stands before and after something on its line. -/
structure Margin where
  before : String
  after : String
deriving DecidableEq, Repr, Inhabited

/-- One part of a key. -/
structure KeyPart where
  name : String
  /-- As it is written, bare or between quotes. -/
  text : String
  /-- The blanks between this part and the points beside it. -/
  inner : Margin
  /-- What stands around a whole key that ends in this part. -/
  outer : Margin
deriving DecidableEq, Repr, Inhabited

/-- A key: the parts it leads through and the one it ends in. -/
structure Key where
  path : List KeyPart
  last : KeyPart
deriving DecidableEq, Repr, Inhabited

namespace Key

/-- Parts with points between them. -/
def joined : List KeyPart → String
  | [] => ""
  | [p] => p.text
  | p :: q :: rest => p.text ++ p.inner.after ++ "." ++ q.inner.before ++ joined (q :: rest)

/-- The text of a key. The blanks at its two ends belong to its last part. -/
def render (k : Key) : String :=
  k.last.outer.before ++ joined (k.path ++ [k.last]) ++ k.last.outer.after

/-- Gives the blanks at the two ends of a key to its last part. -/
def settle (k : Key) : Key :=
  match k.path with
  | [] => ⟨[], { k.last with inner := ⟨"", ""⟩, outer := k.last.inner }⟩
  | first :: path =>
    ⟨{ first with inner := ⟨"", first.inner.after⟩ } :: path,
      { k.last with
        inner := ⟨k.last.inner.before, ""⟩
        outer := ⟨first.inner.before, k.last.inner.after⟩ }⟩

end Key

/-- A character of a key without quotes. -/
def isKeyChar (c : Char) : Bool := c.isAlphanum || c == '_' || c == '-'

/-- The name that one part of a key gives, bare or quoted on one line. -/
def keyName? (s : List Char) : Option (String × List Char) :=
  match s with
  | '"' :: rest => (basicBody rest).map fun (text, rest) => (String.ofList text, rest)
  | '\'' :: rest => (literalBody rest).map fun (text, rest) => (String.ofList text, rest)
  | _ =>
    let part := s.takeWhile isKeyChar
    if part = [] then none else some (String.ofList part, s.dropWhile isKeyChar)

/-- The parts of a key between points, each with the blanks around it; `fuel` bounds their
number. -/
def keyParts? : Nat → List Char → Option (Key × List Char)
  | 0, _ => none
  | fuel + 1, s => do
    let (before, s) := spaces s
    let (name, rest) ← keyName? s
    let (after, next) := spaces rest
    let text := String.ofList
    let part : KeyPart :=
      ⟨name, text (consumed s rest), ⟨text before, text after⟩, ⟨"", ""⟩⟩
    match next with
    | '.' :: next => do
      let (more, rest) ← keyParts? fuel next
      return (⟨part :: more.path, more.last⟩, rest)
    | _ => return (⟨[], part⟩, next)

/-- Parts of a key and arrays inside arrays may go this deep. -/
def depthLimit : Nat := 80

/-- A key with the blanks around it. -/
def key? (s : List Char) : Option (Key × List Char) := do
  let (key, rest) ← keyParts? (depthLimit - 1) s
  return (key.settle, rest)

end Patchwork.Toml
