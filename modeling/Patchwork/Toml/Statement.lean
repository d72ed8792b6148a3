import Patchwork.Toml.Reading
/-!
The statements of a TOML text: assignments and table headers, each with the blank lines and comments
in front of it and those after it on its line.
-/
namespace Patchwork.Toml

/-- A statement as it is written. -/
inductive Statement where
  /-- A key and its value. What stands in front of the key belongs to it. -/
  | assign (key : Key) (entry : Entry)
  /-- A key between brackets. -/
  | header (key : Key) (around : Margin)
  /-- A key between double brackets. -/
  | arrayHeader (key : Key) (around : Margin)

/-- Puts blanks and comments in front of a key. -/
def Key.after (lead : String) (k : Key) : Key :=
  ⟨k.path, { k.last with outer := ⟨lead ++ k.last.outer.before, k.last.outer.after⟩ }⟩

/-- An assignment after the given blanks and comments. -/
def assign? (lead s : List Char) : Option (Statement × List Char) := do
  let (key, rest) ← key? s
  let rest ← skip? '=' rest
  let (before, rest) := spaces rest
  let value ← value? (depthLimit - 1) rest
  let (after, rest) ← lineEnd? value.rest
  let text := String.ofList
  return (.assign (key.after (text lead))
    ⟨value.value, text value.written, ⟨text before, text after⟩⟩, rest)

/-- A header after the given blanks and comments and its first bracket. -/
def header? (lead s : List Char) : Option (Statement × List Char) := do
  let text := String.ofList
  match s with
  | '[' :: s => do
    let (key, rest) ← key? s
    let rest ← skip? ']' rest
    let rest ← skip? ']' rest
    let (after, rest) ← lineEnd? rest
    return (.arrayHeader key ⟨text lead, text after⟩, rest)
  | s => do
    let (key, rest) ← key? s
    let rest ← skip? ']' rest
    let (after, rest) ← lineEnd? rest
    return (.header key ⟨text lead, text after⟩, rest)

/-- All statements, and the blanks and comments after the last one; `fuel` bounds the number of
statements. -/
def statements? : Nat → List Char → Option (List Statement × String)
  | 0, _ => none
  | fuel + 1, s => do
    let (lead, s) := gap false s
    match s with
    | [] => return ([], String.ofList lead)
    | '[' :: rest => do
      let (first, rest) ← header? lead rest
      let (more, tail) ← statements? fuel rest
      return (first :: more, tail)
    | s => do
      let (first, rest) ← assign? lead s
      let (more, tail) ← statements? fuel rest
      return (first :: more, tail)

end Patchwork.Toml
