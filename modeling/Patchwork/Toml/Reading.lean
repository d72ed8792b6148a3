import Patchwork.Toml.Scalar
import Patchwork.Toml.Table
/-!
Reading values. A value is read together with the text that it is written back as. That is its own
text but for two things: between values a carriage return in front of a newline is dropped, and in a
table between braces the members of one dotted table come to stand together.
-/
namespace Patchwork.Toml

/-- What was read: a value, the text it is written back as, and the characters after it. -/
structure Reading (α : Type) where
  value : α
  written : List Char
  rest : List Char

/-- A reader of values. -/
abbrev Reader := List Char → Option (Reading Value)

/-! ### Arrays -/

/-- The items of an array from the start of an item on, up to and including the closing bracket. A
comma may follow the last one. -/
def items? (read : Reader) : Nat → List Char → Option (Reading (List Value))
  | 0, _ => none
  | fuel + 1, s =>
    let (before, s) := gap false s
    match s with
    | ']' :: rest => some ⟨[], before ++ [']'], rest⟩
    | _ => do
      let item ← read s
      let (after, s) := gap false item.rest
      match s with
      | ',' :: rest => do
        let more ← items? read fuel rest
        return ⟨item.value :: more.value, before ++ item.written ++ after ++ [','] ++ more.written,
          more.rest⟩
      | ']' :: rest => return ⟨[item.value], before ++ item.written ++ after ++ [']'], rest⟩
      | _ => none

/-! ### Tables between braces -/

/-- One `key = value`, with the blanks around it. -/
def member? (read : Reader) (s : List Char) : Option ((Key × Entry) × List Char) := do
  let (key, rest) ← key? s
  let rest ← skip? '=' rest
  let (before, rest) := spaces rest
  let value ← read rest
  let (after, rest) := spaces value.rest
  let text := String.ofList
  return ((key, ⟨value.value, text value.written, ⟨text before, text after⟩⟩), rest)

/-- The members of a table between braces that has some, up to and including the closing brace. -/
def members? (read : Reader) : Nat → List Char → Option (List (Key × Entry) × List Char)
  | 0, _ => none
  | fuel + 1, s => do
    let (m, rest) ← member? read s
    match rest with
    | ',' :: rest => do
      let (more, rest) ← members? read fuel rest
      return (m :: more, rest)
    | '\x7d' :: rest => return ([m], rest)
    | _ => none

/-- The text of a table between braces with some members, if they fit together. -/
def braced? (members : List (Key × Entry)) : Option (List Char) := do
  let table ← members.foldlM (fun t m => t.assign m.1 m.2) (Table.mk .whole [])
  let texts := table.entries.map fun m => m.2.render m.1
  return '\x7b' :: (",".intercalate texts).toList ++ ['\x7d']

/-! ### Values -/

/-- A value, with arrays and tables between braces at most `depth` inside each other. -/
def value? : Nat → Reader
  | depth, s =>
    match s with
    | '"' :: _ => string s
    | '\'' :: _ => string s
    | '[' :: rest =>
      match depth with
      | 0 => none
      | depth + 1 => do
        let items ← items? (value? depth) (rest.length + 1) rest
        return ⟨.arr items.value, '[' :: items.written, items.rest⟩
    | '\x7b' :: rest =>
      match depth with
      | 0 => none
      | depth + 1 =>
        let (blank, after) := spaces rest
        match after with
        | '\x7d' :: after => some ⟨.other, '\x7b' :: (blank ++ ['\x7d']), after⟩
        | _ => do
          let (members, rest) ← members? (value? depth) (rest.length + 1) rest
          return ⟨.other, ← braced? members, rest⟩
    | _ => do
      let rest ← plainScalar? s
      return ⟨.other, consumed s rest, rest⟩
where
  /-- A string and its own text. -/
  string (s : List Char) : Option (Reading Value) := do
    let (text, rest) ← string? s
    return ⟨.str (String.ofList text), consumed s rest, rest⟩

end Patchwork.Toml
