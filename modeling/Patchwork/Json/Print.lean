import Patchwork.Json.Basic
/-!
Writing JSON: on one line, or laid out with two blanks for each level.
-/
namespace Patchwork.Json

/-- A hexadecimal digit in lower case. -/
def hexDigit (n : Nat) : Char :=
  if n < 10 then Char.ofNat ('0'.toNat + n) else Char.ofNat ('a'.toNat + (n - 10))

/-- A character inside a string: quotes, backslashes and control characters are escaped. -/
def escapeChar (c : Char) : List Char :=
  if c = '"' then ['\\', '"']
  else if c = '\\' then ['\\', '\\']
  else if c = '\x08' then ['\\', 'b']
  else if c = '\x0c' then ['\\', 'f']
  else if c = '\n' then ['\\', 'n']
  else if c = '\r' then ['\\', 'r']
  else if c = '\t' then ['\\', 't']
  else if c.toNat < 0x20 then
    ['\\', 'u', '0', '0', hexDigit (c.toNat / 16), hexDigit (c.toNat % 16)]
  else [c]

/-- A string between quotes. -/
def quoted (s : String) : List Char := '"' :: (s.toList.flatMap escapeChar ++ ['"'])

/-- A line break and the blanks of a level. -/
def newline (level : Nat) : List Char := '\n' :: List.replicate (2 * level) ' '

/-- How values are laid out: what stands before an item or an end at some level, and what follows
the name of a member. -/
structure Layout where
  newline : Nat → List Char
  afterName : List Char

/-- Everything on one line. -/
def Layout.oneLine : Layout := ⟨fun _ => [], [':']⟩

/-- Each item on a line of its own. -/
def Layout.pretty : Layout := ⟨Json.newline, [':', ' ']⟩

mutual

/-- The characters of a value at some level. -/
def chars (l : Layout) (level : Nat) : Json → List Char
  | .null => "null".toList
  | .bool true => "true".toList
  | .bool false => "false".toList
  | .num text => text.toList
  | .str text => quoted text
  | .arr [] => ['[', ']']
  | .arr (x :: xs) =>
    '[' :: (l.newline (level + 1) ++ chars l (level + 1) x ++ itemChars l (level + 1) xs ++
      l.newline level ++ [']'])
  | .obj [] => ['\x7b', '\x7d']
  | .obj (m :: ms) =>
    '\x7b' :: (l.newline (level + 1) ++ quoted m.1 ++ l.afterName ++ chars l (level + 1) m.2 ++
      memberChars l (level + 1) ms ++ l.newline level ++ ['\x7d'])
  | .unreadable => "null".toList

/-- The items after the first. -/
def itemChars (l : Layout) (level : Nat) : List Json → List Char
  | [] => []
  | x :: xs => ',' :: (l.newline level ++ chars l level x ++ itemChars l level xs)

/-- The members after the first. -/
def memberChars (l : Layout) (level : Nat) : List (String × Json) → List Char
  | [] => []
  | m :: ms =>
    ',' :: (l.newline level ++ quoted m.1 ++ l.afterName ++ chars l level m.2 ++
      memberChars l level ms)

end

/-- The value on one line. -/
def compact (j : Json) : String := String.ofList (chars .oneLine 0 j)

/-- The value laid out on several lines. -/
def pretty (j : Json) : String := String.ofList (chars .pretty 0 j)

end Patchwork.Json
