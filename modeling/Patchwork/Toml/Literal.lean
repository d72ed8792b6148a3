import Patchwork.Toml.Table
/-!
Writing strings and arrays. A string is written in the plainest of four forms that can hold it
without escapes, and with escapes when none can.
-/
namespace Patchwork.Toml

/-- A character that only an escape can stand for: a control character other than a tab or a
newline. -/
def needsEscape (c : Char) : Bool := !(isTextual c || c == '\n')

/-- The length of the longest run of one character; `run` is the length of the run that ends here
and `longest` that of the longest before. -/
def longestRun (c : Char) (run longest : Nat) : List Char → Nat
  | [] => max run longest
  | d :: rest =>
    if d = c then longestRun c (run + 1) longest rest
    else longestRun c 0 (max run longest) rest

/-- The four forms of a string. -/
inductive StringForm where
  | basic
  | literal
  | longBasic
  | longLiteral
deriving DecidableEq, Repr

namespace StringForm

/-- The quotes around a string. -/
def quotes : StringForm → List Char
  | basic => ['"']
  | literal => ['\'']
  | longBasic => ['"', '"', '"']
  | longLiteral => ['\'', '\'', '\'']

/-- Whether a string may go over several lines. -/
def isLong : StringForm → Bool
  | longBasic | longLiteral => true
  | basic | literal => false

/-- Whether the form can hold a text as it is. -/
def holds (form : StringForm) (s : List Char) : Bool :=
  match form with
  | basic => s.all fun c => !needsEscape c && c != '\\' && c != '"' && c != '\n'
  | literal => s.all fun c => !needsEscape c && c != '\'' && c != '\n'
  | longBasic => s.all (fun c => !needsEscape c && c != '\\') && longestRun '"' 0 0 s ≤ 2
  | longLiteral => s.all (fun c => !needsEscape c) && longestRun '\'' 0 0 s ≤ 2

/-- The form in which a text is written. -/
def of (s : List Char) : StringForm :=
  if basic.holds s then basic
  else if literal.holds s then literal
  else if longBasic.holds s then longBasic
  else if longLiteral.holds s then longLiteral
  else if s.contains '\n' then longBasic
  else basic

end StringForm

/-- An upper-case hexadecimal digit. -/
def upperHexDigit (n : Nat) : Char :=
  if n < 10 then Char.ofNat ('0'.toNat + n) else Char.ofNat ('A'.toNat + (n - 10))

/-- The escape that stands for a character. -/
def escapeOf (c : Char) : List Char :=
  if c = '\x08' then ['\\', 'b']
  else if c = '\t' then ['\\', 't']
  else if c = '\n' then ['\\', 'n']
  else if c = '\x0c' then ['\\', 'f']
  else if c = '\r' then ['\\', 'r']
  else if c = '\\' then ['\\', '\\']
  else if c = '"' then ['\\', '"']
  else ['\\', 'u', '0', '0', upperHexDigit (c.toNat / 16), upperHexDigit (c.toNat % 16)]

/-- The body of a string with escapes. Up to `free` quotes in a row stand for themselves, of which
`run` were just written; in a long string newlines do too. -/
def escapedBody (long : Bool) (free run : Nat) : List Char → List Char
  | [] => []
  | c :: rest =>
    if c = '"' then
      if run < free then c :: escapedBody long free (run + 1) rest
      else escapeOf c ++ escapedBody long free 0 rest
    else if (c = '\n' ∧ long = true) ∨
        ¬ (needsEscape c = true ∨ c = '\t' ∨ c = '\n' ∨ c = '\\') then
      c :: escapedBody long free 0 rest
    else escapeOf c ++ escapedBody long free 0 rest

/-- The body of a string in some form. -/
def stringBody (form : StringForm) (s : List Char) : List Char :=
  match form with
  | .basic => escapedBody false 0 0 s
  | .longBasic => escapedBody true 2 0 s
  | .literal | .longLiteral => s

/-- A string as it is written. In a long form a text with a newline starts on a line of its own. -/
def stringLiteral (s : String) : String :=
  let cs := s.toList
  let form := StringForm.of cs
  let opening := if form.isLong && cs.contains '\n' then ['\n'] else []
  String.ofList (form.quotes ++ opening ++ stringBody form cs ++ form.quotes)

/-- An array of strings on one line. -/
def arrayLiteral (texts : List String) : String :=
  "[" ++ ", ".intercalate (texts.map stringLiteral) ++ "]"

/-- A string on the right of `=`. -/
def Entry.ofText (text : String) : Entry := ⟨.str text, stringLiteral text, ⟨" ", ""⟩⟩

/-- An array of strings on the right of `=`. -/
def Entry.ofTexts (texts : List String) : Entry :=
  ⟨.arr (texts.map .str), arrayLiteral texts, ⟨" ", ""⟩⟩

/-- A member for an entry, under a name that needs no quotes. -/
def assigned (name : String) (entry : Entry) : KeyPart × Item :=
  (⟨name, name, ⟨"", ""⟩, ⟨"", " "⟩⟩, .value entry)

/-- A member that is shown by headers, under a name that needs no quotes. -/
def headed (name : String) (item : Item) : KeyPart × Item :=
  (⟨name, name, ⟨"", ""⟩, ⟨"", ""⟩⟩, item)

/-- A table with its header after a blank line. -/
def Table.ofMembers (members : List (KeyPart × Item)) : Table :=
  .mk (.header 0 ⟨"\n", ""⟩) members

end Patchwork.Toml
