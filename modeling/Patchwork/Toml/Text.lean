/-!
The small pieces of a TOML text: blanks, comments and strings. Each reader takes the remaining
characters and gives what it read with the characters after it.
-/
namespace Patchwork.Toml

/-- A blank inside a line. -/
def isSpace (c : Char) : Bool := c == ' ' || c == '\t'

/-- A printable ASCII character or a character beyond ASCII. -/
def isPlain (c : Char) : Bool := (0x20 ≤ c.val && c.val ≤ 0x7e) || 0x80 ≤ c.val

/-- A character that comments and one-line strings may hold. -/
def isTextual (c : Char) : Bool := c == '\t' || isPlain c

/-- The characters that were read. -/
def consumed (s rest : List Char) : List Char := s.take (s.length - rest.length)

/-- The blanks in front, and the rest. -/
def spaces (s : List Char) : List Char × List Char := (s.takeWhile isSpace, s.dropWhile isSpace)

/-- The rest after a line end. -/
def newline? : List Char → Option (List Char)
  | '\n' :: rest => some rest
  | '\r' :: '\n' :: rest => some rest
  | _ => none

/-- Blanks, line ends and comments, as they are written back, and the rest. A line end is written as
a newline. -/
def gap (inComment : Bool) : List Char → List Char × List Char
  | [] => ([], [])
  | '\n' :: rest =>
    let (w, r) := gap false rest
    ('\n' :: w, r)
  | '\r' :: '\n' :: rest =>
    let (w, r) := gap false rest
    ('\n' :: w, r)
  | c :: rest =>
    if (if inComment then isTextual c else isSpace c || c == '#') then
      let (w, r) := gap (inComment || c == '#') rest
      (c :: w, r)
    else ([], c :: rest)

/-- What may follow a value or a header on its line: blanks and a comment, and then the end of the
line or of the text. -/
def lineEnd? (s : List Char) : Option (List Char × List Char) :=
  let (blank, rest) := spaces s
  let (comment, rest) := match rest with
    | '#' :: body => ('#' :: body.takeWhile isTextual, body.dropWhile isTextual)
    | _ => ([], rest)
  match rest with
  | [] => some (blank ++ comment, [])
  | _ => (newline? rest).map fun rest => (blank ++ comment, rest)

/-! ### Strings -/

/-- The value of a hexadecimal digit. -/
def hexValue? (c : Char) : Option Nat :=
  if '0' ≤ c && c ≤ '9' then some (c.toNat - '0'.toNat)
  else if 'a' ≤ c && c ≤ 'f' then some (c.toNat - 'a'.toNat + 10)
  else if 'A' ≤ c && c ≤ 'F' then some (c.toNat - 'A'.toNat + 10)
  else none

/-- The character with a number given in hexadecimal. -/
def scalar? (digits : List Char) : Option Char := do
  let values ← digits.mapM hexValue?
  let n := values.foldl (fun n d => 16 * n + d) 0
  if n.isValidChar then some (Char.ofNat n) else none

/-- The character that a one-letter escape stands for. -/
def escape? : Char → Option Char
  | 'b' => some '\x08'
  | 't' => some '\t'
  | 'n' => some '\n'
  | 'f' => some '\x0c'
  | 'r' => some '\r'
  | '"' => some '"'
  | '\\' => some '\\'
  | _ => none

/-- A string read so far, put in front of what follows. -/
def consTo (c : Char) : Option (List Char × List Char) → Option (List Char × List Char) :=
  Option.map fun (text, rest) => (c :: text, rest)

/-- The text of a one-line string after its opening quote, up to the closing one. -/
def basicBody : List Char → Option (List Char × List Char)
  | '"' :: rest => some ([], rest)
  | '\\' :: 'u' :: a :: b :: c :: d :: rest =>
    (scalar? [a, b, c, d]).bind fun x => consTo x (basicBody rest)
  | '\\' :: 'U' :: a :: b :: c :: d :: e :: f :: g :: h :: rest =>
    (scalar? [a, b, c, d, e, f, g, h]).bind fun x => consTo x (basicBody rest)
  | '\\' :: c :: rest => (escape? c).bind fun x => consTo x (basicBody rest)
  | c :: rest => if isTextual c && c != '\\' then consTo c (basicBody rest) else none
  | [] => none

/-- The text of a one-line literal string after its opening quote. -/
def literalBody : List Char → Option (List Char × List Char)
  | '\'' :: rest => some ([], rest)
  | c :: rest => if isTextual c then consTo c (literalBody rest) else none
  | [] => none

/-- Whether blanks and then a line end follow, so that a backslash in front of them joins lines. -/
def joinsLines (s : List Char) : Bool := (newline? (s.dropWhile isSpace)).isSome

/-- The text of a string over several lines after its opening quotes. Up to two quotes may stand in
front of the closing ones. While `joining`, blanks and line ends are passed over. -/
def longBasicBody (joining : Bool) : List Char → Option (List Char × List Char)
  | '"' :: '"' :: '"' :: '"' :: '"' :: rest => some (['"', '"'], rest)
  | '"' :: '"' :: '"' :: '"' :: rest => some (['"'], rest)
  | '"' :: '"' :: '"' :: rest => some ([], rest)
  | '\\' :: 'u' :: a :: b :: c :: d :: rest =>
    (scalar? [a, b, c, d]).bind fun x => consTo x (longBasicBody false rest)
  | '\\' :: 'U' :: a :: b :: c :: d :: e :: f :: g :: h :: rest =>
    (scalar? [a, b, c, d, e, f, g, h]).bind fun x => consTo x (longBasicBody false rest)
  | '\\' :: c :: rest =>
    if joinsLines (c :: rest) then longBasicBody true (c :: rest)
    else (escape? c).bind fun x => consTo x (longBasicBody false rest)
  | '\r' :: '\n' :: rest =>
    if joining then longBasicBody true rest else consTo '\n' (longBasicBody false rest)
  | '\n' :: rest =>
    if joining then longBasicBody true rest else consTo '\n' (longBasicBody false rest)
  | c :: rest =>
    if joining && isSpace c then longBasicBody true rest
    else if isTextual c && c != '\\' then consTo c (longBasicBody false rest)
    else none
  | [] => none

/-- The text of a literal string over several lines after its opening quotes. -/
def longLiteralBody : List Char → Option (List Char × List Char)
  | '\'' :: '\'' :: '\'' :: '\'' :: '\'' :: rest => some (['\'', '\''], rest)
  | '\'' :: '\'' :: '\'' :: '\'' :: rest => some (['\''], rest)
  | '\'' :: '\'' :: '\'' :: rest => some ([], rest)
  | '\r' :: '\n' :: rest => consTo '\n' (longLiteralBody rest)
  | '\n' :: rest => consTo '\n' (longLiteralBody rest)
  | c :: rest => if isTextual c then consTo c (longLiteralBody rest) else none
  | [] => none

/-- A line end right after the opening quotes does not belong to the text. -/
def skipNewline (s : List Char) : List Char := (newline? s).getD s

/-- The text of a string of any of the four forms. -/
def string? : List Char → Option (List Char × List Char)
  | '"' :: '"' :: '"' :: rest => longBasicBody false (skipNewline rest)
  | '"' :: rest => basicBody rest
  | '\'' :: '\'' :: '\'' :: rest => longLiteralBody (skipNewline rest)
  | '\'' :: rest => literalBody rest
  | _ => none

end Patchwork.Toml
