import Patchwork.Patch.Basic
import Patchwork.Failure
/-!
Reading a patch. A text with a line that starts with `@@` is read as names and hunks; any other text
must name the file on both sides and stands for the addition or removal of an empty file.
-/
namespace Patchwork

/-- What reading a patch's text gives. -/
abbrev PatchReading (α : Type) := Except PatchTextError α

namespace PatchReading

/-! ### Names -/

/-- The characters that a name may only hold when it is quoted. -/
def needsQuotes (c : Char) : Bool :=
  c == '\n' || c == '\t' || c == '\x00' || c == '\r' || c == '"' || c == '\\'

/-- The character that an escape stands for. -/
def escaped? : Char → Option Char
  | 'n' => some '\n'
  | 't' => some '\t'
  | '0' => some '\x00'
  | 'r' => some '\r'
  | '"' => some '"'
  | '\\' => some '\\'
  | _ => none

/-- The name between quotes. -/
def unquote : List Char → PatchReading (List Char)
  | [] => .ok []
  | ['\\'] => .error .loneEscape
  | '\\' :: c :: rest =>
    match escaped? c with
    | none => .error .unknownEscape
    | some d => do return d :: (← unquote rest)
  | c :: rest =>
    if needsQuotes c then .error .unescapedCharacter else do return c :: (← unquote rest)

/-- What stands between two quotes, if the name is quoted. -/
def quoted? (name : List Char) : Option (List Char) :=
  match name with
  | '"' :: rest => if rest.getLast? = some '"' then some rest.dropLast else none
  | _ => none

/-- The name in the rest of a header line: it ends at the first tab, else at the newline. -/
def name (rest : List Char) : PatchReading String :=
  let ended? :=
    match Text.cutOnce? ['\t'] rest with
    | some (before, _) => some before
    | none => (Text.cutOnce? ['\n'] rest).map Prod.fst
  match ended? with
  | none => .error .unterminatedName
  | some name =>
    match quoted? name with
    | some inner => (unquote inner).map String.ofList
    | none =>
      if name.any needsQuotes then .error .forbiddenNameCharacter else .ok (String.ofList name)

/-! ### Names and the lines after them -/

/-- What the lines before the hunks say. -/
structure Names where
  old : Option String := none
  new : Option String := none

/-- The start of a line that names the old file. -/
def oldMark : List Char := "--- ".toList

/-- The start of a line that names the new file. -/
def newMark : List Char := "+++ ".toList

/-- The start of a hunk's header. -/
def hunkMark : List Char := "@@ ".toList

/-- Whether a line begins the part that is read. -/
def begins (line : List Char) : Bool :=
  (Text.dropStart? oldMark line).isSome || (Text.dropStart? newMark line).isSome ||
    (Text.dropStart? hunkMark line).isSome

/-- Reads the lines that name the files, each at most once, and leaves the rest. -/
def names (found : Names) : List (List Char) → PatchReading (Names × List (List Char))
  | [] => .ok (found, [])
  | line :: rest =>
    match Text.dropStart? oldMark line, Text.dropStart? newMark line with
    | some body, _ =>
      if found.old.isSome then .error .repeatedOldName
      else do names { found with old := some (← name body) } rest
    | none, some body =>
      if found.new.isSome then .error .repeatedNewName
      else do names { found with new := some (← name body) } rest
    | none, none => .ok (found, line :: rest)

/-! ### Hunks -/

/-- A header range: `start,length`, or `start` alone for one line. -/
def range (s : List Char) : PatchReading LineRange :=
  let parts : List Char × List Char := (Text.cutOnce? [','] s).getD (s, ['1'])
  match Text.word? (String.ofList parts.1), Text.word? (String.ofList parts.2) with
  | some start, some length => .ok ⟨start, length⟩
  | _, _ => .error .malformedRange

/-- The two ranges of a hunk's header. -/
def ranges (line : List Char) : PatchReading (LineRange × LineRange) :=
  match Text.dropStart? hunkMark line with
  | none => .error .malformedHunkHeader
  | some body =>
    match Text.cutOnce? " @@".toList body with
    | none => .error .unterminatedHunkHeader
    | some (both, _) =>
      match Text.cutOnce? [' '] both with
      | none => .error .malformedHunkHeader
      | some (first, second) =>
        match first with
        | '-' :: first => do
          let old ← range first
          match second with
          | '+' :: second => do return (old, ← range second)
          | _ => throw .malformedHunkHeader
        | _ => .error .malformedHunkHeader

/-- On which sides a line without a newline was seen, after which nothing may follow. -/
structure Ended where
  context : Bool := false
  delete : Bool := false
  insert : Bool := false

/-- A line without the newline at its end. -/
def withoutNewline (text : String) : PatchReading String :=
  match Text.before? "\n" text with
  | some rest => .ok rest
  | none => .error .noNewlineToDrop

/-- The same line without its newline, and the side that has now ended. -/
def endLine (ended : Ended) : PatchLine → PatchReading (Ended × PatchLine)
  | .context t => do return ({ ended with context := true }, .context (← withoutNewline t))
  | .delete t => do return ({ ended with delete := true }, .delete (← withoutNewline t))
  | .insert t => do return ({ ended with insert := true }, .insert (← withoutNewline t))

/-- Takes one line of a hunk's body. `done` are the lines before it, latest first. -/
def takeLine (ended : Ended) (done : List PatchLine) (line : List Char) :
    PatchReading (Ended × List PatchLine) :=
  if ended.context then .error .lineAfterEnd
  else
    match line with
    | ' ' :: rest => .ok (ended, .context (String.ofList rest) :: done)
    | '\n' :: _ => .ok (ended, .context (String.ofList line) :: done)
    | '-' :: rest =>
      if ended.delete then .error .deletionAfterEnd
      else .ok (ended, .delete (String.ofList rest) :: done)
    | '+' :: rest =>
      if ended.insert then .error .insertionAfterEnd
      else .ok (ended, .insert (String.ofList rest) :: done)
    | _ =>
      if (Text.dropStart? endMarker.toList line).isSome then
        match done with
        | [] => .error .strayEndMarker
        | last :: before => do
          let (ended, last) ← endLine ended last
          return (ended, last :: before)
      else .error .unknownLine

/-- The lines of a hunk's body. -/
def body (ended : Ended) (done : List PatchLine) : List (List Char) → PatchReading (List PatchLine)
  | [] => .ok done.reverse
  | line :: rest => do
    let (ended, done) ← takeLine ended done line
    body ended done rest

/-- Cuts lines in front of each that starts with `@`: what comes before the first such line, and
then each with what follows it. -/
def groups : List (List Char) → List (List Char) × List (List Char × List (List Char))
  | [] => ([], [])
  | line :: rest =>
    let (front, more) := groups rest
    if line.head? = some '@' then ([], (line, front) :: more) else (line :: front, more)

/-- A hunk from its header and body; the header must count the lines right. -/
def hunk (header : List Char) (lines : List (List Char)) : PatchReading Hunk := do
  let (old, new) ← ranges header
  let lines ← body {} [] lines
  if (lines.filterMap PatchLine.old?).length = old.length ∧
      (lines.filterMap PatchLine.new?).length = new.length then
    return ⟨old, new, lines⟩
  else throw .countMismatch

/-- Each hunk ends, on either side, before the next one starts. -/
def inOrder : List Hunk → Bool
  | h :: k :: rest =>
    h.old.stop ≤ k.old.start && h.new.stop ≤ k.new.start && inOrder (k :: rest)
  | _ => true

/-- All hunks of the remaining lines. -/
def hunks (lines : List (List Char)) : PatchReading (List Hunk) :=
  match lines with
  | [] => .ok []
  | first :: rest => do
    let (front, more) := groups rest
    let found ← ((first, front) :: more).mapM fun (header, lines) => hunk header lines
    if inOrder found then return found else throw .hunksOutOfOrder

/-- The names and hunks of a text. What comes before them is skipped. -/
def text (s : String) : PatchReading (Names × List Hunk) := do
  let lines := (Text.cutLines s.toList).dropWhile fun line => !begins line
  let (found, rest) ← names {} lines
  return (found, ← hunks rest)

end PatchReading

namespace Patch

/-- What happens to a file with the given names before and after. -/
def kindOf (old new : Option String) : ChangeKind :=
  if old = some noFile then .add else if new = some noFile then .delete else .modify

/-- The name on the first line that starts with `mark`. -/
def headerName (path mark : String) (text : String) : Outcome String :=
  match (Text.bareLines text).findSome? (Text.after? mark) with
  | some rest => .ok (Text.trimEnd rest)
  | none => .error (.fault (.missingPatchHeader path (Text.trimEnd mark)))

/-- Reads a patch that has names alone. -/
def parseHeader (path text : String) : Outcome Patch := do
  let old ← headerName path "--- " text
  let new ← headerName path "+++ " text
  return ⟨path, kindOf (some old) (some new), []⟩

/-- Whether a text has hunks, well-formed or not. -/
def hasHunks (text : String) : Bool := (Text.bareLines text).any (Text.startsWith "@@")

/-- Reads the patch of the file at `path`. -/
def parse (path text : String) : Outcome Patch :=
  if hasHunks text then
    match PatchReading.text text with
    | .ok (names, hunks) => .ok ⟨path, kindOf names.old names.new, hunks⟩
    | .error e => .error (.during (.readingPatch path) (.fault (.patchText e)))
  else parseHeader path text

end Patch
end Patchwork
