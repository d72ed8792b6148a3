import Patchwork.Text.Blank
/-!
Lines of a text. A line keeps the newline that ends it, so the lines of a text put together again
are the text (`join_lines`), and only the last line may lack its newline.
-/
namespace Patchwork.Text

/-- Cuts a list of characters after each newline. -/
def cutLines : List Char → List (List Char)
  | [] => []
  | c :: rest =>
    if c = '\n' then [c] :: cutLines rest
    else
      match cutLines rest with
      | [] => [[c]]
      | line :: lines => (c :: line) :: lines

/-- The lines of a text, each with the newline that ends it. -/
def lines (s : String) : List String := (cutLines s.toList).map String.ofList

/-- Texts put one after another. -/
def join (parts : List String) : String := String.ofList (parts.flatMap String.toList)

/-- A line without its newline, and without the carriage return in front of it. -/
def bareLine (line : String) : String :=
  match before? "\n" line with
  | none => line
  | some body => (before? "\r" body).getD body

/-- The lines of a text without the characters that end them. -/
def bareLines (s : String) : List String := (lines s).map bareLine

/-- Whether a text ends in a newline. -/
def endsLine (s : String) : Bool := s.toList.getLast? == some '\n'

theorem flatten_cutLines (s : List Char) : (cutLines s).flatten = s := by
  induction s with
  | nil => rfl
  | cons c rest ih =>
    unfold cutLines
    split
    · simp [ih]
    · split
      · next h => rw [h] at ih; simp at ih; simp [← ih]
      · next h => rw [h] at ih; simp at ih; simp [ih]

theorem join_lines (s : String) : join (lines s) = s := by
  simp [join, lines, List.flatMap_map, flatten_cutLines]

end Patchwork.Text
