import Patchwork.Toml.Table
/-!
Writing tables. A text is its entries and then a section for every table that has a header: the
header and the entries below it. Sections stand in the order of their headers; a table that was
given entries only by dotted keys from above gets a header then, right behind the table before it.
-/
namespace Patchwork.Toml

/-- A table at its place in the text; the text as a whole has no key. -/
structure Section where
  key : Option Key
  isArrayItem : Bool
  table : Table

namespace Section

/-- The place that the header gives. -/
def place? (s : Section) : Option Nat :=
  match s.table.origin with
  | .header place _ => some place
  | _ => none

/-- A header line. -/
def headerLine (key : Key) (isArrayItem : Bool) (around : Margin) : String :=
  let (opening, closing) := if isArrayItem then ("[[", "]]") else ("[", "]")
  around.before ++ opening ++ key.render ++ closing ++ around.after ++ "\n"

/-- The header of a section. A table without a header of its own is given one, after a blank line,
if there are entries to write below it. -/
def header (s : Section) : String :=
  match s.key, s.table.origin with
  | some key, .header _ around => headerLine key s.isArrayItem around
  | some key, .implied =>
    if s.table.entries.isEmpty then "" else headerLine key s.isArrayItem ⟨"\n", ""⟩
  | _, _ => ""

/-- The text of a section. -/
def render (s : Section) : String :=
  s.header ++ String.join (s.table.entries.map fun m => m.2.render m.1 ++ "\n")

/-- Gives every section a place; one without a header takes that of the section before it. -/
def placed (last : Nat) : List Section → List (Nat × Section)
  | [] => []
  | s :: rest =>
    let place := s.place?.getD last
    (place, s) :: placed place rest

end Section

mutual

/-- The section of a table, and then those of the tables in it. A table that dotted keys made is no
section of its own. -/
def Table.sections (path : List KeyPart) (key : KeyPart) (isArrayItem : Bool) :
    Table → List Section
  | .mk origin members =>
    (if origin = .dotted then [] else [⟨some ⟨path, key⟩, isArrayItem, .mk origin members⟩])
      ++ memberSections (path ++ [key]) members

/-- The sections of the members of a table. -/
def memberSections (path : List KeyPart) : List (KeyPart × Item) → List Section
  | [] => []
  | (key, item) :: rest => item.sections path key ++ memberSections path rest

/-- The sections of one member. -/
def Item.sections (path : List KeyPart) (key : KeyPart) : Item → List Section
  | .value _ => []
  | .table t => t.sections path key false
  | .tables all => tableSections path key all

/-- The sections of an array of tables. -/
def tableSections (path : List KeyPart) (key : KeyPart) : List Table → List Section
  | [] => []
  | t :: rest => t.sections path key true ++ tableSections path key rest

end

/-- The text of a whole table. -/
def Table.render (root : Table) : String :=
  let sections := ⟨none, false, root⟩ :: memberSections [] root.members
  let inOrder := (Section.placed 0 sections).mergeSort fun a b => a.1 ≤ b.1
  String.join (inOrder.map fun s => s.2.render)

end Patchwork.Toml
