import Patchwork.Toml.Statement
import Patchwork.Toml.Literal
import Patchwork.Toml.Section
/-!
TOML documents that keep their own text. A document is its tables, with every key, value, blank and
comment as it was written, so a value can be replaced while everything around it stays
(`Document.setText`). Written again (`Document.render`) a text is the same but for carriage returns,
the spelling of a name that comes up again, and the places of members that belong to a table named
before.

Statements build the table: a header opens a table for the assignments up to the next header. A table
that headers further down had brought about keeps its members when its own header comes, and moves
behind the tables beside it.
-/
namespace Patchwork.Toml

/-- Defines a table whose header was read, with its assignments. -/
def Table.define (root : Table) (key : Key) (origin : Origin) (body : Table → Option Table) :
    Option Table :=
  root.alter .implied
    (fun outer => do
      let start ← match outer.find? key.last.name with
        | none => some []
        | some (.table t) => if t.origin = .implied then some t.members else none
        | some _ => none
      let t ← body (.mk origin start)
      return (outer.erase key.last.name).put key.last (.table t))
    key.path

/-- Adds a table whose header was read to an array of tables, with its assignments. -/
def Table.append (root : Table) (key : Key) (origin : Origin) (body : Table → Option Table) :
    Option Table :=
  root.alter .implied
    (fun outer => do
      let before ← match outer.find? key.last.name with
        | none => some []
        | some (.tables all) => some all
        | some _ => none
      let t ← body (.mk origin [])
      return outer.put key.last (.tables (before ++ [t])))
    key.path

/-- The assignments up to the next header, as a change of a table. -/
def bodyOf : List Statement → Table → Option Table
  | .assign key entry :: rest, t => t.assign key entry >>= bodyOf rest
  | _, t => some t

/-- What each header with its assignments does to the table of the text, in order; `place` headers
came before. -/
def changes (place : Nat) : List Statement → List (Table → Option Table)
  | [] => []
  | .assign .. :: rest => changes place rest
  | .header key around :: rest =>
    (fun root => root.define key (.header (place + 1) around) (bodyOf rest)) ::
      changes (place + 1) rest
  | .arrayHeader key around :: rest =>
    (fun root => root.append key (.header (place + 1) around) (bodyOf rest)) ::
      changes (place + 1) rest

/-- The table of the text as a whole, if the statements fit together. -/
def Table.ofStatements? (statements : List Statement) : Option Table := do
  let root ← bodyOf statements (.mk .whole [])
  (changes 0 statements).foldlM (fun root change => change root) root

/-- The table of a text, and the blanks and comments after its last statement. -/
structure Document where
  root : Table
  tail : String

namespace Document

/-- The text of a document. -/
def render (d : Document) : String := d.root.render ++ d.tail

/-- Reads a text, if it is a TOML document. A byte order mark in front of it is passed over. -/
def parse? (text : String) : Option Document := do
  let s := match text.toList with
    | '\ufeff' :: rest => rest
    | s => s
  let (statements, tail) ← statements? (s.length + 1) s
  return ⟨← Table.ofStatements? statements, tail⟩

/-- An item with a text in the place of its value. -/
def replaceValue (text : String) : Item → Item
  | .value e => .value ⟨.str text, stringLiteral text, e.around⟩
  | item => item

/-- Replaces the value of a name in the root table by a text. -/
def setText (d : Document) (name text : String) : Document :=
  let members := d.root.members.map fun m =>
    if m.1.name = name then (m.1, replaceValue text m.2) else m
  { d with root := .mk d.root.origin members }

end Document

namespace Table

/-- The text that a name stands for. -/
def text? (t : Table) (name : String) : Option String :=
  match t.find? name with
  | some (.value e) => e.value.text?
  | _ => none

/-- The texts in the array that a name stands for; none when it is no array. -/
def texts (t : Table) (name : String) : List String :=
  match t.find? name with
  | some (.value e) => e.value.texts
  | _ => []

/-- The table that a name stands for. A table between braces is a value and does not count. -/
def table? (t : Table) (name : String) : Option Table :=
  match t.find? name with
  | some (.table inner) => some inner
  | _ => none

/-- The tables of the array of tables that a name stands for. -/
def tables (t : Table) (name : String) : List Table :=
  match t.find? name with
  | some (.tables all) => all
  | _ => []

end Table
end Patchwork.Toml
