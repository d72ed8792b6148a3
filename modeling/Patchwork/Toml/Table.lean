import Patchwork.Toml.Value
/-!
Tables of a TOML text. A table keeps its members in the order in which their names came up first,
under the key that brought each name up, and knows how it came to be itself: a table may be defined
once, by its header or piece by piece by dotted keys, and headers further down and dotted keys make
the tables that they lead through.
-/
namespace Patchwork.Toml

/-- How a table came to be. -/
inductive Origin where
  /-- The text as a whole. -/
  | whole
  /-- Its own header: its place among the headers, and what stands around it. -/
  | header (place : Nat) (around : Margin)
  /-- A header further down. -/
  | implied
  /-- A dotted key. -/
  | dotted
deriving DecidableEq, Repr

mutual

/-- What a name in a table stands for. -/
inductive Item where
  | value (entry : Entry)
  | table (t : Table)
  /-- An array of tables. -/
  | tables (all : List Table)

/-- A table: how it came to be, and its members in order. -/
inductive Table where
  | mk (origin : Origin) (members : List (KeyPart × Item))

end

namespace Table

/-- How the table came to be. -/
def origin : Table → Origin
  | mk origin _ => origin

/-- The names of the table, with what they stand for. -/
def members : Table → List (KeyPart × Item)
  | mk _ members => members

/-- What a name stands for. -/
def find? (t : Table) (name : String) : Option Item :=
  (t.members.find? fun m => m.1.name == name).map (·.2)

/-- Replaces what the name of a key stands for, or adds it at the end. A name that is there already
keeps the key it came up with. -/
def put (t : Table) (key : KeyPart) (item : Item) : Table :=
  .mk t.origin
    (if t.members.any fun m => m.1.name == key.name then
      t.members.map fun m => if m.1.name = key.name then (m.1, item) else m
    else t.members ++ [(key, item)])

/-- Takes a name out. -/
def erase (t : Table) (name : String) : Table :=
  .mk t.origin (t.members.filter fun m => m.1.name ≠ name)

/-- Whether the table has a header, and so cannot be extended by dotted keys. -/
def isExplicit (t : Table) : Bool :=
  match t.origin with
  | .whole | .header .. => true
  | .implied | .dotted => false

/-- Changes the table at the end of a path, making the tables that are missing on the way. A path
through an array leads to its last table. A dotted path must not lead through a table that has its
own header. -/
def alter (made : Origin) (act : Table → Option Table) : List KeyPart → Table → Option Table
  | [], t => act t
  | key :: path, t =>
    match t.find? key.name with
    | none => do
      let inner ← alter made act path (.mk made [])
      return t.put key (.table inner)
    | some (.value _) => none
    | some (.table inner) =>
      if made = .dotted ∧ inner.isExplicit then none
      else do
        let inner ← alter made act path inner
        return t.put key (.table inner)
    | some (.tables all) =>
      match all.getLast? with
      | none => none
      | some last => do
        let last ← alter made act path last
        return t.put key (.tables (all.dropLast ++ [last]))

/-- Adds an entry under a key. A dotted key must end in a table that dotted keys made, and its name
must be new there. -/
def assign (t : Table) (key : Key) (entry : Entry) : Option Table :=
  t.alter .dotted
    (fun inner =>
      if (key.path = [] ∨ inner.origin = .dotted) ∧ (inner.find? key.last.name).isNone then
        some (inner.put key.last (.value entry))
      else none)
    key.path

end Table

mutual

/-- The entries that a member comes to, below a path: itself, or the entries of a table that dotted
keys made. -/
def Item.entries (path : List KeyPart) (key : KeyPart) : Item → List (Key × Entry)
  | .value entry => [(⟨path, key⟩, entry)]
  | .table (.mk .dotted members) => memberEntries (path ++ [key]) members
  | .table (.mk _ _) => []
  | .tables _ => []

/-- The entries that members come to, below a path. -/
def memberEntries (path : List KeyPart) : List (KeyPart × Item) → List (Key × Entry)
  | [] => []
  | (key, item) :: rest => item.entries path key ++ memberEntries path rest

end

/-- The entries that are written below the header of a table, with their keys, in order. -/
def Table.entries (t : Table) : List (Key × Entry) := memberEntries [] t.members

end Patchwork.Toml
