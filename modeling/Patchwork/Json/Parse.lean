import Patchwork.Json.Token
import Patchwork.Failure
/-!
Reading a JSON text. The tokens are taken one by one on top of the arrays and objects that are still
open, so the depth of a text is not limited. A record is read from the value of a text.
-/
namespace Patchwork.Json

/-- An array or object that is still open, with what it holds so far, the latest first. A member
whose name is not the text of anything has no name. -/
inductive Frame where
  | array (done : List Json)
  | object (done : List (Option String × Json)) (name : Option String)

/-- What may come next. -/
inductive Expect where
  | value
  | valueOrClose
  | name
  | nameOrClose
  | colon
  | commaOrClose
  | nothing
deriving DecidableEq

/-- The open arrays and objects, innermost first, what may come next, and the value when all is
closed. -/
structure Reader where
  opened : List Frame
  expect : Expect
  result : Json := .null

/-- An object with the given members; without a name that can be read it cannot be read itself. -/
def objectOf (members : List (Option String × Json)) : Json :=
  match members.mapM fun m => m.1.map fun name => (name, m.2) with
  | some members => .obj members
  | none => .unreadable

/-- Takes a complete value. -/
def Reader.give (r : Reader) (j : Json) : Reader :=
  match r.opened with
  | [] => ⟨[], .nothing, j⟩
  | .array done :: rest => ⟨.array (j :: done) :: rest, .commaOrClose, .null⟩
  | .object done name :: rest => ⟨.object ((name, j) :: done) none :: rest, .commaOrClose, .null⟩

/-- A token where a value is expected. -/
def Reader.value? (r : Reader) : Token → Option Reader
  | .openArray => some ⟨.array [] :: r.opened, .valueOrClose, .null⟩
  | .openObject => some ⟨.object [] none :: r.opened, .nameOrClose, .null⟩
  | .str (some text) => some (r.give (.str text))
  | .str none => some (r.give .unreadable)
  | .num text => some (r.give (.num text))
  | .word j => some (r.give j)
  | _ => none

/-- Closes the innermost array. -/
def Reader.closeArray? (r : Reader) : Option Reader :=
  match r.opened with
  | .array done :: rest => some ({ r with opened := rest }.give (.arr done.reverse))
  | _ => none

/-- Closes the innermost object. -/
def Reader.closeObject? (r : Reader) : Option Reader :=
  match r.opened with
  | .object done _ :: rest => some ({ r with opened := rest }.give (objectOf done.reverse))
  | _ => none

/-- A string where a name is expected. -/
def Reader.name? (r : Reader) : Token → Option Reader
  | .str text =>
    match r.opened with
    | .object done _ :: rest => some ⟨.object done text :: rest, .colon, .null⟩
    | _ => none
  | _ => none

/-- Takes one token. -/
def Reader.next? (r : Reader) (t : Token) : Option Reader :=
  match r.expect, t with
  | .value, t => r.value? t
  | .valueOrClose, .closeArray => r.closeArray?
  | .valueOrClose, t => r.value? t
  | .name, t => r.name? t
  | .nameOrClose, .closeObject => r.closeObject?
  | .nameOrClose, t => r.name? t
  | .colon, .colon => some { r with expect := .value }
  | .commaOrClose, .closeArray => r.closeArray?
  | .commaOrClose, .closeObject => r.closeObject?
  | .commaOrClose, .comma =>
    match r.opened with
    | .array _ :: _ => some { r with expect := .value }
    | .object .. :: _ => some { r with expect := .name }
    | [] => none
  | _, _ => none

/-- The value of a text. -/
def parse? (s : String) : Option Json := do
  let tokens ← tokens? s
  let r ← tokens.foldlM Reader.next? ⟨[], .value, .null⟩
  if r.expect = .nothing then some r.result else none

/-- Reads a text as JSON and then as a value of some kind; `document` names it in a failure. -/
def decode {α : Type} (document : String) (read : Json → Option α) (text : String) : Outcome α :=
  match parse? text with
  | none => .error (.during (.parsing document) (.fault (.malformed "not a JSON text")))
  | some j =>
    match read j with
    | none => .error (.during (.parsing document) (.fault (.malformed "not of the expected form")))
    | some a => .ok a

end Patchwork.Json
