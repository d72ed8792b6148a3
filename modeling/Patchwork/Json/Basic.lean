import Patchwork.Text.Numeral
/-!
JSON values. A number is kept as it is written, and the members of an object in their order, also
when a name is repeated.
-/
namespace Patchwork

/-- A JSON value. -/
inductive Json where
  | null
  | bool (value : Bool)
  | num (text : String)
  | str (text : String)
  | arr (items : List Json)
  | obj (members : List (String × Json))
  /-- A string, or an object with a name, that escapes half of a surrogate pair: well-formed, but
  not the text of anything. It may stand where no value is read. -/
  | unreadable
deriving Repr, Inhabited

namespace Json

/-- A count as a number. -/
def nat (n : Nat) : Json := .num (toString n)

/-- A whole number. -/
def int (n : Int) : Json := .num (toString n)

/-- Texts as an array. -/
def strs (texts : List String) : Json := .arr (texts.map .str)

/-- A value, or null when there is none. -/
def orNull : Option Json → Json
  | some j => j
  | none => .null

/-! ### Reading values -/

/-- The text of a string. -/
def text? : Json → Option String
  | .str s => some s
  | _ => none

/-- The items of an array. -/
def items? : Json → Option (List Json)
  | .arr items => some items
  | _ => none

/-- The members of an object. -/
def members? : Json → Option (List (String × Json))
  | .obj members => some members
  | _ => none

/-- A whole number that is not negative, written as digits alone and below a limit. -/
def word? (limit : Nat) : Json → Option Nat
  | .num s => if s.toList.all Char.isDigit then (Text.digitsValue? 0 s.toList).filter (· < limit)
              else none
  | _ => none

/-- An array of which every item can be read. -/
def list? {α : Type} (read : Json → Option α) (j : Json) : Option (List α) :=
  j.items? >>= fun items => items.mapM read

/-- A value that may be null. -/
def nullable? {α : Type} (read : Json → Option α) : Json → Option (Option α)
  | .null => some none
  | j => (read j).map some

/-! ### Records -/

/-- The value under a name that must not be repeated. -/
def member? (name : String) (members : List (String × Json)) : Option (Option Json) :=
  match members.filter (fun m => m.1 == name) with
  | [] => some none
  | [m] => some (some m.2)
  | _ => none

/-- The fields of a record: an object, in which other names are allowed, or an array of the fields
in order, of which the last may be missing. -/
def fields? (names : List String) : Json → Option (List (Option Json))
  | .obj members => names.mapM fun name => member? name members
  | .arr items =>
    if items.length ≤ names.length then
      some (items.map some ++ List.replicate (names.length - items.length) none)
    else none
  | _ => none

/-- A field that must be there. -/
def required? {α : Type} (read : Json → Option α) : Option Json → Option α
  | some j => read j
  | none => none

/-- A field with a default. -/
def defaulted? {α : Type} (default : α) (read : Json → Option α) : Option Json → Option α
  | some j => read j
  | none => some default

/-- A field that may be missing or null. -/
def optional? {α : Type} (read : Json → Option α) : Option Json → Option (Option α) :=
  defaulted? none (nullable? read)

end Json
end Patchwork
