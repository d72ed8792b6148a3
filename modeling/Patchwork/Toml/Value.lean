import Patchwork.Toml.Key
/-!
Values of a TOML text. Strings and arrays can be looked at; of any other value, tables between
braces among them, only its text is kept.
-/
namespace Patchwork.Toml

/-- A value. -/
inductive Value where
  | str (text : String)
  | arr (items : List Value)
  | other
deriving Repr, Inhabited

namespace Value

/-- The text of a string. -/
def text? : Value → Option String
  | str t => some t
  | _ => none

/-- The strings among the items of an array; none for any other value. -/
def texts : Value → List String
  | arr items => items.filterMap text?
  | _ => []

end Value

/-- A value as it is written behind its key. -/
structure Entry where
  value : Value
  text : String
  around : Margin
deriving Repr, Inhabited

/-- An entry with the key in front of it. -/
def Entry.render (key : Key) (e : Entry) : String :=
  key.render ++ "=" ++ e.around.before ++ e.text ++ e.around.after

end Patchwork.Toml
