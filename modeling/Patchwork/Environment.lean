import Patchwork.Disk.Path
/-!
The environment of a run: variables by name. Blanks around a value do not count, and a blank value
counts as none.
-/
namespace Patchwork

/-- Variables with their values. -/
structure Environment where
  values : List (String × String)
deriving DecidableEq, Repr

namespace Environment

/-- The value of a variable as it is. -/
def raw? (e : Environment) (name : String) : Option String := e.values.lookup name

/-- The value of a variable without the blanks around it, if anything is left. -/
def value? (e : Environment) (name : String) : Option String :=
  ((e.raw? name).map Text.trim).filter (· ≠ "")

/-- The home directory. -/
def home? (e : Environment) : Option Path :=
  (e.value? "HOME" <|> e.value? "USERPROFILE").map Path.mk

end Environment
end Patchwork
