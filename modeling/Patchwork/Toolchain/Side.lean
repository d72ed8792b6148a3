import Patchwork.Failure
import Patchwork.Json.Basic
/-!
The two halves of a release. A version directory follows one of them.
-/
namespace Patchwork

/-- Which jar of a release a version directory follows. -/
inductive Side where
  | server
  | client
deriving DecidableEq, Repr, Inhabited

namespace Side

/-- The name as it is written. -/
def name : Side → String
  | server => "server"
  | client => "client"

/-- Reads a name in any case, with blanks around it. -/
def parse (value : String) : Outcome Side :=
  let name := (Text.trim value).toLower
  if name = "server" then .ok server
  else if name = "client" then .ok client
  else .error (.fault (.unknownSide name))

/-- Reads a side from JSON: its name, or an object with the name alone and nothing under it. -/
def ofJson? : Json → Option Side
  | .str s => ofName? s
  | .obj [(s, .null)] => ofName? s
  | _ => none
where
  /-- The side of an exact name. -/
  ofName? (s : String) : Option Side :=
    if s = "server" then some server
    else if s = "client" then some client
    else none

end Side
end Patchwork
