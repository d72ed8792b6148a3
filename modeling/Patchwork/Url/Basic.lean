import Patchwork.Url.Host
/-!
URLs in their written form: a scheme, the machine and who asks it, a path, a query and a fragment.
-/
namespace Patchwork

/-- Who is asked for what a URL names, and by whom. -/
structure Url.Authority where
  user : String
  password : String
  host : Option Url.Host
  service : Option Nat
deriving DecidableEq, Repr

/-- A URL. Its parts are in written form, that is, encoded. -/
structure Url where
  scheme : String
  authority : Option Url.Authority
  path : String
  query : Option String
  fragment : Option String
deriving DecidableEq, Repr

namespace Url

/-- The user and the password in front of a host. -/
def Authority.credentials (a : Authority) : String :=
  let password := if a.password = "" then "" else ":" ++ a.password
  if a.user = "" ∧ a.password = "" then "" else a.user ++ password ++ "@"

/-- The machine in a URL, with the number of the service if that is not the usual one. -/
def Authority.address (a : Authority) : String :=
  (a.host.map Host.text).getD "" ++ (a.service.map fun n => ":" ++ toString n).getD ""

/-- What stands between the scheme and the path. A path that could be taken for a machine has a
point in front. -/
def front (u : Url) : String :=
  match u.authority with
  | some a => "//" ++ a.credentials ++ a.address
  | none => if Text.startsWith "//" u.path then "/." else ""

/-- A URL as it is written. -/
def text (u : Url) : String :=
  u.scheme ++ ":" ++ u.front ++ u.path ++ (u.query.map ("?" ++ ·)).getD "" ++
    (u.fragment.map ("#" ++ ·)).getD ""

/-- A URL without the user and the password. -/
def withoutCredentials (u : Url) : Url :=
  { u with authority := u.authority.map fun a => { a with user := "", password := "" } }

end Url
end Patchwork
