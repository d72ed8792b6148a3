import Patchwork.Text.Blank
import Patchwork.Url.Basic
/-!
Reading URLs. Blanks and control characters around a URL do not count, nor do tabs and line ends
inside; a backslash is a slash where the scheme is a known one. The schemes that are known are those
of files and of the web.

Of the names between the slashes of a path a point leads nowhere and two points lead back, also when
they are encoded; a drive is not left. The first name of a path on a local disk may be a drive.
-/
namespace Patchwork.Url

/-- Whether a name is the letter of a drive with a colon or a bar after it. -/
def isDrive (name : List Char) : Bool :=
  match name with
  | [letter, mark] => letter.isAlpha && (mark == ':' || mark == '|')
  | _ => false

/-- A name with its encoded points in plain, for telling points apart. -/
def plainPoints : List Char → List Char
  | '%' :: '2' :: c :: rest =>
    if c = 'e' ∨ c = 'E' then '.' :: plainPoints rest else '%' :: '2' :: plainPoints (c :: rest)
  | c :: rest => c :: plainPoints rest
  | [] => []

/-- How far the names of a path have been followed: those that are left of them, and whether the
path has turned out to start at a drive. -/
structure Walk where
  names : List (List Char)
  onDrive : Bool

namespace Walk

/-- Leaves the last name, unless it is a drive. -/
def back (w : Walk) : Walk :=
  match w.names.getLast? with
  | some name => if isDrive name then w else { w with names := w.names.dropLast }
  | none => w

/-- Adds a name. -/
def push (w : Walk) (name : List Char) : Walk := { w with names := w.names ++ [name] }

/-- Adds the first name of a path on a local disk. A drive is written with a colon; what follows
the colon of a drive is a name of its own. -/
def pushFirst (w : Walk) (name : List Char) : Walk :=
  match name with
  | [letter, _] => if isDrive name then ⟨w.names ++ [[letter, ':']], true⟩ else w.push name
  | letter :: ':' :: rest =>
    if letter.isAlpha then (w.push [letter, ':']).push rest else w.push name
  | _ => w.push name

/-- Follows one name. A name that leads nowhere or back leaves an empty one when it is the last. -/
def step (isLocal isLast : Bool) (w : Walk) (name : List Char) : Walk :=
  let points := plainPoints name
  if points = ['.', '.'] then if isLast then w.back.push [] else w.back
  else if points = ['.'] then if isLast then w.push [] else w
  else if isLocal && w.names.isEmpty then w.pushFirst name
  else w.push name

/-- Follows names one by one. -/
def follow (isLocal : Bool) (w : Walk) : List (List Char) → Walk
  | [] => w
  | name :: rest => follow isLocal (w.step isLocal rest.isEmpty name) rest

/-- Follows the names of a path from its start. -/
def ofNames (isLocal : Bool) (names : List (List Char)) : Walk := follow isLocal ⟨[], false⟩ names

end Walk

/-! ### Schemes -/

/-- The schemes of the web and the numbers of their usual services. -/
def webSchemes : List (String × Nat) :=
  [("http", 80), ("https", 443), ("ws", 80), ("wss", 443), ("ftp", 21)]

/-- The scheme of local files. -/
def localScheme : String := "file"

/-- What is known of a scheme. -/
inductive Kind where
  | onDisk
  | onWeb (service : Nat)
  | unknown
deriving DecidableEq, Repr

/-- What is known of a scheme. -/
def Kind.of (scheme : String) : Kind :=
  if scheme = localScheme then .onDisk
  else
    match webSchemes.lookup scheme with
    | some service => .onWeb service
    | none => .unknown

/-- Whether a character separates names. -/
def Kind.isSlash (k : Kind) (c : Char) : Bool := c == '/' || (c == '\\' && k != .unknown)

/-- A character that does not count inside a URL. -/
def isSkipped (c : Char) : Bool := c == '\t' || c == '\n' || c == '\r'

/-- A character that does not count at either end of a URL. -/
def isOutside (c : Char) : Bool := c.toNat ≤ 0x20

/-- The characters of a URL that count. -/
def counted (s : String) : List Char :=
  (Text.dropWhileEnd isOutside (s.toList.dropWhile isOutside)).filter (!isSkipped ·)

/-- Whether a character may stand in a scheme after its first letter. -/
def isSchemeChar (c : Char) : Bool := c.isAlphanum || c == '+' || c == '-' || c == '.'

/-- A scheme and what follows its colon. -/
def scheme? (s : List Char) : Option (String × List Char) :=
  match s.dropWhile isSchemeChar with
  | ':' :: rest =>
    let scheme := s.takeWhile isSchemeChar
    if scheme.head?.any Char.isAlpha then some ((String.ofList scheme).toLower, rest) else none
  | _ => none

/-! ### Paths -/

/-- Names as a path. The empty names in front of a path on a local disk do not count. -/
def pathOf (isLocal : Bool) (names : List (List Char)) : String :=
  let names := if isLocal then names.dropWhile (· = []) else names
  if names = [] then "/" else String.join (names.map fun name => "/" ++ encode pathMarks name)

/-- The names after the slash that a path starts with. -/
def walk (k : Kind) (s : List Char) : Walk :=
  Walk.ofNames (k == .onDisk) (Text.cutAt k.isSlash s)

/-- A path given with or without the slash that it starts with. -/
def afterSlash (k : Kind) (s : List Char) : List Char :=
  match s with
  | c :: rest => if k.isSlash c then rest else s
  | [] => []

/-! ### Authorities -/

/-- The number of a service. -/
def service? (s : List Char) : Except Fault (Option Nat) :=
  if s = [] then .ok none
  else
    match valueIn? 10 s with
    | some n => if n < Nat.pow 2 16 then .ok (some n) else .error .badService
    | none => .error .badService

/-- Cuts a host off what follows it: a colon ends it unless it stands in brackets. -/
def cutHost (inBrackets : Bool) : List Char → List Char × Option (List Char)
  | [] => ([], none)
  | c :: rest =>
    if c = ':' && !inBrackets then ([], some rest)
    else
      let (host, after) := cutHost (c = '[' || (inBrackets && c ≠ ']')) rest
      (c :: host, after)

/-- Cuts a text at the last place where an at sign stands. -/
def cutCredentials (s : List Char) : Option (List Char) × List Char :=
  match Text.cutOnce? ['@'] s.reverse with
  | some (after, before) => (some before.reverse, after.reverse)
  | none => (none, s)

/-- The user and the password in front of a host. -/
def credentials (s : List Char) : String × String :=
  (encode credentialMarks (s.takeWhile (· ≠ ':')),
    encode credentialMarks ((s.dropWhile (· ≠ ':')).drop 1))

/-- The host of a URL; only where nothing is known of the scheme may there be none. -/
def host? (k : Kind) (s : List Char) : Except Fault (Option Host) :=
  if s = [] then if k = .unknown then .ok none else .error .emptyHost
  else some <$> if k = .unknown then Host.parseUnknown s else Host.parse s

/-- The authority of a URL that is not local. -/
def readAuthority (k : Kind) (s : List Char) : Except Fault Authority := do
  let (login, machine) := cutCredentials s
  let (name, after) := cutHost false machine
  let (user, password) := credentials (login.getD [])
  let host ← host? k name
  if host.isNone && (after.isSome || user ≠ "" || password ≠ "") then throw .emptyHost
  let service ← service? (after.getD [])
  return ⟨user, password, host, service.filter (k ≠ .onWeb ·)⟩

/-- The host of a local URL; the machine itself need not be named. -/
def localHost? (s : List Char) : Except Fault (Option Host) := do
  if s = [] then return none
  let host ← Host.parse s
  return if host = Host.here then none else some host

/-! ### URLs -/

/-- The authority and the path of a URL with a local scheme. A drive is on the machine itself. -/
def readLocal (s : List Char) : Except Fault (Authority × String) := do
  let k := Kind.onDisk
  let isNamed := s.take 2 |>.map k.isSlash |> (· = [true, true])
  let name := if isNamed then (s.drop 2).takeWhile (!k.isSlash ·) else []
  let isHost := isNamed && !isDrive name
  let host ← localHost? (if isHost then name else [])
  let path := if !isNamed then s else if isHost then s.drop (2 + name.length) else s.drop 2
  let w := walk k (afterSlash k path)
  return (⟨"", "", if w.onDrive then none else host, none⟩, pathOf true w.names)

/-- The authority and the path of a URL with a scheme of the web. -/
def readWeb (k : Kind) (s : List Char) : Except Fault (Authority × String) := do
  let s := s.dropWhile k.isSlash
  let a ← readAuthority k (s.takeWhile (!k.isSlash ·))
  return (a, pathOf false (walk k (afterSlash k (s.dropWhile (!k.isSlash ·)))).names)

/-- The authority, if there is one, and the path of a URL with a scheme that nothing is known of. -/
def readUnknown (s : List Char) : Except Fault (Option Authority × String) := do
  let path (s : List Char) : String :=
    match s with
    | '/' :: rest => pathOf false (walk .unknown rest).names
    | _ => encode [] s
  match s with
  | '/' :: '/' :: rest =>
    let a ← readAuthority .unknown (rest.takeWhile (· ≠ '/'))
    return (some a, path (rest.dropWhile (· ≠ '/')))
  | _ => return (none, path s)

/-- What follows a mark, in written form, and what precedes it. -/
def cutAfter (mark : Char) (marks s : List Char) : List Char × Option String :=
  match Text.cutOnce? [mark] s with
  | some (before, after) => (before, some (encode marks after))
  | none => (s, none)

/-- Reads a URL. -/
def parse (s : String) : Except Fault Url :=
  match scheme? (counted s) with
  | none => .error .noScheme
  | some (scheme, rest) => do
    let k := Kind.of scheme
    let (rest, fragment) := cutAfter '#' fragmentMarks rest
    let (rest, query) :=
      cutAfter '?' (if k = .unknown then queryMarks else Char.ofNat 0x27 :: queryMarks) rest
    let (authority, path) ←
      match k with
      | .onDisk => (fun (a, p) => (some a, p)) <$> readLocal rest
      | .onWeb _ => (fun (a, p) => (some a, p)) <$> readWeb k rest
      | .unknown => readUnknown rest
    return ⟨scheme, authority, path, query, fragment⟩

end Patchwork.Url
