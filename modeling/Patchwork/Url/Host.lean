import Patchwork.Url.Direction
import Patchwork.Url.Folding
import Patchwork.Url.Joiner
import Patchwork.Url.Punycode
import Patchwork.Url.Address
import Patchwork.Url.Percent
/-!
Hosts of URLs. A host in brackets is an address of eight groups. Any other is percent-decoded and
brought to its ASCII form, and is an address of four bytes when its last label is a number.

For its ASCII form a domain name is folded character by character and cut into labels at its dots. A
label that is ASCII stands for itself, unless it begins as an encoded label does; then what it encodes
must be a label of its own, in folded form. A label that is not ASCII is encoded.
-/
namespace Patchwork.Url

/-- What an encoded label begins with. -/
def encodedStart : List Char := ['x', 'n', '-', '-']

/-- Characters of ASCII that a domain name must not have, besides control characters and blanks. -/
def domainSeparators : List Char :=
  ['%', '#', '/', ':', '<', '>', '?', '@', '[', '\\', ']', '^', '|']

/-- Whether a character is ASCII. -/
def isAscii (c : Char) : Bool := c.toNat < 0x80

/-- Whether a folded character may stand in a domain name. -/
def mayStand (c : Char) : Bool :=
  0x20 < c.toNat && c.toNat ≠ 0x7f && !domainSeparators.contains c

/-- Whether a label in plain, not all of it ASCII, may be encoded. -/
def mayBeEncoded (label : List Char) : Bool := !label.head?.any Text.isMark && joinersFit label

/-- The label that one in a domain name stands for. -/
def plainLabel? (label : List Char) : Option (List Char) :=
  match Text.dropStart? encodedStart label with
  | none => if label.all isAscii || mayBeEncoded label then some label else none
  | some code =>
    if !code.all isAscii || code.getLast?.all (· == '-') then none
    else do
      let plain ← Punycode.decode? code
      if plain.all (fun c => folded? c == some [c]) && mayBeEncoded plain then some plain else none

/-- The ASCII form of a label in plain. -/
def asciiLabel (label : List Char) : List Char :=
  if label.all isAscii then label else encodedStart ++ Punycode.encode label

/-- The labels of a name, folded. -/
def foldedLabels? (name : List Char) : Option (List (List Char)) := do
  let chars := (← name.mapM folded?).flatten
  if chars.all mayStand then some (Text.cutAt (· == '.') chars) else none

/-- The labels of a domain name in their ASCII form, `none` for a name that has none. -/
def asciiLabels? (name : List Char) : Option (List (List Char)) := do
  let plain ← (← foldedLabels? name).mapM plainLabel?
  if Direction.allFit plain then some (plain.map asciiLabel) else none

/-- Why a text is no URL. -/
inductive Fault where
  | noScheme
  | emptyHost
  | badDomain
  | badHostName
  | badAddress4
  | badAddress6
  | badService
deriving DecidableEq, Repr

/-- The wording of a fault. -/
def Fault.text : Fault → String
  | noScheme => "relative URL without a base"
  | emptyHost => "empty host"
  | badDomain => "invalid international domain name"
  | badHostName => "invalid domain character"
  | badAddress4 => "invalid IPv4 address"
  | badAddress6 => "invalid IPv6 address"
  | badService => "invalid port number"

/-- A machine that a URL names. -/
inductive Host where
  | name (text : String)
  | address4 (address : Nat)
  | address6 (groups : List Nat)
deriving DecidableEq, Repr

namespace Host

/-- A host as it is written. -/
def text : Host → String
  | name text => text
  | address4 address => address4Text address
  | address6 groups => "[" ++ address6Text groups ++ "]"

/-- The name of the machine that a URL is used on. -/
def here : Host := name "localhost"

/-- A host in brackets, given without the first one. -/
def bracketed (s : List Char) : Except Fault Host :=
  if s.getLast? = some ']' then
    match address6? s.dropLast with
    | some groups => .ok (.address6 groups)
    | none => .error .badAddress6
  else .error .badAddress6

/-- A host by the labels of its name in ASCII. -/
def ofLabels (labels : List (List Char)) : Except Fault Host :=
  if labels = [[]] then .error .emptyHost
  else if endsInNumber labels then
    match address4? labels with
    | some address => .ok (.address4 address)
    | none => .error .badAddress4
  else .ok (.name (String.ofList (['.'].intercalate labels)))

/-- The host of a URL whose scheme is known. -/
def parse (s : List Char) : Except Fault Host :=
  match s with
  | '[' :: rest => bracketed rest
  | _ =>
    match String.fromUTF8? (decode (String.ofList s)) with
    | none => .error .badDomain
    | some plain =>
      match asciiLabels? plain.toList with
      | none => .error .badDomain
      | some labels => ofLabels labels

/-- Characters that a host must not have when nothing is known of its scheme. -/
def barredMarks : List Char :=
  ['\x00', '\t', '\n', '\r', ' ', '#', '/', ':', '<', '>', '?', '@', '[', '\\', ']', '^', '|']

/-- The host of a URL with a scheme that nothing is known of. -/
def parseUnknown (s : List Char) : Except Fault Host :=
  match s with
  | '[' :: rest => bracketed rest
  | _ =>
    if s.any (barredMarks.contains ·) then .error .badHostName else .ok (.name (encode [] s))

end Host
end Patchwork.Url
