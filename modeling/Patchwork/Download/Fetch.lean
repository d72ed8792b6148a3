import Patchwork.Disk.Path
import Patchwork.Text.Lossy
import Patchwork.Url.Parse
import Patchwork.Digest.Checksum
import Patchwork.World
/-!
Downloads. The place of a download is cleared first, and it is filled only with bytes that have the
expected digest; a download that fails leaves nothing there. A file that already has the expected
digest need not be downloaded again (`Download.ensure`).

The work on one download has three stages, since downloads of a batch may take turns at them: making
room, obtaining the bytes, and putting them in place.

A URL that names no other machine is read as a path: what is encoded in it is decoded, and its query
and fragment do not count. Writing a path encodes what would be read as something else.
-/
namespace Patchwork.FileUrl

/-- The URL of an absolute path. -/
def ofPath? (p : Path) : Option String :=
  if p.isAbsolute then
    some ("file://" ++
      if p.parts = [] then "/"
      else String.join (p.parts.map fun name => "/" ++ Url.encode Url.nameMarks name.toList))
  else none

/-- Why a URL names no local file. -/
inductive Refusal where
  | unreadable (fault : Url.Fault)
  | elsewhere
deriving DecidableEq, Repr

/-- The wording of a refusal. -/
def Refusal.text : Refusal → String
  | unreadable fault => fault.text
  | elsewhere => "not a local file URL"

/-- Whether a path ends as the name of a drive does. -/
def endsAsDrive (path : List UInt8) : Bool :=
  match path.reverse with
  | mark :: letter :: _ :: _ =>
    Url.isDrive [Char.ofNat letter.toNat, Char.ofNat mark.toNat]
  | _ => false

/-- The path that one in a URL stands for. One that ends as a drive gets a slash at its end. -/
def decodePath (path : String) : Path :=
  let bytes := Url.decodeBytes path.toUTF8.toList
  ⟨Text.ofBytesLossy ⟨(bytes ++ if endsAsDrive bytes then [0x2f] else []).toArray⟩⟩

/-- The path of a URL, `none` for a text that does not begin as the URL of a file does. -/
def path? (url : String) : Except Refusal (Option Path) :=
  if Text.startsWith "file:" url then
    match Url.parse url with
    | .error fault => .error (.unreadable fault)
    | .ok u =>
      if u.authority.any (·.host.isSome) then .error .elsewhere
      else .ok (some (decodePath u.path))
  else .ok none

end Patchwork.FileUrl

namespace Patchwork

/-- A file to download: where from, where to, and the digest it must have, if one is known. -/
structure Download where
  url : String
  target : Path
  expected : Option Checksum
deriving DecidableEq, Repr

/-- Whether a digest was compared. -/
inductive ArtifactState where
  | fetched
  | verified
deriving DecidableEq, Repr

/-- A file that is in place. -/
structure Artifact where
  url : String
  path : Path
  expected : Option Checksum
  state : ArtifactState
  size : Nat
deriving DecidableEq, Repr

/-- Why what is not the URL of a file cannot be fetched: the machines of the web cannot be asked
from here, and nothing is known of other URLs. -/
def unreachableReason (url : String) : String :=
  match Url.parse url with
  | .error _ => "builder error"
  | .ok u =>
    let reason :=
      if u.scheme = "http" ∨ u.scheme = "https" then "error sending request" else "builder error"
    reason ++ " for url (" ++ u.withoutCredentials.text ++ ")"

/-- The path behind a URL. -/
def sourcePath (url : String) : Outcome Path :=
  match FileUrl.path? url with
  | .error refusal => .error (.unreachable url refusal.text)
  | .ok none => .error (.unreachable url (unreachableReason url))
  | .ok (some p) => .ok p

/-- The bytes behind a URL. -/
def sourceBytes (d : Disk) (url : String) : Outcome ByteArray := do
  match d.read (← sourcePath url) with
  | .ok bytes => return bytes
  | .error e => throw (.unreachable url e.text)

/-- The text behind a URL. -/
def sourceText (d : Disk) (url : String) : Outcome String := do
  match d.readText (← sourcePath url) with
  | .ok text => return text
  | .error e => throw (.unreachable url e.text)

namespace Download

/-- Compares the digest of some bytes with the expected one. -/
def check (r : Download) (bytes : ByteArray) : Outcome Artifact :=
  match r.expected with
  | none => .ok ⟨r.url, r.target, none, .fetched, bytes.size⟩
  | some expected =>
    let found := expected.algorithm.compute bytes
    if expected.accepts found then .ok ⟨r.url, r.target, r.expected, .verified, bytes.size⟩
    else .error (.mismatch r.url expected.digest found)

/-- The directory in which the bytes are collected. -/
def stagingDir (r : Download) : Path := r.target.parent?.getD ⟨"."⟩

/-- Makes room for the file. -/
def makeRoom (r : Download) : Action Unit := Action.clear r.target

/-- Obtains the bytes and compares their digest. -/
def obtain (r : Download) : Action (ByteArray × Artifact) := do
  let d ← Action.disk
  if !(d.isDir r.stagingDir || r.stagingDir.text == "") then
    throw (.io (.stagingIn r.stagingDir.text) .notFound)
  let bytes ← Action.ofOutcome (sourceBytes d r.url)
  return (bytes, ← Action.ofOutcome (r.check bytes))

/-- Puts the bytes in place. -/
def install (r : Download) (bytes : ByteArray) : Action Unit := do
  match (← Action.disk).placeFile r.target bytes with
  | .ok d => Action.setDisk d
  | .error e => throw (.fault (.cannotPersist r.target.text e))

/-- The three stages one after another. -/
def attempt (r : Download) : Action Artifact := do
  r.makeRoom
  let (bytes, artifact) ← r.obtain
  r.install bytes
  return artifact

/-- Removes what is in the place of the file, whether that succeeds or not. -/
def discard (r : Download) : Action Unit := Action.discard r.target

/-- Downloads a file in the place of what was there; nothing stays there when that fails. -/
def fetch (r : Download) : Action Artifact :=
  tryCatch r.attempt fun e => do
    r.discard
    throw e

/-- The file that is in place, if it has the expected digest. -/
def reusable? (r : Download) : Action (Option Artifact) := do
  match r.expected with
  | none => return none
  | some expected =>
    if ← Action.isFile r.target then
      let bytes ← Action.openFile r.target
      if expected.accepts (expected.algorithm.compute bytes) then
        return some ⟨r.url, r.target, r.expected, .verified, bytes.size⟩
      else return none
    else return none

/-- Downloads a file unless the one that is in place has the expected digest. -/
def ensure (r : Download) : Action Artifact := do
  match ← r.reusable? with
  | some artifact => return artifact
  | none => r.fetch

end Download

/-- Reads a short text behind a URL. -/
def fetchText (url : String) : Action String := do
  Action.ofOutcome (sourceText (← Action.disk) url)

/-- The digest of a file. -/
def fileDigest (algorithm : DigestAlgorithm) (p : Path) : Action String := do
  return algorithm.compute (← Action.openFile p)

end Patchwork
