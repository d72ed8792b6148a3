import Patchwork.Digest.Sha
import Patchwork.Failure
/-!
Expected digests. A checksum names an algorithm and a hexadecimal digest, and accepts a computed
digest whatever the case of its letters and the blanks around it.
-/
namespace Patchwork

/-- The hash functions in use. -/
inductive DigestAlgorithm where
  | sha1
  | sha256
deriving DecidableEq, Repr

namespace DigestAlgorithm

/-- The name as it is written in front of a digest. -/
def name : DigestAlgorithm → String
  | .sha1 => "sha1"
  | .sha256 => "sha256"

/-- The number of hexadecimal digits of a digest. -/
def hexLength : DigestAlgorithm → Nat
  | .sha1 => 40
  | .sha256 => 64

/-- The digest of some bytes, in lower-case hexadecimal. -/
def compute (algorithm : DigestAlgorithm) (bytes : ByteArray) : String :=
  match algorithm with
  | .sha1 => Digest.hex (Digest.Sha1.digest bytes)
  | .sha256 => Digest.hex (Digest.Sha256.digest bytes)

/-- Reads a name in any case, with or without a hyphen. -/
def parse (value : String) : Outcome DigestAlgorithm :=
  let name := (Text.trim value).toLower
  if name = "sha1" ∨ name = "sha-1" then .ok .sha1
  else if name = "sha256" ∨ name = "sha-256" then .ok .sha256
  else .error (.fault (.unsupportedAlgorithm name))

end DigestAlgorithm

/-- A digest that some bytes are expected to have. -/
structure Checksum where
  algorithm : DigestAlgorithm
  digest : String
deriving DecidableEq, Repr

namespace Checksum

/-- The hexadecimal digits. -/
def isHexDigit (c : Char) : Bool :=
  ('0' ≤ c && c ≤ '9') || ('a' ≤ c && c ≤ 'f') || ('A' ≤ c && c ≤ 'F')

/-- A digest as it was given, without the blanks around it and in lower case. -/
def of (algorithm : DigestAlgorithm) (digest : String) : Checksum :=
  ⟨algorithm, (Text.trim digest).toLower⟩

/-- Reads `algorithm:digest`. -/
def parse (raw : String) : Outcome Checksum :=
  match Text.splitOnce? ":" raw with
  | none => .error (.fault (.missingAlgorithm raw))
  | some (name, rest) => do
    let algorithm ← DigestAlgorithm.parse name
    let digest := Text.trim rest
    if digest.utf8ByteSize = algorithm.hexLength ∧ digest.toList.all isHexDigit then
      return of algorithm digest
    else
      throw (.fault (.invalidDigest digest algorithm.name))

/-- Whether a computed digest is the expected one. -/
def accepts (expected : Checksum) (found : String) : Bool :=
  Text.sameIgnoringCase expected.digest (Text.trim found)

/-- The written form `algorithm:digest`. -/
def text (c : Checksum) : String := c.algorithm.name ++ ":" ++ c.digest

end Checksum
end Patchwork
