/-!
Unpacking deflated data. The data is a stream of bits in blocks: a block is stored as it is, or it
is a sequence of symbols in a prefix code, which stand for bytes and for repetitions of what came
before. The code is fixed, or the block begins with the lengths of its words.

Unpacking stops where the data ends too early or cannot be meant; what came out before is kept.
-/
namespace Patchwork.Inflate

/-- Why unpacking stopped before the end of the last block. -/
inductive Stop where
  /-- The data ends within a block. -/
  | cut
  /-- The data is not a stream of blocks. -/
  | corrupt
deriving DecidableEq, Repr

/-! ### Bits -/

/-- Bytes from the bit at a position on, the lowest bit of each byte first. -/
structure BitReader where
  bytes : ByteArray
  position : Nat

namespace BitReader

/-- The next bit. -/
def bit (r : BitReader) : Except Stop (Nat × BitReader) :=
  match r.bytes[r.position / 8]? with
  | some byte => .ok (byte.toNat / Nat.pow 2 (r.position % 8) % 2, ⟨r.bytes, r.position + 1⟩)
  | none => .error .cut

/-- The next bits as a number, the lowest first. -/
def bits : Nat → BitReader → Except Stop (Nat × BitReader)
  | 0, r => .ok (0, r)
  | n + 1, r => do
    let (low, r) ← r.bit
    let (high, r) ← bits n r
    return (low + 2 * high, r)

/-- The rest from the next whole byte on. -/
def align (r : BitReader) : BitReader := ⟨r.bytes, (r.position + 7) / 8 * 8⟩

end BitReader

/-! ### Prefix codes -/

/-- The longest word of a code. -/
def longestWord : Nat := 15

/-- A prefix code: how many words there are of each length from one on, and the symbols in the order
of their words. -/
structure PrefixCode where
  counts : List Nat
  symbols : Array Nat

namespace PrefixCode

/-- The symbols whose words have a length. -/
def withLength (lengths : List Nat) (length : Nat) : List Nat :=
  lengths.zipIdx.filterMap fun (l, symbol) => if l = length then some symbol else none

/-- The code in which symbols have words of the given lengths, none for length zero. The words must
fill the tree of all words; in a `loose` code one word or none will do. -/
def ofLengths (loose : Bool) (lengths : List Nat) : Except Stop PrefixCode :=
  let groups := (List.range longestWord).map fun l => withLength lengths (l + 1)
  let counts := groups.map List.length
  let room : Nat := (counts.zipIdx.map fun (count, l) =>
    count * Nat.pow 2 (longestWord - (l + 1))).foldl (· + ·) 0
  let coded : Nat := counts.foldl (· + ·) 0
  if room = Nat.pow 2 longestWord ∨ (loose = true ∧ coded ≤ 1) then
    .ok ⟨counts, groups.flatten.toArray⟩
  else .error .corrupt

/-- Follows a word bit by bit: `word` is the number of the bits read so far with a zero after them,
`first` the number of the first word of this length, and `passed` counts the shorter words. -/
def follow (symbols : Array Nat) : List Nat → Nat → Nat → Nat → BitReader →
    Except Stop (Nat × BitReader)
  | [], _, _, _, _ => .error .corrupt
  | count :: counts, word, first, passed, r => do
    let (b, r) ← r.bit
    let word := word + b
    if word < first + count then
      match symbols[passed + (word - first)]? with
      | some symbol => return (symbol, r)
      | none => throw .corrupt
    else if counts.all (· == 0) then throw .corrupt
    else follow symbols counts (2 * word) (2 * (first + count)) (passed + count) r

/-- The next symbol. -/
def next (c : PrefixCode) (r : BitReader) : Except Stop (Nat × BitReader) :=
  follow c.symbols c.counts 0 0 0 r

end PrefixCode

/-! ### Repetitions -/

/-- The shortest repetition for each length symbol, and how many bits are added to it. -/
def lengthSteps : Array (Nat × Nat) := #[
  (3, 0), (4, 0), (5, 0), (6, 0), (7, 0), (8, 0), (9, 0), (10, 0), (11, 1), (13, 1), (15, 1),
  (17, 1), (19, 2), (23, 2), (27, 2), (31, 2), (35, 3), (43, 3), (51, 3), (59, 3), (67, 4), (83, 4),
  (99, 4), (115, 4), (131, 5), (163, 5), (195, 5), (227, 5), (258, 0)]

/-- The nearest distance for each distance symbol, and how many bits are added to it. -/
def distanceSteps : Array (Nat × Nat) := #[
  (1, 0), (2, 0), (3, 0), (4, 0), (5, 1), (7, 1), (9, 2), (13, 2), (17, 3), (25, 3), (33, 4),
  (49, 4), (65, 5), (97, 5), (129, 6), (193, 6), (257, 7), (385, 7), (513, 8), (769, 8), (1025, 9),
  (1537, 9), (2049, 10), (3073, 10), (4097, 11), (6145, 11), (8193, 12), (12289, 12), (16385, 13),
  (24577, 13)]

/-- The number that a step and the bits after it give. -/
def stepped (steps : Array (Nat × Nat)) (symbol : Nat) (r : BitReader) :
    Except Stop (Nat × BitReader) :=
  match steps[symbol]? with
  | none => .error .corrupt
  | some (base, extra) => do
    let (more, r) ← r.bits extra
    return (base + more, r)

/-- Repeats so many bytes from a distance back. Before the beginning there are zeros. -/
def repeatBack (distance : Nat) : Nat → ByteArray → ByteArray
  | 0, out => out
  | n + 1, out =>
    let byte := if distance ≤ out.size then out[out.size - distance]?.getD 0 else 0
    repeatBack distance n (out.push byte)

/-! ### Blocks -/

/-- The two codes of a block: for bytes, lengths and the end, and for distances. -/
structure Codes where
  literals : PrefixCode
  distances : PrefixCode

/-- The lengths of the words of the fixed code. -/
def fixedLengths : List Nat :=
  List.replicate 144 8 ++ List.replicate 112 9 ++ List.replicate 24 7 ++ List.replicate 8 8

/-- The fixed codes. -/
def fixedCodes : Except Stop Codes := do
  return ⟨← PrefixCode.ofLengths true fixedLengths,
    ← PrefixCode.ofLengths true (List.replicate 32 5)⟩

/-- The order in which the lengths of the words for lengths are given. -/
def lengthOrder : List Nat := [16, 17, 18, 0, 8, 7, 9, 6, 10, 5, 11, 4, 12, 3, 13, 2, 14, 1, 15]

/-- So many numbers of three bits. -/
def threeBits : Nat → BitReader → Except Stop (List Nat × BitReader)
  | 0, r => .ok ([], r)
  | n + 1, r => do
    let (x, r) ← r.bits 3
    let (xs, r) ← threeBits n r
    return (x :: xs, r)

/-- The lengths of words, `missing` of them after those done, the latest first. Symbols above 15
repeat the last length or a zero; `fuel` bounds the number of symbols. -/
def wordLengths (code : PrefixCode) : Nat → Nat → List Nat → BitReader →
    Except Stop (List Nat × BitReader)
  | 0, _, _, _ => .error .corrupt
  | fuel + 1, missing, done, r =>
    if missing = 0 then .ok (done.reverse, r)
    else do
      let (symbol, r) ← code.next r
      if symbol < 16 then wordLengths code fuel (missing - 1) (symbol :: done) r
      else
        let last ← match symbol, done with
          | 16, [] => throw Stop.corrupt
          | 16, length :: _ => pure length
          | _, _ => pure 0
        let (base, extra) := if symbol = 16 then (3, 2) else if symbol = 17 then (3, 3) else (11, 7)
        let (more, r) ← r.bits extra
        let run := base + more
        if missing < run then throw Stop.corrupt
        else wordLengths code fuel (missing - run) (List.replicate run last ++ done) r

/-- The codes that a block begins with. -/
def ownCodes (r : BitReader) : Except Stop (Codes × BitReader) := do
  let (moreLiterals, r) ← r.bits 5
  let (moreDistances, r) ← r.bits 5
  let (moreLengths, r) ← r.bits 4
  let literals := moreLiterals + 257
  let distances := moreDistances + 1
  if 286 < literals ∨ 30 < distances then throw .corrupt
  let (given, r) ← threeBits (moreLengths + 4) r
  let lengthOf (symbol : Nat) : Nat := ((lengthOrder.zip given).lookup symbol).getD 0
  let code ← PrefixCode.ofLengths false ((List.range 19).map lengthOf)
  let (lengths, r) ← wordLengths code (literals + distances + 1) (literals + distances) [] r
  let distanceCode ← PrefixCode.ofLengths true (lengths.drop literals)
  let literalCode ← PrefixCode.ofLengths true (lengths.take literals)
  return (⟨literalCode, distanceCode⟩, r)

/-- What came out, and where to go on or why to stop. -/
structure Progress where
  output : ByteArray
  next : Except Stop BitReader

/-- The symbols of a block up to its end; `fuel` bounds their number. -/
def symbols (codes : Codes) : Nat → ByteArray → BitReader → Progress
  | 0, out, _ => ⟨out, .error .corrupt⟩
  | fuel + 1, out, r =>
    match codes.literals.next r with
    | .error stop => ⟨out, .error stop⟩
    | .ok (symbol, r) =>
      if symbol < 256 then symbols codes fuel (out.push (UInt8.ofNat symbol)) r
      else if symbol = 256 then ⟨out, .ok r⟩
      else
        match repetition symbol r with
        | .error stop => ⟨out, .error stop⟩
        | .ok (length, distance, r) => symbols codes fuel (repeatBack distance length out) r
where
  /-- The length and the distance of a repetition. -/
  repetition (symbol : Nat) (r : BitReader) : Except Stop (Nat × Nat × BitReader) := do
    let (length, r) ← stepped lengthSteps (symbol - 257) r
    let (far, r) ← codes.distances.next r
    let (distance, r) ← stepped distanceSteps far r
    return (length, distance, r)

/-- A block that is stored as it is: its length, the length with all bits turned, and its bytes. -/
def storedBlock (out : ByteArray) (r : BitReader) : Progress :=
  let header : Except Stop (Nat × BitReader) := do
    let (length, r) ← r.align.bits 16
    let (turned, r) ← r.bits 16
    if length + turned = 0xffff then return (length, r) else throw .corrupt
  match header with
  | .error stop => ⟨out, .error stop⟩
  | .ok (length, r) =>
    let start := r.position / 8
    let out := out ++ r.bytes.extract start (start + length)
    if start + length ≤ r.bytes.size then ⟨out, .ok ⟨r.bytes, 8 * (start + length)⟩⟩
    else ⟨out, .error .cut⟩

/-- A block of a kind: stored, in the fixed codes, or in codes of its own. -/
def block (kind : Nat) (out : ByteArray) (r : BitReader) : Progress :=
  let fuel := 8 * r.bytes.size + 1
  let within (codes : Except Stop (Codes × BitReader)) : Progress :=
    match codes with
    | .ok (codes, r) => symbols codes fuel out r
    | .error stop => ⟨out, .error stop⟩
  if kind = 0 then storedBlock out r
  else if kind = 1 then within (fixedCodes.map fun codes => (codes, r))
  else if kind = 2 then within (ownCodes r)
  else ⟨out, .error .corrupt⟩

/-- Blocks up to the last one; `fuel` bounds their number. -/
def blocks : Nat → ByteArray → BitReader → ByteArray × Option Stop
  | 0, out, _ => (out, some .corrupt)
  | fuel + 1, out, r =>
    let header : Except Stop (Nat × Nat × BitReader) := do
      let (last, r) ← r.bits 1
      let (kind, r) ← r.bits 2
      return (last, kind, r)
    match header with
    | .error stop => (out, some stop)
    | .ok (last, kind, r) =>
      let progress := block kind out r
      match progress.next with
      | .error stop => (progress.output, some stop)
      | .ok r => if last = 1 then (progress.output, none) else blocks fuel progress.output r

/-- Unpacks some bytes: what came out, and why it stopped if not at the end of the last block. -/
def unpack (bytes : ByteArray) : ByteArray × Option Stop :=
  blocks (8 * bytes.size + 1) ByteArray.empty ⟨bytes, 0⟩

end Patchwork.Inflate
