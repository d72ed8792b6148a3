import Patchwork.Archive.Zip
import Patchwork.Text.Lossy
/-!
Reading the directory of a ZIP archive. The end record is looked for from the end of the archive
backwards; it tells where the directory begins, as far as a wider end record in front of it does not
tell so. Other bytes may stand in front of the archive, and then all offsets count from behind them.
-/
namespace Patchwork.Zip

/-! ### Fields -/

/-- The number in some bytes from a position on, the lowest first. -/
def number (bytes : ByteArray) (position : Nat) : Nat → Nat
  | 0 => 0
  | width + 1 => (bytes[position]?.getD 0).toNat + 256 * number bytes (position + 1) width

/-- The number in some bytes from a position on, if there are so many. -/
def number? (bytes : ByteArray) (position width : Nat) : Option Nat :=
  if position + width ≤ bytes.size then some (number bytes position width) else none

/-- Whether a record with a mark begins at a position. -/
def marked (bytes : ByteArray) (position mark : Nat) : Bool :=
  number? bytes position 4 == some mark

/-- The bytes between two positions, if there are so many. -/
def slice? (bytes : ByteArray) (start length : Nat) : Option ByteArray :=
  if start + length ≤ bytes.size then some (bytes.extract start (start + length)) else none

/-! ### The end record -/

/-- How long an end record is without its comment. -/
def endLength : Nat := 22

/-- The longest comment behind an end record. -/
def commentLimit : Nat := 0xffff

/-- The position of the last end record that begins at a position or at most `steps` before it. -/
def lastEnd? (bytes : ByteArray) : Nat → Nat → Option Nat
  | 0, position => if marked bytes position endMark then some position else none
  | steps + 1, position =>
    if marked bytes position endMark then some position
    else if position = 0 then none
    else lastEnd? bytes steps (position - 1)

/-- Where the directory is: what all offsets are counted from, where the first record begins, and
how many there are. -/
structure Layout where
  base : Nat
  start : Nat
  count : Nat

/-- The mark of the wider end record. -/
def wideEndMark : Nat := 0x06064b50

/-- The mark of the record that tells where the wider end record is. -/
def locatorMark : Nat := 0x07064b50

/-- How long the record is that tells where the wider end record is. -/
def locatorLength : Nat := 20

/-- The position of the first wider end record from a position on, among the next `steps` ones. -/
def wideEnd? (bytes : ByteArray) : Nat → Nat → Option Nat
  | 0, _ => none
  | steps + 1, position =>
    if marked bytes position wideEndMark then some position
    else wideEnd? bytes steps (position + 1)

/-- Where the directory is when a wider end record tells it: that record is looked for from the
place on that the locator gives. -/
def wideLayout? (bytes : ByteArray) (position nominal : Nat) : Option Layout := do
  if position < 60 then none
  else
    let limit := position - 60
    if limit < nominal then none
    else
      let found ← wideEnd? bytes (limit - nominal + 1) nominal
      let disk ← number? bytes (found + 16) 4
      let directoryDisk ← number? bytes (found + 20) 4
      let count ← number? bytes (found + 32) 8
      let offset ← number? bytes (found + 48) 8
      if disk = directoryDisk ∧ offset + (found - nominal) < Nat.pow 2 64 then
        some ⟨found - nominal, offset + (found - nominal), count⟩
      else none

/-- Where the directory is. An archive on several disks cannot be read. -/
def layout? (bytes : ByteArray) : Option Layout := do
  if bytes.size < endLength then none
  let position ← lastEnd? bytes commentLimit (bytes.size - endLength)
  let field (offset width : Nat) : Nat := number bytes (position + offset) width
  let disk := field 4 2
  let directoryDisk := field 6 2
  let here := field 8 2
  let size := field 12 4
  let offset := field 16 4
  let commentLength := field 20 2
  let _ ← slice? bytes (position + endLength) commentLength
  let narrow := disk = 0xffff ∨ directoryDisk = 0xffff ∨ here = 0xffff ∨ field 10 2 = 0xffff ∨
    size = 0xffffffff ∨ offset = 0xffffffff
  if ¬ narrow ∧ disk ≠ directoryDisk then none
  let behind := locatorLength + endLength + commentLength
  if behind ≤ bytes.size ∧ marked bytes (bytes.size - behind) locatorMark then
    let locator := bytes.size - behind
    if ¬ narrow ∧ disk ≠ number bytes (locator + 4) 4 then none
    wideLayout? bytes position (number bytes (locator + 8) 8)
  else if size + offset ≤ position then
    some ⟨position - (size + offset), position - size, here⟩
  else none

/-! ### Records -/

/-- What the directory tells about an entry. -/
structure Record where
  name : String
  encrypted : Bool
  method : Nat
  check : Nat
  size : Nat
  /-- The length of what comes out; it is not relied on. -/
  fullSize : Nat
  /-- Where the local record begins. -/
  start : Nat

/-- The method that stands for encryption, whose own method an extra field gives. -/
def encryptedMethod : Nat := 99

/-- A value that does not fit its field and is given by an extra field. -/
def wideValue : Nat := 0xffffffff

/-- Values from an extra field for those that do not fit, in order. What stands beyond the end of
the extra data is not taken. -/
def widen (extra : ByteArray) (position : Nat) (r : Record) : Record × Nat × Bool :=
  let take (wanted : Bool) (state : Nat × Bool) (use : Nat → Record → Record) (r : Record) :
      Record × Nat × Bool :=
    if wanted ∧ state.2 then
      match number? extra state.1 8 with
      | some value => (use value r, state.1 + 8, true)
      | none => (r, state.1, false)
    else (r, state)
  let (r, state) := take (r.fullSize = wideValue) (position, true)
    (fun v r => { r with fullSize := v }) r
  let (r, state) := take (r.size = wideValue) state (fun v r => { r with size := v }) r
  take (r.start = wideValue) state (fun v r => { r with start := v }) r

/-- What extra fields from a position on change about an entry; `fuel` bounds their number, and
`opened` tells whether one gave the method of an encrypted entry. None for one that cannot be
meant. -/
def withExtra (extra : ByteArray) : Nat → Nat → Bool → Record → Option (Record × Bool)
  | 0, _, opened, r => some (r, opened)
  | fuel + 1, position, opened, r =>
    match number? extra position 2, number? extra (position + 2) 2 with
    | some kind, some length =>
      let body := position + 4
      if kind = 1 then
        let (r, reached, complete) := widen extra body r
        if complete then withExtra extra fuel (max reached (body + length)) opened r
        else some (r, opened)
      else if kind = 0x9901 then
        if length ≠ 7 then none
        else if extra.size < body + 7 then some (r, opened)
        else
          let version := number extra body 2
          let vendor := number extra (body + 2) 2
          let strength := number extra (body + 4) 1
          if vendor = 0x4541 ∧ (version = 1 ∨ version = 2) ∧ 1 ≤ strength ∧ strength ≤ 3 then
            withExtra extra fuel (body + 14) true { r with method := number extra (body + 5) 2 }
          else none
      else withExtra extra fuel (body + length) opened r
    | _, _ => some (r, opened)

/-- The name in a record: in UTF-8 if a flag says so, else in the code page. -/
def nameOf (flags : Nat) (bytes : ByteArray) : String :=
  if flags / Nat.pow 2 11 % 2 = 1 then Text.ofBytesLossy bytes else Text.ofCodePage bytes.toList

/-- The record at a position and the position behind it. -/
def record? (bytes : ByteArray) (base position : Nat) : Option (Record × Nat) := do
  let field (offset width : Nat) : Nat := number bytes (position + offset) width
  if ¬ marked bytes position centralMark then none
  let flags := field 8 2
  let nameLength := field 28 2
  let extraLength := field 30 2
  let commentLength := field 32 2
  let name ← slice? bytes (position + 46) nameLength
  let extra ← slice? bytes (position + 46 + nameLength) extraLength
  let next := position + 46 + nameLength + extraLength + commentLength
  if bytes.size < next then none
  let plain : Record :=
    { name := nameOf flags name
      encrypted := flags % 2 = 1
      method := field 10 2
      check := field 16 4
      size := field 20 4
      fullSize := field 24 4
      start := field 42 4 }
  let (r, opened) ← withExtra extra (extraLength + 1) 0 false plain
  if r.method = encryptedMethod ∧ ¬ opened then none
  if Nat.pow 2 64 ≤ r.start + base then none
  return ({ r with start := r.start + base }, next)

/-- So many records from a position on. -/
def recordsFrom? (bytes : ByteArray) (base : Nat) : Nat → Nat → Option (List Record)
  | 0, _ => some []
  | count + 1, position => do
    let (r, next) ← record? bytes base position
    let rest ← recordsFrom? bytes base count next
    return r :: rest

/-- The records of the directory of an archive, in order. -/
def records? (bytes : ByteArray) : Option (List Record) := do
  let layout ← layout? bytes
  recordsFrom? bytes layout.base layout.count layout.start

end Patchwork.Zip
