import Patchwork.Archive.Content
import Patchwork.Archive.File
import Patchwork.Proofs.FileMap
import Patchwork.Proofs.World

/-! Names of archive files.  The files that are read from an archive have names that name files
(`Archive.within_read`), and such names lead to no place above the one where they start
(`Place.base_of_staysBelow`).

Fields of archives.  A record is written field by field, and what is read at the position of a
field is the number that was written there (`Zip.Stands.number_eq`), if it fits the width of the field.  So
the fields of a record are read one after another (`Zip.Stands.reads`), and what has no fixed width is
cut out behind them (`Zip.Stands.slice?_eq`).

Archives are faithful.  What was written into an archive is read from it again: each record of the
directory tells the name, the size and the place of its entry (`Zip.record?_of_stands`), the local
record there leads to the bytes (`Zip.find_of_stands`), and the end record leads to the directory
(`Zip.layout?_of_stands`).  So the entries of an archive come back as they were
(`Zip.decode?_encode`), as long as the numbers fit their fields (`Zip.Fits`), and its files are those
that name files (`Archive.filesOf_of_decode`). -/

namespace Patchwork

/-! ## Names of archive files -/

/-- Names that stay below the place where they start lead to places below it.  The names
that were followed so far, and that two points may take back, are `extra`. -/
theorem Place.base_of_staysBelow {base extra : Place} {names : List String} (plain : "" ∉ names)
    (below : Archive.staysBelow extra.length names) :
    base <+: names.foldl step (base ++ extra) := by
  induction names generalizing extra with
  | nil => exact List.prefix_append base extra
  | cons name names ih =>
    obtain ⟨named, plain⟩ := List.ne_and_not_mem_of_not_mem_cons plain
    rw [List.foldl_cons]
    rw [Archive.staysBelow.eq_def] at below
    dsimp only at below
    split at below
    · rename_i up
      -- two points take back the last name of `extra`; with none left the check fails
      rcases List.eq_nil_or_concat extra with rfl | ⟨front, last, rfl⟩
      · cases below
      · have back : step (base ++ front.concat last) name = base ++ front := by
          rw [up, List.concat_eq_append, ← List.append_assoc]
          exact List.dropLast_concat
        rw [List.length_concat] at below
        exact back ▸ ih plain below
    split at below
    · rename_i point
      rw [point]
      exact ih plain below
    · rename_i up point
      have on : step (base ++ extra) name = base ++ (extra ++ [name]) := by
        rw [step, if_neg (by simp [Path.isIdle, point, Ne.symm named]), if_neg up,
          List.append_assoc]
      rw [on]
      exact ih plain (by rwa [List.length_append])

namespace Archive

/-- Whether all files have names that name files. -/
def NamesFiles (files : FileMap) : Prop := ∀ name ∈ files, isFileName name

theorem isFileName_of_fileOf? {archive : String} {bytes : ByteArray} {index : Nat} {r : Zip.Record}
    {entry : Zip.Entry} (h : fileOf? archive bytes index r = .ok (some entry)) :
    isFileName entry.1 := by
  obtain ⟨packed, -, h⟩ := bind_eq_ok_iff.mp h
  split at h
  · rename_i named
    obtain ⟨content, -, h⟩ := bind_eq_ok_iff.mp h
    cases h
    exact named
  · cases h

theorem namesFiles_of_filesOf {archive : String} {bytes : ByteArray} {records : List Zip.Record}
    {files : FileMap} (h : filesOf archive bytes records = .ok files) : NamesFiles files := by
  obtain ⟨found, hfound, h⟩ := bind_eq_ok_iff.mp h
  cases h
  intro name hname
  obtain ⟨entry, hentry, rfl⟩ := List.mem_map.mp (FileMap.mem_ofFiles.mp hname)
  obtain ⟨_, hsome, rfl⟩ := List.mem_filterMap.mp hentry
  obtain ⟨⟨r, index⟩, -, read⟩ := exists_of_mapM_eq_ok hfound hsome
  exact isFileName_of_fileOf? read

theorem within_opened {here : Place} {places : Place → Prop} (p : Path) :
    Action.Within here places (opened p) fun _ => True := by
  refine .bind (.ask _ _) fun node _ => ?_
  split
  · split
    · exact .pure trivial
    · exact .throw _
  · exact .throw _

/-- Reading an archive changes nothing, and its files have names that name files. -/
theorem within_read {here : Place} {places : Place → Prop} (p : Path) :
    Action.Within here places (read p) NamesFiles :=
  .bind (within_opened p) fun _ _ => Action.Within.imp (.ofOutcome _) fun _ => namesFiles_of_filesOf

end Archive

namespace Zip

/-! ## Fields of archives -/

theorem length_littleEndian (width value : Nat) : (littleEndian width value).length = width := by
  induction width generalizing value with
  | zero => rfl
  | succ width ih => rw [littleEndian, List.length_cons, ih]

/-! ## Bytes one by one -/

theorem toList_loop (bytes : ByteArray) (position : Nat) (taken : List UInt8) :
    ByteArray.toList.loop bytes position taken =
      taken.reverse ++ bytes.data.toList.drop position := by
  fun_induction ByteArray.toList.loop bytes position taken with
  | case1 position taken inside ih =>
    have listed : position < bytes.data.toList.length := by
      rwa [Array.length_toList]
    have byte : bytes.get! position = bytes.data.toList[position] := by
      rw [Array.getElem_toList, ← getElem!_pos]
      rfl
    rw [ih, List.drop_eq_getElem_cons listed, byte, List.reverse_cons, List.append_assoc]
    rfl
  | case2 position taken out =>
    have beyond : bytes.data.toList.length ≤ position := by
      rw [Array.length_toList]
      exact Nat.le_of_not_lt out
    rw [List.drop_eq_nil_of_le beyond, List.append_nil]

theorem toList_eq (bytes : ByteArray) : bytes.toList = bytes.data.toList := toList_loop bytes 0 []

theorem length_toList (bytes : ByteArray) : bytes.toList.length = bytes.size := by
  rw [toList_eq]
  exact Array.length_toList

theorem mk_toList (bytes : ByteArray) : (⟨bytes.toList.toArray⟩ : ByteArray) = bytes := by
  rw [toList_eq]

/-! ## What stands in some bytes -/

/-- **Whether something stands in some bytes** from a position on. -/
def Stands (bytes : ByteArray) (position : Nat) (chunk : List UInt8) : Prop :=
  ∃ front back, bytes.data.toList = front ++ (chunk ++ back) ∧ front.length = position

namespace Stands
variable {bytes : ByteArray} {position : Nat} {chunk more : List UInt8}

theorem whole (chunk : List UInt8) : Stands ⟨chunk.toArray⟩ 0 chunk :=
  ⟨[], [], (List.append_nil chunk).symm, rfl⟩

theorem left (h : Stands bytes position (chunk ++ more)) : Stands bytes position chunk := by
  obtain ⟨front, back, whole, at_⟩ := h
  exact ⟨front, more ++ back, by rw [whole, List.append_assoc], at_⟩

theorem right (h : Stands bytes position (chunk ++ more)) :
    Stands bytes (position + chunk.length) more := by
  obtain ⟨front, back, whole, at_⟩ := h
  refine ⟨front ++ chunk, back, ?_, by rw [List.length_append, at_]⟩
  rw [whole, List.append_assoc, List.append_assoc]

theorem le_size (h : Stands bytes position chunk) : position + chunk.length ≤ bytes.size := by
  obtain ⟨front, back, whole, at_⟩ := h
  have size : bytes.data.toList.length = bytes.size := Array.length_toList
  rw [whole, List.length_append, List.length_append] at size
  omega

theorem getElem? {byte : UInt8} (h : Stands bytes position (byte :: chunk)) :
    bytes[position]? = some byte := by
  obtain ⟨front, back, whole, at_⟩ := h
  have listed : bytes.data.toList[position]? = some byte := by
    rw [whole, ← at_, List.getElem?_append_right (Nat.le_refl _), Nat.sub_self]
    rfl
  rw [Array.getElem?_toList] at listed
  exact listed

/-- A number is read as it was written, if it fits the width of its field. -/
theorem number_eq {width value : Nat} (h : Stands bytes position (littleEndian width value))
    (fits : value < Nat.pow 256 width) : number bytes position width = value := by
  induction width generalizing position value with
  | zero => exact (Nat.lt_one_iff.mp fits).symm
  | succ width ih =>
    rw [littleEndian] at h
    have rest : value / 256 < Nat.pow 256 width :=
      Nat.div_lt_of_lt_mul (Nat.mul_comm _ _ ▸ fits)
    have low : (UInt8.ofNat value).toNat = value % 256 := by simp
    have behind : Stands bytes (position + 1) (littleEndian width (value / 256)) :=
      @right bytes position [_] _ h
    rw [number, h.getElem?, ih behind rest, Option.getD_some, low]
    exact Nat.mod_add_div value 256

theorem extract_eq (h : Stands bytes position chunk) :
    bytes.extract position (position + chunk.length) = ⟨chunk.toArray⟩ := by
  obtain ⟨front, back, whole, at_⟩ := h
  refine ByteArray.ext (Array.toList_inj.mp ?_)
  rw [ByteArray.data_extract, Array.toList_extract, whole, List.extract_eq_take_drop, ← at_,
    Nat.add_sub_cancel_left, List.drop_left, List.take_left]

theorem slice?_eq (h : Stands bytes position chunk) :
    slice? bytes position chunk.length = some ⟨chunk.toArray⟩ := by
  rw [slice?, if_pos h.le_size, h.extract_eq]

end Stands

/-! ## Records of fields -/

/-- Numbers one after another, each with the width of its field. -/
def fieldBytes (fields : List (Nat × Nat)) : List UInt8 :=
  fields.flatMap fun field => littleEndian field.1 field.2

/-- **Whether some numbers stand one after another** from a position on, each in a field of its width. -/
def Reads (bytes : ByteArray) : Nat → List (Nat × Nat) → Prop
  | _, [] => True
  | position, (width, value) :: fields =>
    number bytes position width = value ∧ Reads bytes (position + width) fields

/-- **What was written field by field is read so**, if each number fits the width of its field. -/
theorem Stands.reads {bytes : ByteArray} {position : Nat} {fields : List (Nat × Nat)}
    {more : List UInt8} (h : Stands bytes position (fieldBytes fields ++ more))
    (fits : ∀ field ∈ fields, field.2 < Nat.pow 256 field.1) : Reads bytes position fields := by
  induction fields generalizing position with
  | nil => trivial
  | cons field fields ih =>
    obtain ⟨first, others⟩ := List.forall_mem_cons.mp fits
    rw [fieldBytes, List.flatMap_cons, List.append_assoc] at h
    have behind := h.right
    rw [length_littleEndian] at behind
    exact ⟨h.left.number_eq first, ih behind others⟩

theorem number?_of_le {bytes : ByteArray} {position width value : Nat}
    (read : number bytes position width = value) (room : position + width ≤ bytes.size) :
    number? bytes position width = some value := by
  rw [number?, if_pos room, read]

theorem marked_of_le {bytes : ByteArray} {position mark : Nat}
    (read : number bytes position 4 = mark) (room : position + 4 ≤ bytes.size) :
    marked bytes position mark := by
  rw [marked, number?_of_le read room]
  exact beq_self_eq_true _

end Zip

namespace Zip
variable {bytes : ByteArray} {entries : List Entry} {entry : Entry} {offset position : Nat}
  {more : List UInt8}

/-! ## The records of an entry -/

/-- The local record of an entry, field by field. -/
def localFields (entry : Entry) : List (Nat × Nat) :=
  [(4, localMark), (2, 20), (2, 0x0800), (2, 0), (2, 0), (2, 0x21), (4, (Digest.crc32 entry.2).toNat),
    (4, entry.2.size), (4, entry.2.size), (2, entry.1.utf8ByteSize), (2, 0)]

/-- The record of an entry in the directory, field by field. -/
def centralFields (entry : Entry) (offset : Nat) : List (Nat × Nat) :=
  [(4, centralMark), (2, 20), (2, 20), (2, 0x0800), (2, 0), (2, 0), (2, 0x21),
    (4, (Digest.crc32 entry.2).toNat), (4, entry.2.size), (4, entry.2.size),
    (2, entry.1.utf8ByteSize), (2, 0), (2, 0), (2, 0), (2, 0), (4, 0), (4, offset)]

/-- The end record, field by field. -/
def endFields (count size offset : Nat) : List (Nat × Nat) :=
  [(4, endMark), (2, 0), (2, 0), (2, count), (2, count), (4, size), (4, offset), (2, 0)]

theorem localRecord_eq (entry : Entry) : localRecord entry =
    fieldBytes (localFields entry) ++ (entry.1.toUTF8.toList ++ entry.2.toList) := by
  simp [localRecord, common, fieldBytes, localFields]

theorem centralRecord_eq (entry : Entry) (offset : Nat) : centralRecord entry offset =
    fieldBytes (centralFields entry offset) ++ entry.1.toUTF8.toList := by
  simp [centralRecord, common, fieldBytes, centralFields]

theorem endRecord_eq (count size offset : Nat) :
    endRecord count size offset = fieldBytes (endFields count size offset) := by
  simp [endRecord, fieldBytes, endFields]

theorem length_toUTF8 (s : String) : s.toUTF8.toList.length = s.utf8ByteSize := length_toList _

theorem length_localRecord (entry : Entry) :
    (localRecord entry).length = 30 + entry.1.utf8ByteSize + entry.2.size := by
  simp only [localRecord, common, List.length_append, length_littleEndian, length_toList]
  rfl

theorem length_centralRecord (entry : Entry) (offset : Nat) :
    (centralRecord entry offset).length = 46 + entry.1.utf8ByteSize := by
  simp only [centralRecord, common, List.length_append, length_littleEndian, length_toList]
  rfl

theorem Stands.behind_central (stands : Stands bytes position (centralRecord entry offset ++ more)) :
    Stands bytes (position + 46) (entry.1.toUTF8.toList ++ more) := by
  rw [centralRecord_eq, List.append_assoc] at stands
  have fields : (fieldBytes (centralFields entry offset)).length = 46 := by
    simp [fieldBytes, centralFields, length_littleEndian]
  exact fields ▸ stands.right

theorem Stands.behind_local (stands : Stands bytes position (localRecord entry ++ more)) :
    Stands bytes (position + 30) (entry.1.toUTF8.toList ++ (entry.2.toList ++ more)) := by
  rw [localRecord_eq, List.append_assoc, List.append_assoc] at stands
  have fields : (fieldBytes (localFields entry)).length = 30 := by
    simp [fieldBytes, localFields, length_littleEndian]
  exact fields ▸ stands.right

/-- **Whether the numbers of an entry fit their fields**, when its local record begins at an offset. -/
structure Entry.Fits (entry : Entry) (offset : Nat) : Prop where
  name : entry.1.utf8ByteSize < Nat.pow 256 2
  size : entry.2.size < Nat.pow 256 4
  offset : offset < Nat.pow 256 4

theorem check_lt (entry : Entry) : (Digest.crc32 entry.2).toNat < Nat.pow 256 4 := UInt32.toNat_lt _

theorem Stands.reads_central (stands : Stands bytes position (centralRecord entry offset ++ more))
    (fits : Entry.Fits entry offset) : Reads bytes position (centralFields entry offset) := by
  rw [centralRecord_eq, List.append_assoc] at stands
  refine stands.reads ?_
  have mark : centralMark < Nat.pow 256 4 := by decide
  simp [centralFields, mark, check_lt entry, fits.name, fits.size, fits.offset]

theorem Stands.reads_local (stands : Stands bytes position (localRecord entry ++ more))
    (fits : Entry.Fits entry offset) : Reads bytes position (localFields entry) := by
  rw [localRecord_eq, List.append_assoc] at stands
  refine stands.reads ?_
  have mark : localMark < Nat.pow 256 4 := by decide
  simp [localFields, mark, check_lt entry, fits.name, fits.size]

/-! ## Reading an entry -/

/-- What the directory tells about an entry whose local record begins at an offset. -/
def recordOf (entry : Entry) (offset : Nat) : Record where
  name := entry.1
  encrypted := false
  method := 0
  check := (Digest.crc32 entry.2).toNat
  size := entry.2.size
  fullSize := entry.2.size
  start := offset

theorem nameOf_toUTF8 (s : String) : nameOf 0x0800 ⟨s.toUTF8.toList.toArray⟩ = s := by
  have text : String.fromUTF8? s.toUTF8 = some s := FileMap.text?_toUTF8 s
  rw [nameOf, if_pos (by decide), mk_toList, Text.ofBytesLossy, text]

/-- Without extra data nothing is changed about an entry. -/
theorem withExtra_empty (fuel : Nat) (opened : Bool) (r : Record) :
    withExtra ⟨[].toArray⟩ fuel 0 opened r = some (r, opened) := by
  cases fuel <;> rfl

/-- **A record of the directory is read as it was written.** -/
theorem record?_of_stands (stands : Stands bytes position (centralRecord entry offset ++ more))
    (fits : Entry.Fits entry offset) : record? bytes 0 position =
      some (recordOf entry offset, position + (centralRecord entry offset).length) := by
  have room := stands.left.le_size
  rw [length_centralRecord] at room ⊢
  have reads := stands.reads_central fits
  simp only [centralFields, Reads, Nat.add_assoc, Nat.reduceAdd] at reads
  obtain ⟨mark, -, -, flags, method, -, -, check, size, fullSize, nameLength, extraLength,
    commentLength, -, -, -, start, -⟩ := reads
  have mark : marked bytes position centralMark := marked_of_le mark (by omega)
  have behind := stands.behind_central
  have name : slice? bytes (position + 46) entry.1.utf8ByteSize =
      some ⟨entry.1.toUTF8.toList.toArray⟩ := by
    rw [← length_toUTF8]
    exact behind.left.slice?_eq
  have extra : slice? bytes (position + 46 + entry.1.utf8ByteSize) 0 = some ⟨[].toArray⟩ := by
    rw [← length_toUTF8]
    exact @Stands.slice?_eq _ _ [] (@Stands.left _ _ [] more behind.right)
  have inside : ¬ bytes.size < position + 46 + entry.1.utf8ByteSize + 0 + 0 := by omega
  have far : ¬ Nat.pow 2 64 ≤ offset + 0 := by
    have near : offset < Nat.pow 256 4 := fits.offset
    have limit : Nat.pow 256 4 ≤ Nat.pow 2 64 := by decide
    omega
  unfold record?
  rw [if_neg (not_not_intro mark)]
  dsimp only
  rw [nameLength, extraLength, commentLength, flags, method, check, size, fullSize, start, name,
    Option.bind_eq_bind, Option.bind_some, nameOf_toUTF8, extra, Option.bind_some, if_neg inside,
    withExtra_empty, Option.bind_eq_bind, Option.bind_some]
  dsimp only
  rw [if_neg (fun encrypted => nomatch encrypted.1), if_neg far, Nat.add_assoc position]
  rfl

/-- **An entry is found by its local record.** -/
theorem find_of_stands (stands : Stands bytes offset (localRecord entry ++ more))
    (fits : Entry.Fits entry offset) : (recordOf entry offset).find bytes =
      .ok ⟨false, (Digest.crc32 entry.2).toNat, entry.2⟩ := by
  have room := stands.left.le_size
  rw [length_localRecord] at room
  have reads := stands.reads_local fits
  simp only [localFields, Reads, Nat.add_assoc, Nat.reduceAdd] at reads
  obtain ⟨mark, -, -, -, -, -, -, -, -, nameLength, extraLength, -⟩ := reads
  have near : ¬ Nat.pow 2 63 ≤ (recordOf entry offset).start := by
    have near : offset < Nat.pow 256 4 := fits.offset
    have limit : Nat.pow 256 4 ≤ Nat.pow 2 63 := by decide
    exact Nat.not_le.mpr (Nat.lt_of_lt_of_le near limit)
  have content : bytes.extract (offset + 30 + entry.1.utf8ByteSize + 0)
      (offset + 30 + entry.1.utf8ByteSize + 0 + entry.2.size) = entry.2 := by
    have behind := stands.behind_local.right.left
    rw [length_toUTF8] at behind
    rw [← length_toList]
    exact behind.extract_eq.trans (mk_toList _)
  have inside : ∀ width ≤ 30, offset + width ≤ bytes.size := fun width _ => by omega
  have plain : ¬ (recordOf entry offset).encrypted = true := Bool.false_ne_true
  have mark : number? bytes (recordOf entry offset).start 4 = some localMark :=
    number?_of_le mark (inside 4 (by omega))
  have nameLength : number? bytes ((recordOf entry offset).start + 26) 2 =
    some entry.1.utf8ByteSize := number?_of_le nameLength (inside 28 (by omega))
  have extraLength : number? bytes ((recordOf entry offset).start + 28) 2 = some 0 :=
    number?_of_le extraLength (inside 30 (by omega))
  unfold Record.find
  rw [if_neg plain, if_neg near, mark]
  dsimp only
  rw [if_neg (not_not_intro rfl), nameLength]
  dsimp only
  rw [extraLength]
  dsimp only
  rw [if_pos (by rfl)]
  exact congrArg (fun found => Except.ok (Packed.mk false _ found)) content

/-- An entry is unpacked to what was written. -/
theorem whole_unpack (content : ByteArray) :
    (Packed.unpack ⟨false, (Digest.crc32 content).toNat, content⟩).whole = .ok content := by
  rw [Packed.unpack, if_neg Bool.false_ne_true, Packed.checked, if_pos rfl]
  rfl

/-! ## The directory -/

/-- What the directory tells about entries whose local records stand one after another. -/
def recordsOf : Nat → List Entry → List Record
  | _, [] => []
  | offset, entry :: entries =>
    recordOf entry offset :: recordsOf (offset + (localRecord entry).length) entries

/-- **Whether the numbers of entries fit their fields**, when their local records begin at an offset. -/
structure EntriesFit (entries : List Entry) (offset : Nat) : Prop where
  names : ∀ entry ∈ entries, entry.1.utf8ByteSize < Nat.pow 256 2
  records : offset + (localRecords entries).length < Nat.pow 256 4

theorem EntriesFit.first (h : EntriesFit (entry :: entries) offset) : Entry.Fits entry offset := by
  have room := h.records
  rw [localRecords, List.flatMap_cons, List.length_append, length_localRecord] at room
  exact ⟨h.names entry List.mem_cons_self, by omega, by omega⟩

theorem EntriesFit.others (h : EntriesFit (entry :: entries) offset) :
    EntriesFit entries (offset + (localRecord entry).length) := by
  refine ⟨fun other listed => h.names other (.tail _ listed), ?_⟩
  have room := h.records
  rwa [localRecords, List.flatMap_cons, List.length_append, ← Nat.add_assoc] at room

/-- The records of a directory are read one after another. -/
theorem recordsFrom?_of_stands (stands : Stands bytes position (directory offset entries))
    (fit : EntriesFit entries offset) : recordsFrom? bytes 0 entries.length position =
      some (recordsOf offset entries) := by
  induction entries generalizing offset position with
  | nil => rfl
  | cons entry entries ih =>
    rw [directory] at stands
    rw [List.length_cons, recordsFrom?, record?_of_stands stands fit.first, Option.bind_eq_bind,
      Option.bind_some]
    dsimp only
    rw [ih stands.right fit.others]
    rfl

/-- **Whether entries fit into an archive**: their numbers fit their fields, and nothing of theirs is
taken for the record that tells where a wider end record is. -/
structure Fits (entries : List Entry) : Prop extends EntriesFit entries 0 where
  count : entries.length < Nat.pow 256 2
  directory : (directory 0 entries).length < Nat.pow 256 4
  plain : ¬ marked (encode entries) ((encode entries).size - (locatorLength + endLength)) locatorMark

theorem stands_encode (entries : List Entry) : Stands (encode entries) 0
    (localRecords entries ++ (Zip.directory 0 entries ++ endRecord entries.length
      (Zip.directory 0 entries).length (localRecords entries).length)) := by
  rw [← List.append_assoc]
  exact .whole _

theorem size_encode (entries : List Entry) : (encode entries).size =
    (localRecords entries).length + (Zip.directory 0 entries).length + endLength := by
  have ends : ∀ count size offset, (endRecord count size offset).length = endLength := by
    intro count size offset
    simp only [endRecord, List.length_append, length_littleEndian]
    rfl
  rw [← length_toList, toList_eq, encode, List.toList_toArray, List.length_append,
    List.length_append, ends]

/-- **The end record leads to the directory**, if no record in front of it tells another place. -/
theorem layout?_of_stands {count length start : Nat} (ended : start + length = position)
    (counted : count < Nat.pow 256 2) (limit : length < Nat.pow 256 4)
    (near : start < Nat.pow 256 4) (stands : Stands bytes position (endRecord count length start))
    (size : bytes.size = position + 22)
    (plain : ¬ marked bytes (bytes.size - (locatorLength + endLength)) locatorMark) :
    layout? bytes = some ⟨0, start, count⟩ := by
  rw [endRecord_eq, ← List.append_nil (fieldBytes _)] at stands
  have mark : endMark < Nat.pow 256 4 := by decide
  have reads := stands.reads (by simp [endFields, mark, counted, limit, near])
  simp only [endFields, Reads, Nat.add_assoc, Nat.reduceAdd] at reads
  obtain ⟨mark, disk, directoryDisk, here, -, sized, began, comment, -⟩ := reads
  have mark : marked bytes position endMark := marked_of_le mark (by omega)
  have found : lastEnd? bytes commentLimit (bytes.size - endLength) = some position := by
    have last : bytes.size - endLength = position := by
      rw [size]
      exact Nat.add_sub_cancel position 22
    rw [last, commentLimit, lastEnd?, if_pos mark]
  have blank : ∃ rest, slice? bytes (position + endLength) (number bytes (position + 20) 2) =
      some rest := by
    refine ⟨_, if_pos ?_⟩
    rw [comment, size]
    exact Nat.le_refl _
  obtain ⟨rest, blank⟩ := blank
  unfold layout?
  rw [if_neg (by rw [size]; exact Nat.not_lt.mpr (Nat.le_add_left 22 position)), found,
    Option.bind_eq_bind, Option.bind_some]
  dsimp only
  rw [blank, Option.bind_eq_bind, Option.bind_some,
    if_neg fun apart => apart.2 (disk.trans directoryDisk.symm),
    if_neg fun told => plain (by simpa only [comment, Nat.add_zero] using told.2),
    if_pos (by omega), sized, began, here]
  have base : position - (length + start) = 0 := by omega
  have first : position - length = start := by omega
  rw [base, first]

theorem records?_encode (fits : Fits entries) :
    records? (encode entries) = some (recordsOf 0 entries) := by
  have stands := (stands_encode entries).right
  rw [Nat.zero_add] at stands
  have records : (localRecords entries).length < Nat.pow 256 4 := by
    simpa only [Nat.zero_add] using fits.records
  have layout := layout?_of_stands rfl fits.count fits.directory records stands.right
    (size_encode entries) fits.plain
  rw [records?, layout, Option.bind_eq_bind, Option.bind_some]
  exact recordsFrom?_of_stands stands.left fits.toEntriesFit

theorem mapM_read (stands : Stands bytes offset (localRecords entries)) (fit : EntriesFit entries offset) :
    ((recordsOf offset entries).mapM fun r =>
      match r.read bytes with
      | .ok content => some (r.name, content)
      | .error _ => none) = some entries := by
  induction entries generalizing offset with
  | nil => rfl
  | cons entry entries ih =>
    rw [localRecords, List.flatMap_cons] at stands
    have read : (recordOf entry offset).read bytes = .ok entry.2 := by
      rw [Record.read, find_of_stands stands fit.first, ok_bind, whole_unpack]
    rw [recordsOf, List.mapM_cons, read, ih stands.right fit.others]
    rfl

/-- **An archive whose entries fit** gives back their names and bytes as they were. -/
theorem decode?_encode (fits : Fits entries) : decode? (encode entries) = some entries := by
  rw [decode?, records?_encode fits]
  exact mapM_read (stands_encode entries).left fits.toEntriesFit

end Zip

/-! ## The files of an archive -/

namespace Archive
open Zip
variable {bytes content : ByteArray} {entries : List Entry} {r : Record}

/-- An entry that can be read is one of the files if its name is one of a file. -/
theorem fileOf?_of_read (archive : String) (index : Nat) (read : r.read bytes = .ok content) :
    fileOf? archive bytes index r = .ok (if isFileName r.name then some (r.name, content) else none) := by
  obtain ⟨packed, found, whole⟩ := bind_eq_ok_iff.mp read
  rw [fileOf?, found, outcomeOf, ok_bind, whole]
  split <;> rfl

theorem mapM_fileOf? {records : List Record} (archive : String) (start : Nat)
    (decoded : (records.mapM fun r =>
      match r.read bytes with
      | .ok content => some (r.name, content)
      | .error _ => none) = some entries) :
    (records.zipIdx start).mapM (fun (r, index) => fileOf? archive bytes index r) =
      .ok (entries.map fun entry => if isFileName entry.1 then some entry else none) := by
  induction records generalizing start entries with
  | nil =>
    cases decoded
    rfl
  | cons r records ih =>
    rw [List.mapM_cons] at decoded
    rcases read : r.read bytes with e | content <;> rw [read] at decoded
    · cases decoded
    obtain ⟨entry, first, decoded⟩ := Option.bind_eq_some_iff.mp decoded
    obtain ⟨others, rest, decoded⟩ := Option.bind_eq_some_iff.mp decoded
    cases first
    cases decoded
    rw [List.zipIdx_cons, List.mapM_cons]
    dsimp only
    rw [fileOf?_of_read archive start read, ok_bind, ih _ rest]
    rfl

/-- **The files of an archive** whose entries can be read are those that name files. -/
theorem filesOf_of_decode (decoded : decode? bytes = some entries) :
    ∃ records, records? bytes = some records ∧ ∀ archive, filesOf archive bytes records =
      .ok (FileMap.ofFiles (entries.filter fun entry => isFileName entry.1)) := by
  obtain ⟨records, told, decoded⟩ := Option.bind_eq_some_iff.mp decoded
  refine ⟨records, told, fun archive => ?_⟩
  rw [filesOf, mapM_fileOf? archive 0 decoded, ok_bind, List.filterMap_map]
  have kept : (id ∘ fun entry : Entry => if isFileName entry.1 then some entry else none) =
      Option.guard fun entry => isFileName entry.1 := by
    funext entry
    simp only [Function.comp_apply, id_eq, Option.guard]
  rw [kept, List.filterMap_eq_filter]
  rfl

end Archive
end Patchwork
