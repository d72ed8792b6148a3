import Patchwork.Proofs.Assets.Check
import Patchwork.Proofs.Disk.Trees
import Patchwork.Proofs.Download.Landed
import Patchwork.Assets.Store

/-! Where the objects of a store lie.  An object lies two names below the directory of objects: in its
bucket, under its digest (`AssetObject.place_object`).  So two objects lie at or below one another
only if they have one digest (`AssetObject.eq_of_prefix`), and the file of an index, which ends
otherwise, is the file of no object (`AssetObject.ne_indexFile`). -/

namespace Patchwork
open Disk

namespace Path
variable {p : Path} {name rest : String}

/-- A text that starts with a name is followed name by name. -/
theorem join_append (named : IsName name) (relative : ¬ Text.startsWith "/" rest) (p : Path) :
    p.join (name ++ "/" ++ rest) = (p.join name).join rest := by
  have single : "/".toList = ['/'] := by decide
  obtain ⟨c, cs, chars⟩ := List.exists_cons_of_ne_nil (mt String.toList_eq_nil_iff.mp named.ne_empty)
  have apart : c ≠ '/' := fun same => named.slashless (by simp [chars, same])
  have starts : ¬ Text.startsWith "/" (name ++ "/" ++ rest) := by
    rw [Text.startsWith_iff single, String.toList_append, String.toList_append, chars]
    exact fun first => apart (Option.some.inj first)
  have open' : (p.join name).endsInSlash = false := by
    rw [Bool.eq_false_iff]
    intro slash
    obtain ⟨front, whole⟩ := Option.isSome_iff_exists.mp slash
    have whole := Text.before?_eq_some_iff.mp whole
    have last : (p.join name).text.toList.getLast? = some '/' := by simp [whole, single]
    have ends : (p.join name).text.toList.getLast? = name.toList.getLast? := by
      rcases exists_text_join named.relative p with ⟨-, text⟩ | ⟨front, -, -, text⟩
      · rw [text]
      · rw [text, String.toList_append, List.getLast?_append, chars, List.getLast?_cons]
        rfl
    exact named.slashless (List.mem_of_getLast? (ends ▸ last))
  have text : (p.join name).text ≠ "" := text_join_ne_empty named p
  have second : (p.join name).join rest = ⟨(p.join name).text ++ "/" ++ rest⟩ := by
    rw [join, if_neg (not_or.mpr ⟨relative, text⟩), if_neg (Bool.eq_false_iff.mp open')]
  rw [second]
  unfold join
  by_cases blank : p.text = ""
  · rw [if_pos (.inr blank), if_pos (.inr blank)]
  · rw [if_neg (not_or.mpr ⟨starts, blank⟩), if_neg (not_or.mpr ⟨named.relative, blank⟩)]
    split <;> simp [String.append_assoc]

/-- What ends otherwise than in points has that end under the name it leads to. -/
theorem exists_place_of_ending {front ending : String} (text : p.text = front ++ ending)
    (slashless : '/' ∉ ending.toList) (long : 2 < ending.toList.length) (here : Place) :
    ∃ above name, p.place here = above ++ [name ++ ending] := by
  obtain ⟨before, last, -, pieces⟩ := Text.exists_pieces_append slashless front
  have apart : ∀ other : String, other.toList.length ≤ 2 → last ++ ending ≠ other := by
    rintro other short rfl
    rw [String.toList_append, List.length_append] at short
    omega
  have plain : isIdle (last ++ ending) = false := by
    simp [isIdle, apart "" (by decide), apart "." (by decide)]
  have step (start : Place) : Place.step start (last ++ ending) = start ++ [last ++ ending] := by
    rw [Place.step, if_neg (by simp [plain]), if_neg (apart ".." (by decide))]
  rw [place, text, pieces, List.foldl_append, List.foldl_cons, List.foldl_nil, step]
  exact ⟨_, _, rfl⟩

/-- What is written behind another path ends the text. -/
theorem exists_text_eq_append (p : Path) (rest : String) : ∃ front, (p.join rest).text = front ++ rest := by
  unfold join
  split
  · exact ⟨"", (String.empty_append).symm⟩
  split
  · exact ⟨_, rfl⟩
  · exact ⟨_, rfl⟩

end Path

namespace AssetObject
variable {o p : AssetObject}

/-- The directory that an object lies in, below the directory of objects. -/
def bucket (o : AssetObject) : String := String.ofList (o.fileName.toList.take 2)

theorem bucketPath_eq (o : AssetObject) : o.bucketPath = o.bucket ++ "/" ++ o.fileName := rfl

theorem isHexDigit_of_mem_fileName (valid : o.isValid) :
    ∀ c ∈ o.fileName.toList, Checksum.isHexDigit c := by
  exact Checksum.isHexDigit_of_mem_toLower (isHexDigit_of_mem_hash valid)

theorem fileName_ne_empty (valid : o.isValid) : o.fileName ≠ "" := by
  intro empty
  rw [fileName, ← String.toList_eq_nil_iff, Text.toList_toLower, List.map_eq_nil_iff,
    String.toList_eq_nil_iff] at empty
  unfold isValid at valid
  rw [empty] at valid
  exact absurd valid (by decide)

/-- Digits make a name. -/
theorem isName_of_digits {name : String} (ne : name ≠ "")
    (digits : ∀ c ∈ name.toList, Checksum.isHexDigit c) : Path.IsName name := by
  have other : ∀ c ∈ name.toList, c ≠ '.' ∧ c ≠ '/' := by
    intro c listed
    constructor <;> rintro rfl <;> exact absurd (digits _ listed) (by decide)
  refine ⟨ne, ?_, ?_, fun slash => (other _ slash).2 rfl⟩ <;> rintro rfl <;>
    exact (other '.' (by decide)).1 rfl

theorem isName_fileName (valid : o.isValid) : Path.IsName o.fileName :=
  isName_of_digits (fileName_ne_empty valid) (isHexDigit_of_mem_fileName valid)

theorem isName_bucket (valid : o.isValid) : Path.IsName o.bucket := by
  refine isName_of_digits (fun empty => fileName_ne_empty valid ?_) fun c listed => ?_
  · rw [bucket, ← String.toList_eq_nil_iff, String.toList_ofList, List.take_eq_nil_iff] at empty
    exact String.toList_eq_nil_iff.mp (empty.resolve_left (by decide))
  · rw [bucket, String.toList_ofList] at listed
    exact isHexDigit_of_mem_fileName valid c (List.mem_of_mem_take listed)

theorem named (valid : o.isValid) : ∀ name ∈ [o.bucket, o.fileName], Path.IsName name :=
  List.forall_mem_cons.mpr ⟨isName_bucket valid,
    List.forall_mem_singleton.mpr (isName_fileName valid)⟩

variable {objects : Path} {here : Place}

/-- **An object lies two names below the directory of objects.** -/
theorem join_bucketPath (valid : o.isValid) (objects : Path) :
    objects.join o.bucketPath = objects.joinAll [o.bucket, o.fileName] := by
  rw [bucketPath_eq, Path.join_append (isName_bucket valid) (isName_fileName valid).relative,
    Path.joinAll_pair]

theorem parts_object (valid : o.isValid) :
    (objects.join o.bucketPath).parts = objects.parts ++ [o.bucket, o.fileName] := by
  rw [join_bucketPath valid, Path.parts_joinAll (named valid)]

theorem place_object (valid : o.isValid) :
    (objects.join o.bucketPath).place here = objects.place here ++ [o.bucket, o.fileName] := by
  rw [join_bucketPath valid, Path.place_joinAll (named valid)]

/-- The way to an object leads through the way to the directory of objects, and through its bucket. -/
theorem front_object {front : List String} (valid : o.isValid) :
    front <+: (objects.join o.bucketPath).parts ∧ front ≠ (objects.join o.bucketPath).parts ↔
      front <+: objects.parts ∨ front = objects.parts ++ [o.bucket] := by
  have parts : (objects.join o.bucketPath).parts =
      objects.parts ++ [o.bucket] ++ [o.fileName] := by
    rw [parts_object valid, List.append_assoc]
    rfl
  rw [parts]
  constructor
  · rintro ⟨above, proper⟩
    have above := prefix_dropLast above proper
    rw [List.dropLast_concat] at above
    by_cases last : front = objects.parts ++ [o.bucket]
    · exact .inr last
    · have above := prefix_dropLast above last
      rw [List.dropLast_concat] at above
      exact .inl above
  · intro above
    have above : front <+: objects.parts ++ [o.bucket] := by
      rcases above with above | rfl
      · exact above.trans (List.prefix_append _ _)
      · exact List.prefix_rfl
    refine ⟨above.trans (List.prefix_append _ _), ?_⟩
    rintro rfl
    have shorter := above.length_le
    simp at shorter

theorem stop_object (valid : o.isValid) (d : Disk) (front : List String) :
    d.stop (objects.join o.bucketPath) front = d.stop objects front := by
  rw [stop, stop, Disk.start, Disk.start, join_bucketPath valid,
    Path.isAbsolute_joinAll (named valid)]

theorem stop_bucket (valid : o.isValid) (d : Disk) :
    d.stop objects (objects.parts ++ [o.bucket]) = objects.place d.here ++ [o.bucket] := by
  have name := isName_bucket valid
  have last : d.stop objects (objects.parts ++ [o.bucket]) =
      Place.step (d.stop objects objects.parts) o.bucket := by
    rw [stop, stop, List.foldl_append]
    rfl
  rw [last, stop_parts, Place.step, if_neg (by simp [name.not_idle]), if_neg name.ne_points]

/-- **Objects that lie at or below one another have one digest.** -/
theorem eq_of_prefix (valid : o.isValid) (valid' : p.isValid)
    (below : (objects.join o.bucketPath).place here <+: (objects.join p.bucketPath).place here) :
    o.fileName = p.fileName := by
  rw [place_object valid, place_object valid', List.prefix_append_right_inj] at below
  have same := below.eq_of_length rfl
  exact (List.cons.inj (List.cons.inj same).2).1

/-- **The file of an index is the file of no object.** -/
theorem ne_indexFile (valid : o.isValid) (objects : Path) (here : Place) (s : AssetStore)
    (tag : String) :
    (objects.join o.bucketPath).place here ≠ (s.indexFile tag).place here := by
  obtain ⟨front, text⟩ :=
    Path.exists_text_eq_append (s.root.join "indexes") (LocatedAssets.indexName tag)
  have text : (s.indexFile tag).text = front ++ tag ++ ".json" := by
    rw [AssetStore.indexFile, text, LocatedAssets.indexName, String.append_assoc]
  obtain ⟨above, name, place⟩ :=
    Path.exists_place_of_ending text (by decide) (by decide) here
  have ends : o.fileName ≠ name ++ ".json" := by
    intro same
    have point : '.' ∈ o.fileName.toList := by
      rw [same, String.toList_append]
      exact List.mem_append_right _ (by decide)
    exact absurd (isHexDigit_of_mem_fileName valid _ point) (by decide)
  rw [place, place_object valid]
  intro same
  have last := congrArg List.getLast? same
  rw [List.getLast?_concat, List.getLast?_append, List.getLast?_cons] at last
  exact ends (Option.some.inj last)

end AssetObject
end Patchwork
