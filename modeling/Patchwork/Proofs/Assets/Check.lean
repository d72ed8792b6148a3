import Patchwork.Assets.Check
import Patchwork.Assets.Locate
import Patchwork.Proofs.Digest.Checksum
import Patchwork.Proofs.Disk.Behind
import Patchwork.Proofs.FileMap

/-! Objects that stand where an index expects them.  An object stands in a directory of objects when
the file in its bucket has its digest (`AssetObject.StandsIn`), which is what looking at it finds
(`stateIn_eq_verified_iff`).  The distinct objects of an index are one for each digest
(`pairwise_distinct`, `exists_mem_distinct`), so that a check which finds nothing wrong with them
covers every name of the index (`AssetCheck.isComplete_iff`). -/

namespace Patchwork

namespace AssetObject
variable {o p : AssetObject} {d : Disk} {objects : Path}

/-- The path of an object below the directory of objects: the first two digits, and the digest. -/
def bucketPath (o : AssetObject) : String :=
  String.ofList (o.hash.toLower.toList.take 2) ++ "/" ++ o.hash.toLower

/-- **Whether an object stands in a directory of objects**: there is a regular file in its bucket,
whose digest is the object's in any case. -/
def StandsIn (o : AssetObject) (d : Disk) (objects : Path) : Prop :=
  ∃ bytes, d.find (objects.join o.bucketPath) = .ok (.file bytes) ∧
    o.hash.toLower = DigestAlgorithm.sha1.compute bytes

/-- Only the digest says where an object stands. -/
theorem standsIn_congr (same : p.fileName = o.fileName) :
    p.StandsIn d objects ↔ o.StandsIn d objects := by
  have same : p.hash.toLower = o.hash.toLower := same
  unfold StandsIn bucketPath
  rw [same]

theorem path?_of_isValid (valid : o.isValid) : o.path? = some o.bucketPath := if_pos valid

theorem isHexDigit_of_mem_hash (valid : o.isValid) : ∀ c ∈ o.hash.toList, Checksum.isHexDigit c := by
  unfold isValid at valid
  exact List.all_eq_true.mp (Bool.and_eq_true_iff.mp valid).2

/-- The digits of an object's digest are no blanks, and so the digest stays as it is written. -/
theorem trim_hash (valid : o.isValid) : Text.trim o.hash = o.hash :=
  Text.trim_of_no_blank fun c listed =>
    Checksum.isBlank_of_isHexDigit (isHexDigit_of_mem_hash valid c listed)

/-- The digest of some bytes is accepted just where the object has it, in any case. -/
theorem accepts_checksum_iff (valid : o.isValid) {bytes : ByteArray} :
    o.checksum.accepts (DigestAlgorithm.sha1.compute bytes) ↔
      o.hash.toLower = DigestAlgorithm.sha1.compute bytes := by
  rw [Checksum.accepts_compute_iff, checksum, Checksum.of, trim_hash valid, Text.toLower_toLower]

/-- **Looking at an object finds it verified just where it stands.** -/
theorem stateIn_eq_verified_iff (valid : o.isValid) :
    o.stateIn d objects = .verified ↔ o.StandsIn d objects := by
  unfold stateIn
  rw [path?_of_isValid valid]
  dsimp only
  constructor
  · intro seen
    split at seen
    · rename_i bytes found
      split at seen
      · rename_i accepted
        exact ⟨bytes, found, (accepts_checksum_iff valid).mp accepted⟩
      · cases seen
    · cases seen
  · rintro ⟨bytes, found, digest⟩
    rw [found]
    exact if_pos ((accepts_checksum_iff valid).mpr digest)

end AssetObject

namespace AssetIndex
variable {os : List AssetObject} {o : AssetObject} {index : AssetIndex}

/-! ## Distinct objects -/

theorem mem_of_mem_distinct (listed : o ∈ distinct os) : o ∈ os := by
  induction os with
  | nil => exact listed
  | cons first os ih =>
    rcases List.mem_cons.mp listed with rfl | listed
    · exact List.mem_cons_self
    · exact .tail _ (ih (List.mem_filter.mp listed).1)

/-- Of each digest one object is among the distinct ones. -/
theorem exists_mem_distinct (listed : o ∈ os) : ∃ p ∈ distinct os, p.fileName = o.fileName := by
  induction os with
  | nil => cases listed
  | cons first os ih =>
    by_cases same : first.fileName = o.fileName
    · exact ⟨first, List.mem_cons_self, same⟩
    have listed : o ∈ os := (List.mem_cons.mp listed).resolve_left fun h => same (h ▸ rfl)
    obtain ⟨p, listed', digest⟩ := ih listed
    refine ⟨p, .tail _ (List.mem_filter.mpr ⟨listed', ?_⟩), digest⟩
    rw [digest, bne_iff_ne]
    exact fun h => same h.symm

/-- No two of the distinct objects have one digest. -/
theorem pairwise_distinct (os : List AssetObject) :
    (distinct os).Pairwise fun p q => p.fileName ≠ q.fileName := by
  induction os with
  | nil => exact .nil
  | cons first os ih =>
    refine .cons (fun q listed => ?_) (ih.filter _)
    have apart := bne_iff_ne.mp (List.mem_filter.mp listed).2
    exact fun same => apart same.symm

/-- Every hash of an index that was read is a digest. -/
theorem isValid_of_parse {text : String} (parsed : parse text = .ok index) :
    ∀ entry ∈ index.objects, entry.2.isValid := by
  obtain ⟨index', -, rest⟩ := bind_eq_ok_iff.mp parsed
  split at rest
  · cases rest
  · rename_i none
    cases rest
    intro entry listed
    simpa using List.find?_eq_none.mp none entry listed

/-- Objects that are told apart by their digests are valid where all named ones are. -/
theorem isValid_of_mem_uniqueObjects (valid : ∀ entry ∈ index.objects, entry.2.isValid)
    (listed : o ∈ index.uniqueObjects) : o.isValid := by
  obtain ⟨entry, listed', rfl⟩ := List.mem_map.mp (mem_of_mem_distinct listed)
  exact valid entry listed'

end AssetIndex

namespace AssetCheck
variable {d : Disk} {objects : Path} {index : AssetIndex} {o : AssetObject}

theorem filter_found {α : Type} (state : α → ObjectState) (os : List α) (s : ObjectState) :
    ((os.map fun o => (o, state o)).filter fun found => found.2 == s).map Prod.fst =
      os.filter fun o => state o == s := by
  rw [List.filter_map, List.map_map]
  exact List.map_id _

/-- The objects of each kind are the distinct ones that look so. -/
theorem of_eq (d : Disk) (objects : Path) (index : AssetIndex) :
    AssetCheck.of d objects index =
      ⟨index.uniqueObjects.filter fun o => o.stateIn d objects == .verified,
        index.uniqueObjects.filter fun o => o.stateIn d objects == .missing,
        index.uniqueObjects.filter fun o => o.stateIn d objects == .mismatched⟩ := by
  unfold AssetCheck.of
  simp only [filter_found]

/-- **A check finds nothing wrong just where the object of every name stands.** -/
theorem isComplete_iff (valid : ∀ entry ∈ index.objects, entry.2.isValid) :
    (AssetCheck.of d objects index).isComplete ↔
      ∀ entry ∈ index.objects, entry.2.StandsIn d objects := by
  have verified : (AssetCheck.of d objects index).isComplete ↔
      ∀ o ∈ index.uniqueObjects, o.stateIn d objects = .verified := by
    rw [of_eq, isComplete, Bool.and_eq_true, List.isEmpty_iff, List.isEmpty_iff,
      List.filter_eq_nil_iff, List.filter_eq_nil_iff]
    constructor
    · rintro ⟨present, right⟩ o listed
      rcases state : o.stateIn d objects
      · rfl
      · exact absurd (beq_iff_eq.mpr state) (present o listed)
      · exact absurd (beq_iff_eq.mpr state) (right o listed)
    · intro all
      constructor <;> intro o listed <;> rw [all o listed] <;> decide
  rw [verified]
  constructor
  · intro all entry listed
    -- the entry stands where the first object with its digest does
    obtain ⟨o, unique, digest⟩ :=
      AssetIndex.exists_mem_distinct (List.mem_map_of_mem (f := Prod.snd) listed)
    have valid' := AssetIndex.isValid_of_mem_uniqueObjects valid unique
    have stands := (AssetObject.stateIn_eq_verified_iff valid').mp (all o unique)
    exact (AssetObject.standsIn_congr digest).mp stands
  · intro all o unique
    obtain ⟨entry, listed, rfl⟩ := List.mem_map.mp (AssetIndex.mem_of_mem_distinct unique)
    exact (AssetObject.stateIn_eq_verified_iff (valid entry listed)).mpr (all entry listed)

end AssetCheck
end Patchwork

/-! ## Where assets are found

What makes a directory fit is said entry by entry (`LocatedAssets.Offers`), and is what looking at
it tests (`at?_eq_some_iff`): the test runs on the distinct objects only, so the step from them to
all entries is `AssetCheck.isComplete_iff`.  The search takes the first directory that fits, and
finds nothing where none does (`find?_takes_first`). -/

namespace Patchwork.LocatedAssets
variable {d : Disk} {strict : Bool} {m : Manifest} {tag : String} {root : Path}
  {index : AssetIndex} {candidates : List Path} {found : LocatedAssets}

/-- **What makes a directory of assets fit a release**: it has both parts; the file of the tag can
be read and holds an index, of the right digest if the search is strict; the index names something,
and each object that it names stands in its bucket. -/
structure Offers (d : Disk) (strict : Bool) (m : Manifest) (tag : String) (root : Path)
    (index : AssetIndex) : Prop where
  indexes : d.isDir (root.join "indexes")
  objects : d.isDir (root.join "objects")
  reads : ∃ text, d.readText ((root.join "indexes").join (tag ++ ".json")) = .ok text ∧
    AssetIndex.parse text = .ok index ∧
    (strict → (Text.trim m.assetIndex.sha1).toLower = DigestAlgorithm.sha1.compute text.toUTF8)
  names : index.objects ≠ []
  stands : ∀ entry ∈ index.objects, entry.2.StandsIn d (root.join "objects")

theorem index?_eq_some_iff {p : Path} :
    index? d strict m.assetIndex.checksum p = some index ↔
      ∃ text, d.readText p = .ok text ∧ AssetIndex.parse text = .ok index ∧
        (strict →
          (Text.trim m.assetIndex.sha1).toLower = DigestAlgorithm.sha1.compute text.toUTF8) ∧
        index.objects ≠ [] := by
  have accepts (bytes : ByteArray) :
      m.assetIndex.checksum.accepts
          (m.assetIndex.checksum.algorithm.compute bytes) ↔
        (Text.trim m.assetIndex.sha1).toLower = DigestAlgorithm.sha1.compute bytes := by
    rw [Checksum.accepts_compute_iff, IndexSource.checksum, Checksum.of,
      Text.toLower_toLower]
  unfold index?
  constructor
  · intro read
    split at read
    · rename_i bytes present
      split at read
      · cases read
      rename_i right
      obtain ⟨text, decoded, read⟩ := Option.bind_eq_some_iff.mp read
      obtain ⟨index', parsed, read⟩ := Option.bind_eq_some_iff.mp read
      split at read
      · cases read
      rename_i full
      cases read
      have written := FileMap.toUTF8_eq_of_text? decoded
      refine ⟨text, Disk.readText_eq_ok_iff.mpr (written ▸ present), eq_ok_of_toOption parsed,
        fun strictly => ?_, fun empty => full (by rw [AssetIndex.isEmpty, empty]; rfl)⟩
      rw [written, ← accepts]
      simpa [strictly] using right
    · cases read
  · rintro ⟨text, read, parsed, right, full⟩
    have passes : ¬ (strict && !m.assetIndex.checksum.accepts
        (m.assetIndex.checksum.algorithm.compute text.toUTF8)) := by
      rcases strict
      · simp
      · rw [(accepts text.toUTF8).mpr (right rfl)]
        decide
    have decoded : String.fromUTF8? text.toUTF8 = some text := FileMap.text?_toUTF8 text
    have named : ¬ index.isEmpty := fun empty => full (List.isEmpty_iff.mp empty)
    rw [Disk.readText_eq_ok_iff.mp read]
    dsimp only
    rw [if_neg passes, decoded, Option.bind_eq_bind, Option.bind_some, parsed]
    exact if_neg named

/-- **Looking at a directory finds what it offers.** -/
theorem at?_eq_some_iff :
    at? d strict tag m.assetIndex.checksum root = some found ↔
      found.root = root ∧ found.tag = tag ∧ Offers d strict m tag root found.index := by
  unfold at?
  dsimp only
  constructor
  · intro seen
    split at seen
    · rename_i dirs
      obtain ⟨index, read, seen⟩ := Option.bind_eq_some_iff.mp seen
      split at seen
      · rename_i complete
        cases seen
        obtain ⟨text, read, parsed, right, full⟩ := index?_eq_some_iff.mp read
        obtain ⟨indexes, objects⟩ := Bool.and_eq_true_iff.mp dirs
        exact ⟨rfl, rfl, indexes, objects, ⟨text, read, parsed, right⟩, full,
          (AssetCheck.isComplete_iff (AssetIndex.isValid_of_parse parsed)).mp complete⟩
      · cases seen
    · cases seen
  · rintro ⟨rfl, rfl, offers⟩
    obtain ⟨text, read, parsed, right⟩ := offers.reads
    have valid := AssetIndex.isValid_of_parse parsed
    have complete := (AssetCheck.isComplete_iff valid).mpr offers.stands
    have known := index?_eq_some_iff.mpr ⟨text, read, parsed, right, offers.names⟩
    rw [if_pos (Bool.and_eq_true_iff.mpr ⟨offers.indexes, offers.objects⟩), indexName, known,
      Option.bind_eq_bind, Option.bind_some]
    exact if_pos complete

/-- A directory that was looked at in vain offers nothing. -/
theorem at?_eq_none_iff :
    at? d strict tag m.assetIndex.checksum root = none ↔
      ∀ index, ¬ Offers d strict m tag root index := by
  rw [Option.eq_none_iff_forall_ne_some]
  constructor
  · exact fun none index offers => none ⟨root, tag, index⟩ (at?_eq_some_iff.mpr ⟨rfl, rfl, offers⟩)
  · exact fun none found seen => none _ (at?_eq_some_iff.mp seen).2.2

/-- **The search takes the first directory that fits the release**, under the release's tag, and
finds nothing just where none of them fits or the release has no tag; whatever is wrong with a
directory rules out that one only. -/
theorem find?_takes_first :
    (∀ found, find? d strict candidates m = some found ↔
      m.assetTag? = some found.tag ∧ Offers d strict m found.tag found.root found.index ∧
        ∃ before after, candidates = before ++ found.root :: after ∧
          ∀ root ∈ before, ∀ index, ¬ Offers d strict m found.tag root index) ∧
    (find? d strict candidates m = none ↔
      ∀ tag, m.assetTag? = some tag →
        ∀ root ∈ candidates, ∀ index, ¬ Offers d strict m tag root index) := by
  have searched (tag : String) (named : m.assetTag? = some tag) :
      find? d strict candidates m =
        candidates.findSome? (at? d strict tag m.assetIndex.checksum) := by
    rw [find?, named, Option.bind_eq_bind, Option.bind_some]
  constructor
  · intro found
    constructor
    · intro search
      obtain ⟨tag, named, -⟩ := Option.bind_eq_some_iff.mp search
      rw [searched tag named, List.findSome?_eq_some_iff] at search
      obtain ⟨before, root, after, split, seen, passed⟩ := search
      obtain ⟨rfl, rfl, offers⟩ := at?_eq_some_iff.mp seen
      exact ⟨named, offers, before, after, split,
        fun root listed => at?_eq_none_iff.mp (passed root listed)⟩
    · rintro ⟨named, offers, before, after, split, passed⟩
      rw [searched _ named, List.findSome?_eq_some_iff]
      exact ⟨before, found.root, after, split, at?_eq_some_iff.mpr ⟨rfl, rfl, offers⟩,
        fun root listed => at?_eq_none_iff.mpr (passed root listed)⟩
  · constructor
    · intro search tag named root listed
      rw [searched tag named, List.findSome?_eq_none_iff] at search
      exact at?_eq_none_iff.mp (search root listed)
    · intro none
      rcases named : m.assetTag? with _ | tag
      · rw [find?, named]
        rfl
      · rw [searched tag named, List.findSome?_eq_none_iff]
        exact fun root listed => at?_eq_none_iff.mpr (none tag named root listed)

end Patchwork.LocatedAssets
