import Mathlib.Data.List.Sort
import Patchwork.Proofs.Disk.Route

/-! Files that are planted on a disk.  A file is written behind a path once the directories that are
missing on the way to it are made.  Where nothing stood, and where the ways lead through no file and
over no place of a file, the files that were planted are all there is besides what was there, and the
directories on the ways are all that was made (`Disk.Planted`, `Disk.Planted.write`).  The files below
a directory are listed in the order of their names, so that a listing is given by what it holds
(`Disk.files_eq`). -/

namespace Patchwork

namespace Disk
open Path
variable {d d' d₁ d₂ : Disk} {p : Path} {place : Place} {made : Place → Prop}
  {files : List (Place × ByteArray)} {bytes : ByteArray}

/-- **A disk with files planted on it**, where directories were made only at certain places. -/
structure Planted (d : Disk) (made : Place → Prop) (files : List (Place × ByteArray)) (d' : Disk) :
    Prop where
  here : d'.here = d.here
  file_iff : ∀ place bytes, d'.at? place = some (.file bytes) ↔
    d.at? place = some (.file bytes) ∨ (place, bytes) ∈ files
  dir : ∀ place, d.at? place = some .dir → d'.at? place = some .dir
  of_dir : ∀ place, d'.at? place = some .dir → d.at? place = some .dir ∨ made place

namespace Planted

theorem refl (d : Disk) (made : Place → Prop) : Planted d made [] d := by
  refine ⟨rfl, fun place bytes => ?_, fun _ => id, fun _ => .inl⟩
  simp

/-- Directories that are made among those that may be. -/
theorem dirs (h : Planted d made files d₁) (here : d₂.here = d₁.here)
    (others : ∀ place, d₂.at? place = d₁.at? place ∨
      d₁.at? place = none ∧ d₂.at? place = some .dir ∧ made place) :
    Planted d made files d₂ := by
  refine ⟨here.trans h.here, fun place bytes => ?_, fun place dir => ?_, fun place dir => ?_⟩
  · rw [← h.file_iff]
    rcases others place with same | ⟨free, dir, -⟩
    · rw [same]
    · rw [free, dir]
      exact ⟨nofun, nofun⟩
  · have stands := h.dir place dir
    rcases others place with same | ⟨free, -⟩
    · rw [same, stands]
    · cases stands.symm.trans free
  · rcases others place with same | ⟨-, -, may⟩
    · exact h.of_dir place (same ▸ dir)
    · exact .inr may

/-- One more file, where nothing stood. -/
theorem put (h : Planted d made files d₁) (free : d₁.at? place = none) (bytes : ByteArray) :
    Planted d made (files ++ [(place, bytes)]) (d₁.put place (.file bytes)) := by
  have ne : place ≠ [] := by
    rintro rfl
    rw [at?_nil] at free
    cases free
  refine ⟨h.here, fun other bytes' => ?_, fun other dir => ?_, fun other dir => ?_⟩
  · rw [at?_put_eq d₁ ne, List.mem_append, List.mem_singleton, ← or_assoc, ← h.file_iff]
    split
    · rename_i same
      subst same
      simp [free, eq_comm]
    · rename_i apart
      simp [apart]
  · have stands := h.dir other dir
    rw [at?_put_eq d₁ ne, if_neg]
    · exact stands
    · rintro rfl
      cases stands.symm.trans free
  · rw [at?_put_eq d₁ ne] at dir
    split at dir
    · cases dir
    · exact h.of_dir other dir

/-- Where nothing stood, no file was planted and no directory is made, nothing stands. -/
theorem free (h : Planted d made files d₁) (free : d.at? place = none)
    (new : ∀ bytes, (place, bytes) ∉ files) (unmade : ¬ made place) : d₁.at? place = none := by
  rcases stands : d₁.at? place with _ | bytes | _
  · rfl
  · rcases (h.file_iff place bytes).mp stands with stood | planted
    · cases free.symm.trans stood
    · exact absurd planted (new bytes)
  · rcases h.of_dir place stands with stood | may
    · cases free.symm.trans stood
    · exact absurd may unmade

end Planted

/-- A file is written where a directory stands at each stop and none at its place. -/
theorem write_of_stops (takes : Takes p) (file : p.meansDir = false)
    (stops : ∀ front, front <+: p.parts → front ≠ p.parts → d.at? (d.stop p front) = some .dir)
    (vacant : d.at? (p.place d.here) ≠ some .dir) (bytes : ByteArray) :
    d.write p bytes = .ok (d.put (p.place d.here) (.file bytes)) := by
  unfold write
  rw [locate_iff.mpr ⟨takes, rfl, stops⟩, ok_bind, if_neg (by simp [file])]
  dsimp only
  split
  · exact absurd ‹_› vacant
  · rfl

/-- **Whether a file can be planted** behind a path: nothing stands at its place, and no file in its
way, and directories may be made on the way but not at the place. -/
structure Plot (d : Disk) (made : Place → Prop) (files : List (Place × ByteArray)) (p : Path) :
    Prop where
  names : p.NamesFile
  root : d.at? (d.start p) = some .dir
  way : ∀ front, front <+: p.parts → front ≠ p.parts → made (d.stop p front)
  clear : d.Clear p
  unplanted : ∀ front, front <+: p.parts → ∀ bytes, (d.stop p front, bytes) ∉ files
  free : d.at? (p.place d.here) = none
  unmade : ¬ made (p.place d.here)

/-- **Planting a file** makes the directories on the way to it. -/
theorem Planted.write {w : World} (h : Planted d made files w.disk) (plot : Plot d made files p)
    (bytes : ByteArray) :
    ∃ d₂, (do Action.makeParent p; Action.writeFile p bytes) w = (.ok (), w.withDisk d₂) ∧
      Planted d made (files ++ [(p.place d.here, bytes)]) d₂ := by
  have same_stop : ∀ front, w.disk.stop p front = d.stop p front := stop_eq h.here p
  have root : w.disk.at? (w.disk.start p) = some .dir := by
    have start : w.disk.start p = d.start p := same_stop []
    rw [start]
    exact h.dir _ plot.root
  have clear : w.disk.Clear p := by
    intro front above apart bytes stands
    rw [same_stop] at stands
    rcases (h.file_iff _ _).mp stands with stood | planted
    · exact plot.clear front above apart bytes stood
    · exact plot.unplanted front above bytes planted
  obtain ⟨d₁, parent, done⟩ := makeParent_of_clear plot.names.parts_ne_nil plot.names.toTakes root clear
  have grown : Planted d made files d₁ := by
    refine h.dirs done.here fun place => (done.others place).imp_right ?_
    rintro ⟨free, dir, front, above, apart, rfl⟩
    exact ⟨free, dir, same_stop front ▸ plot.way front above apart⟩
  have free : d₁.at? (p.place d.here) = none :=
    grown.free plot.free (stop_parts d p ▸ plot.unplanted _ List.prefix_rfl) plot.unmade
  have written := write_of_stops (d := d₁) plot.names.toTakes plot.names.file
    (fun front above apart => stop_eq done.here p front ▸ done.stops front above apart)
    (by rw [grown.here, free]; nofun) bytes
  rw [grown.here] at written
  refine ⟨_, ?_, grown.put free bytes⟩
  rw [Action.bind_of_ok parent, Action.writeFile, Action.change_apply, World.withDisk_disk, written]
  rfl

/-! ## Listings of files -/

theorem compare_append_left (place names names' : List String) :
    compare (place ++ names) (place ++ names') = compare names names' := by
  induction place with
  | nil => rfl
  | cons name place ih =>
    have same : compare name name = .eq := Std.ReflCmp.compare_self
    rw [List.cons_append, List.cons_append, List.compare_cons_cons, ih, same]
    rfl

/-- Names of files in the order in which a directory lists them. -/
def Listed (files : List (List String × ByteArray)) : Prop :=
  files.Pairwise fun a b => compare a.1 b.1 = .lt

/-- No two files are listed under the same names. -/
theorem Listed.distinct {files : List (List String × ByteArray)} (h : Listed files) :
    files.Pairwise fun a b => a.1 ≠ b.1 := by
  refine h.imp fun {a b} before same => ?_
  have still : compare a.1 b.1 = .eq := same ▸ Std.ReflCmp.compare_self
  cases before.symm.trans still

theorem Listed.nodup {files : List (List String × ByteArray)} (h : Listed files) : files.Nodup :=
  h.distinct.imp fun apart same => apart (congrArg Prod.fst same)

/-- The files below a path to a directory. -/
theorem files_eq_filterMap (led : d.locate p = .ok place) (dir : d.at? place = some .dir) :
    d.files p = .ok ((d.under place).filterMap fun (names, node) =>
      match node with
      | .file bytes => some (names, bytes)
      | .dir => none) := by
  unfold Disk.files walk
  rw [led, ok_bind, find_of_locate led dir]
  rfl

/-- **The files below a directory** are listed in order, each under the names that lead to it. -/
theorem listed_files {listing : List (List String × ByteArray)} (led : d.locate p = .ok place)
    (dir : d.at? place = some .dir) (listed : d.files p = .ok listing) :
    Listed listing ∧ ∀ names bytes, (names, bytes) ∈ listing ↔
      names ≠ [] ∧ d.at? (place ++ names) = some (.file bytes) := by
  rw [files_eq_filterMap led dir] at listed
  cases listed
  constructor
  · refine List.pairwise_filterMap.mpr ((d.pairwise_under place).imp ?_)
    rintro ⟨names, node⟩ ⟨names', node'⟩ before ⟨names₁, bytes₁⟩ same ⟨names₂, bytes₂⟩ same'
    rw [compare_append_left] at before
    cases node <;> cases same
    cases node' <;> cases same'
    exact before
  · intro names bytes
    rw [← mem_under_iff, List.mem_filterMap]
    constructor
    · rintro ⟨⟨names', _ | _⟩, listed, same⟩ <;> cases same
      exact listed
    · exact fun listed => ⟨_, listed, rfl⟩

/-- On a tree, files are listed by names. -/
theorem named_of_files {listing : List (List String × ByteArray)} (tree : d.IsTree)
    (listed : d.files p = .ok listing) : ∀ file ∈ listing, ∀ name ∈ file.1, IsName name := by
  obtain ⟨entries, walked, filtered⟩ := bind_eq_ok_iff.mp listed
  obtain ⟨place, led, walked⟩ := bind_eq_ok_iff.mp walked
  obtain ⟨node, found, walked⟩ := bind_eq_ok_iff.mp walked
  cases node with
  | file bytes =>
    cases walked
    cases filtered
    intro file alone name named
    obtain rfl := List.mem_singleton.mp alone
    cases named
  | dir =>
    obtain ⟨place', led', dir⟩ := locate_of_find found
    obtain rfl : place' = place := Except.ok.inj (led'.symm.trans led)
    intro (names, bytes) held name named
    obtain ⟨-, stands⟩ := ((listed_files led' dir listed).2 names bytes).mp held
    exact tree.named _ (stands ▸ Option.some_ne_none _) name (List.mem_append_right _ named)

/-- **Files as a directory lists them**: in the order of their names, and none of them below another. -/
structure IsListing (files : List (List String × ByteArray)) : Prop where
  listed : Listed files
  deep : ∀ file ∈ files, file.1 ≠ []
  named : ∀ file ∈ files, ∀ name ∈ file.1, IsName name
  apart : ∀ file ∈ files, ∀ other ∈ files, file.1 <+: other.1 → file.1 = other.1

theorem isListing_of_files {listing : List (List String × ByteArray)} (tree : d.IsTree)
    (isDir : d.isDir p) (listed : d.files p = .ok listing) : IsListing listing := by
  obtain ⟨place, led, dir⟩ := locate_of_find (isDir_iff.mp isDir)
  obtain ⟨ordered, holds⟩ := listed_files led dir listed
  refine ⟨ordered, fun file held => ((holds _ _).mp held).1, named_of_files tree listed, ?_⟩
  rintro ⟨names, bytes⟩ held ⟨_, bytes'⟩ held' ⟨rest, rfl⟩
  have stands := ((holds _ _).mp held).2
  have stands' := ((holds _ _).mp held').2
  -- nothing lies below a file
  by_contra apart
  have more : rest ≠ [] := fun none => apart (by rw [none, List.append_nil])
  rw [← List.append_assoc, tree.none_of_file stands more] at stands'
  cases stands'

/-- **A listing is given by what it holds.** -/
theorem files_eq {listing : List (List String × ByteArray)} (led : d.locate p = .ok place)
    (dir : d.at? place = some .dir) (listed : Listed listing)
    (holds : ∀ names bytes, (names, bytes) ∈ listing ↔
      names ≠ [] ∧ d.at? (place ++ names) = some (.file bytes)) :
    d.files p = .ok listing := by
  have whole := files_eq_filterMap led dir
  obtain ⟨listed', holds'⟩ := listed_files led dir whole
  have perm := (List.perm_ext_iff_of_nodup listed'.nodup listed.nodup).mpr fun file =>
    (holds' file.1 file.2).trans (holds file.1 file.2).symm
  rw [whole]
  refine congrArg _ (perm.eq_of_pairwise ?_ listed' listed)
  exact fun a b _ _ before after => absurd after (Std.OrientedCmp.not_lt_of_lt before)

end Disk
end Patchwork
