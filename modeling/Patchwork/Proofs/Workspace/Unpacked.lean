import Mathlib.Data.List.Perm.Basic
import Patchwork.Proofs.Disk.Sited
import Patchwork.Proofs.Toolchain.Described
import Patchwork.Proofs.Workspace.Packaged
import Patchwork.Proofs.Workspace.Reopened

/-! What opening makes of a package.  The files of a package give back its toolchain and its patches
(`OpenRequest.toolchainIn_of_packed`, `OpenRequest.exists_patchFiles_of_packed`).  On a site the version
directory is written and holds nothing else (`Disk.HoldsVersion`, `Disk.Site.exists_version`), and what it
holds is read back as it was packaged (`Disk.HoldsVersion.files`, `Disk.HoldsVersion.find_profile`).  A
path that is clear becomes a site when room is made at its end (`Disk.Approach`,
`Disk.Approach.makeRoom`). -/

namespace Patchwork
open Path Disk Patchwork.Action

/-! ## The files of a package -/

namespace OpenRequest
open PackageRequest
variable {patches : List (List String × ByteArray)} {t : Toolchain} {files : FileMap}

section
variable (holds : ∀ path content, files[path]? = some content ↔ (path, content) ∈ packed t patches)
include holds

theorem toolchainIn_of_packed (archive : Path) : toolchainIn archive files = .ok t := by
  have found : files.get? Toolchain.fileName = some t.render.toUTF8 :=
    (holds _ _).mpr List.mem_cons_self
  have text : String.fromUTF8? t.render.toUTF8 = some t.render := FileMap.text?_toUTF8 _
  unfold toolchainIn
  rw [found]
  dsimp only
  rw [text]
  exact Toolchain.parse_render t

theorem mem_patchFiles_of_packed {rest : String} {bytes : ByteArray} :
    (rest, bytes) ∈ patchFiles files ↔
      (rest, bytes) ∈ patches.map fun file => (slashed file.1, file.2) := by
  have metadata : patchesName ++ "/" ++ rest ≠ Toolchain.fileName := by
    intro same
    have behind : Text.after? (patchesName ++ "/") Toolchain.fileName = some rest :=
      Text.after?_eq_some_iff.mpr same.symm
    cases behind
  have listed : (rest, bytes) ∈ patchFiles files ↔
      files[patchesName ++ "/" ++ rest]? = some bytes := by
    rw [← Std.TreeMap.mem_toList_iff_getElem?_eq_some, patchFiles, List.mem_filterMap]
    constructor
    · rintro ⟨⟨name, content⟩, listed, cut⟩
      obtain ⟨_, behind, same⟩ := Option.map_eq_some_iff.mp cut
      cases same
      rwa [← Text.after?_eq_some_iff.mp behind]
    · exact fun listed => ⟨_, listed, Option.map_eq_some_iff.mpr ⟨_, Text.after?_eq_some_iff.mpr rfl, rfl⟩⟩
  rw [listed, holds, packed, List.mem_cons, List.mem_map, List.mem_map]
  simp only [Prod.mk.injEq, metadata, false_and, false_or, memberName, String.append_right_inj]

/-- **The patches in the files of a package** are those that were packaged, in some order. -/
theorem exists_patchFiles_of_packed (listing : IsListing patches) :
    ∃ list : List (List String × ByteArray),
      patchFiles files = list.map (fun file => (slashed file.1, file.2)) ∧ list.Perm patches := by
  have nodup : (patchFiles files).Nodup := by
    have entries : files.toList.Nodup := (FileMap.distinct_toList files).imp fun apart same =>
      apart (congrArg Prod.fst same)
    refine entries.filterMap ?_
    rintro ⟨name, bytes⟩ ⟨name', bytes'⟩ file cut cut'
    obtain ⟨_, behind, rfl⟩ := Option.map_eq_some_iff.mp cut
    obtain ⟨_, behind', same⟩ := Option.map_eq_some_iff.mp cut'
    cases same
    rw [Text.after?_eq_some_iff.mp behind, Text.after?_eq_some_iff.mp behind']
  have distinct : (patches.map fun file => (slashed file.1, file.2)).Nodup := by
    have names := (List.pairwise_cons.mp (pairwise_packed listing t)).2
    refine List.pairwise_map.mpr ((List.pairwise_map.mp names).imp fun apart same => apart ?_)
    exact congrArg (patchesName ++ "/" ++ ·) (congrArg Prod.fst same)
  have perm := (List.perm_ext_iff_of_nodup nodup distinct).mpr fun ⟨_, _⟩ =>
    mem_patchFiles_of_packed holds
  exact (iff_of_eq (congrFun₂ (List.eq_map_comp_perm _) _ _)).mpr perm

end
end OpenRequest

namespace Disk
variable {d d' : Disk} {dir : Path} {patches list : List (List String × ByteArray)}
  {profile bytes : ByteArray} {names : List String} {place : Place} {w : World} {p : Profile}

/-! ## Directories that hold a version -/

/-- The files of a version directory: its patches and its profile. -/
def versionFiles (patches : List (List String × ByteArray)) (profile : ByteArray) :
    List (List String × ByteArray) :=
  patches.map (fun file => (patchesName :: file.1, file.2)) ++ [([Profile.fileName], profile)]

/-- **Whether a directory leads to patches**: it is one on the way to a patch, or the one that all
patches lie in. -/
def LeadsToPatches (patches : List (List String × ByteArray)) (names : List String) : Prop :=
  names <+: [patchesName] ∨
    ∃ file ∈ patches, names <+: patchesName :: file.1 ∧ names ≠ patchesName :: file.1

/-- **A version directory that holds a version** and nothing else. -/
structure HoldsVersion (d : Disk) (dir : Path) (patches : List (List String × ByteArray))
    (profile : ByteArray) : Prop where
  stops : ∀ front, front <+: (dir.join patchesName).parts →
    d.at? (d.stop (dir.join patchesName) front) = some .dir
  file_iff : ∀ names bytes, d.at? (dir.place d.here ++ names) = some (.file bytes) ↔
    (names, bytes) ∈ versionFiles patches profile
  dirs : ∀ names, d.at? (dir.place d.here ++ names) = some .dir → LeadsToPatches patches names

/-- **Whether the files of a version can be written** in a directory, as far as their paths decide. -/
structure VersionTakes (dir : Path) (patches : List (List String × ByteArray)) : Prop where
  profile : Takes (Profile.fileIn dir)
  top : Takes (dir.join patchesName)
  patch : ∀ file ∈ patches, Takes ((dir.join patchesName).joinAll file.1)

theorem mem_versionFiles : (names, bytes) ∈ versionFiles patches profile ↔
    (∃ rest, names = patchesName :: rest ∧ (rest, bytes) ∈ patches) ∨
      names = [Profile.fileName] ∧ bytes = profile := by
  rw [versionFiles, List.mem_append, List.mem_map, List.mem_singleton, Prod.mk.injEq]
  refine or_congr_left ⟨?_, ?_⟩
  · rintro ⟨⟨rest, content⟩, listed, same⟩
    cases same
    exact ⟨rest, rfl, listed⟩
  · rintro ⟨rest, rfl, listed⟩
    exact ⟨(rest, bytes), listed, rfl⟩

theorem patchesName_ne_fileName : patchesName ≠ Profile.fileName := by decide

/-- No directory that leads to patches stands where a file of the version does. -/
theorem not_leadsToPatches (listing : IsListing patches)
    (listed : (names, bytes) ∈ versionFiles patches profile) : ¬ LeadsToPatches patches names := by
  rcases mem_versionFiles.mp listed with ⟨rest, rfl, held⟩ | ⟨rfl, -⟩
  · rintro (above | ⟨other, held', above, proper⟩)
    · have none := List.prefix_nil.mp ((List.prefix_cons_inj _).mp above)
      exact listing.deep _ held none
    · have same := listing.apart _ held _ held' ((List.prefix_cons_inj _).mp above)
      exact proper (congrArg _ same)
  · have off : ∀ rest, ¬ [Profile.fileName] <+: patchesName :: rest := fun rest above =>
      patchesName_ne_fileName (List.cons_prefix_cons.mp above).1.symm
    rintro (above | ⟨other, -, above, -⟩)
    · exact off _ above
    · exact off _ above

/-- The directories on the way to a file of a version lead to patches. -/
theorem leadsToPatches_of_prefix (listed : (names, bytes) ∈ versionFiles patches profile)
    {front : List String} (above : front <+: names) (proper : front ≠ names) :
    LeadsToPatches patches front := by
  rcases mem_versionFiles.mp listed with ⟨rest, rfl, held⟩ | ⟨rfl, -⟩
  · exact .inr ⟨(rest, bytes), held, above, proper⟩
  · have shorter := prefix_dropLast above proper
    exact .inl (List.prefix_nil.mp shorter ▸ List.nil_prefix)

theorem isName_of_mem_versionFiles (listing : IsListing patches)
    (listed : (names, bytes) ∈ versionFiles patches profile) : ∀ name ∈ names, IsName name := by
  rcases mem_versionFiles.mp listed with ⟨rest, rfl, held⟩ | ⟨rfl, -⟩
  · exact List.forall_mem_cons.mpr ⟨isName_patchesName, listing.named _ held⟩
  · exact List.forall_mem_singleton.mpr Profile.isName_fileName

theorem VersionTakes.of_mem_versionFiles (takes : VersionTakes dir patches)
    (listed : (names, bytes) ∈ versionFiles patches profile) : Takes (dir.joinAll names) := by
  rcases mem_versionFiles.mp listed with ⟨rest, rfl, held⟩ | ⟨rfl, -⟩
  · exact takes.patch _ held
  · rw [joinAll_singleton]
    exact takes.profile

/-- A file of a version can be planted on a site. -/
theorem Site.plot_version (site : d.Site dir) (listing : IsListing patches)
    (takes : VersionTakes dir patches) (listed : (names, bytes) ∈ versionFiles patches profile) :
    Plot d (d.waysBelow dir (LeadsToPatches patches)) [] (dir.joinAll names) := by
  have deep : names ≠ [] := by
    rcases mem_versionFiles.mp listed with ⟨rest, rfl, -⟩ | ⟨rfl, -⟩ <;> exact List.cons_ne_nil _ _
  refine site.plot (takes.of_mem_versionFiles listed) (isName_of_mem_versionFiles listing listed) deep ?_
    (not_leadsToPatches listing listed)
  exact fun front above proper => leadsToPatches_of_prefix listed above proper

theorem mem_versionFiles_of_perm (perm : list.Perm patches) {file : List String × ByteArray} :
    file ∈ versionFiles list profile ↔ file ∈ versionFiles patches profile :=
  ((perm.map _).append_right _).mem_iff

/-- The patches of a version are written on a site, whatever order they come in. -/
theorem Site.exists_patches (site : w.disk.Site dir) (listing : IsListing patches)
    (takes : VersionTakes dir patches) (perm : list.Perm patches) :
    ∃ d', OpenRequest.writePatches dir (list.map fun file => (slashed file.1, file.2)) w =
        (.ok (), w.withDisk d') ∧
      Planted w.disk (w.disk.waysBelow dir (LeadsToPatches patches))
        ((list.map fun file => (patchesName :: file.1, file.2)).map fun file =>
          (dir.place w.disk.here ++ file.1, file.2)) d' ∧
      ∀ front, front <+: (dir.join patchesName).parts →
        d'.at? (w.disk.stop (dir.join patchesName) front) = some .dir := by
  have held : ∀ file : List String × ByteArray, file ∈ list →
      (patchesName :: file.1, file.2) ∈ versionFiles patches .empty :=
    fun file listed => mem_versionFiles.mpr (.inl ⟨_, rfl, perm.subset listed⟩)
  have joined : ∀ file ∈ list,
      (dir.join patchesName).join (slashed file.1) = dir.joinAll (patchesName :: file.1) :=
    fun file listed => join_slashed (listing.named _ (perm.subset listed))
      (listing.deep _ (perm.subset listed)) _
  have place : ∀ file ∈ list,
      ((dir.join patchesName).join (slashed file.1)).place w.disk.here =
      dir.place w.disk.here ++ patchesName :: file.1 := fun file listed => by
    rw [joined file listed, place_joinAll (isName_of_mem_versionFiles listing (held file listed))]
  have distinct : list.Pairwise fun a b => a.1 ≠ b.1 :=
    (perm.pairwise_iff fun apart => Ne.symm apart).mpr listing.listed.distinct
  -- the patches
  obtain ⟨d₁, written, planted₁⟩ := @TreeHome.exists_planted w.disk (dir.join patchesName) _
    (list.map fun file => (slashed file.1, file.2)) w _
    (.refl w.disk (w.disk.waysBelow dir (LeadsToPatches patches)))
    (List.forall_mem_map.mpr fun file listed => by
      dsimp only
      rw [joined file listed]
      exact site.plot_version listing takes (held file listed))
    (List.pairwise_map.mpr (distinct.imp_of_mem fun {a b} listed listed' apart same => by
      rw [place a listed, place b listed'] at same
      exact apart (List.cons.inj (List.append_cancel_left same)).2))
    nofun
  have planted₁ : Planted w.disk (w.disk.waysBelow dir (LeadsToPatches patches))
      ((list.map fun file => (patchesName :: file.1, file.2)).map fun file =>
        (dir.place w.disk.here ++ file.1, file.2)) d₁ := by
    rw [List.nil_append, List.map_map] at planted₁
    rw [List.map_map]
    convert planted₁ using 1
    exact List.map_congr_left fun file listed => Prod.ext (place file listed).symm rfl
  -- the directory of patches, also where there are none
  have ways : ∀ front, front <+: (dir.join patchesName).parts →
      w.disk.waysBelow dir (LeadsToPatches patches) (w.disk.stop (dir.join patchesName) front) := by
    rw [← joinAll_singleton]
    exact fun front above => waysBelow_stop (List.forall_mem_singleton.mpr isName_patchesName) w.disk
      (fun _ above => .inl above) above
  have unmade : ∀ file ∈ list.map fun file => (patchesName :: file.1, file.2),
      ¬ LeadsToPatches patches file.1 := List.forall_mem_map.mpr fun file listed =>
    not_leadsToPatches listing (held file listed)
  have root₁ : d₁.at? (d₁.start (dir.join patchesName)) = some .dir := by
    rw [start_join isName_patchesName, start, planted₁.here]
    exact planted₁.dir _ site.root
  obtain ⟨d₂, dirs, made⟩ := makeDirs_of_clear (.inr takes.top) root₁ fun front above => by
    rw [stop_eq planted₁.here]
    exact site.fileless planted₁ unmade (ways front above)
  have planted₂ := planted₁.dirs made.here fun place => (made.others place).imp_right (by
    rintro ⟨free, stands, front, above, rfl⟩
    exact ⟨free, stands, stop_eq planted₁.here (dir.join patchesName) front ▸ ways front above⟩)
  have created : changeBy (.creating dir.text) (·.makeDirs (dir.join patchesName)) (w.withDisk d₁) =
      (.ok (), w.withDisk d₂) := by
    rw [changeBy_apply, World.withDisk_disk, dirs]
    rfl
  refine ⟨d₂, (bind_of_ok written _).trans created, planted₂, fun front above => ?_⟩
  rw [← stop_eq planted₁.here]
  exact made.stops front above

/-- **A version is written on a site**, and nothing else is there then. -/
theorem Site.exists_version (site : w.disk.Site dir) (listing : IsListing patches)
    (takes : VersionTakes dir patches) (perm : list.Perm patches) :
    ∃ d', (do
        OpenRequest.writePatches dir
          (list.map fun file : List String × ByteArray => (slashed file.1, file.2))
        p.save dir) w = (.ok (), w.withDisk d') ∧
      d'.here = w.disk.here ∧ d'.HoldsVersion dir patches p.render.toUTF8 := by
  obtain ⟨d₁, written, planted, stops⟩ := site.exists_patches listing takes perm
  have here : d₁.here = w.disk.here := planted.here
  have named : IsName Profile.fileName := Profile.isName_fileName
  have place : (Profile.fileIn dir).place d₁.here = dir.place w.disk.here ++ [Profile.fileName] := by
    rw [here, Profile.fileIn, place_join_of_isName named]
  have free : d₁.at? (dir.place w.disk.here ++ [Profile.fileName]) = none := by
    have listed : ([Profile.fileName], p.render.toUTF8) ∈ versionFiles patches p.render.toUTF8 :=
      mem_versionFiles.mpr (.inr ⟨rfl, rfl⟩)
    refine planted.free (site.bare _) (fun bytes listed => ?_) fun way =>
      not_leadsToPatches listing listed (site.waysBelow_iff.mp way)
    obtain ⟨file, listed, same⟩ := List.mem_map.mp listed
    obtain ⟨file, -, rfl⟩ := List.mem_map.mp listed
    have names := List.append_cancel_left (congrArg Prod.fst same)
    exact patchesName_ne_fileName (List.cons.inj names).1
  have ways : ∀ front, front <+: (Profile.fileIn dir).parts → front ≠ (Profile.fileIn dir).parts →
      d₁.at? (d₁.stop (Profile.fileIn dir) front) = some .dir := by
    intro front above proper
    have above := prefix_parts_of_join named above proper
    have stands := stops front (parts_join isName_patchesName dir ▸ above.trans (List.prefix_append _ _))
    rw [stop_join_name isName_patchesName] at stands
    rw [stop_eq here, Profile.fileIn, stop_join_name named, stands]
  have saved := write_of_stops takes.profile (meansDir_join named dir) ways
    (by rw [place, free]; exact (Option.some_ne_none _).symm) p.render.toUTF8
  rw [place] at saved
  have planted' := planted.put free p.render.toUTF8
  obtain ⟨d₂, put⟩ : ∃ d, d₁.put (dir.place w.disk.here ++ [Profile.fileName])
    (.file p.render.toUTF8) = d := ⟨_, rfl⟩
  rw [put] at saved planted'
  obtain ⟨file_iff, dirs⟩ := @Disk.Site.content _ _ _ _ (versionFiles list p.render.toUTF8) site (by
    rw [versionFiles, List.map_append]
    exact planted')
  refine ⟨d₂, (bind_of_ok written _).trans ?_, planted'.here, ?_, ?_, ?_⟩
  · rw [Profile.save, Action.writeFile, change_apply, World.withDisk_disk, saved]
    rfl
  · intro front above
    have dir := stops front above
    rw [stop_eq planted'.here, ← put, at?_put _ _ _ fun same => ?_, dir]
    cases (same ▸ dir).symm.trans free
  · intro names bytes
    rw [planted'.here, file_iff, mem_versionFiles_of_perm perm]
  · intro names
    rw [planted'.here]
    exact dirs names

namespace HoldsVersion
variable (h : d.HoldsVersion dir patches profile)
include h

/-- What happens elsewhere leaves a version as it is. -/
theorem of_quiet (quiet : Quiet place d d')
    (apart : ∀ front, front <+: dir.parts → ¬ place <+: d.stop dir front)
    (off : ¬ dir.place d.here <+: place) : d'.HoldsVersion dir patches profile := by
  have out : ¬ place <+: dir.place d.here := stop_parts d dir ▸ apart _ List.prefix_rfl
  have same : ∀ names, d'.at? (dir.place d.here ++ names) = d.at? (dir.place d.here ++ names) := by
    intro names
    refine quiet.at?_eq (fun below => ?_) fun above => off ((List.prefix_append _ _).trans above)
    exact (List.prefix_or_prefix_of_prefix below (List.prefix_append _ _)).elim out off
  refine ⟨fun front above => ?_, fun names bytes => ?_, fun names => ?_⟩
  · have stands : d.at? (stopFrom d.here (dir.join patchesName) front) = some .dir := h.stops front above
    change d'.at? (stopFrom d'.here (dir.join patchesName) front) = some .dir
    rw [quiet.here]
    rw [← joinAll_singleton] at above stands ⊢
    rcases stop_joinAll d.here (List.forall_mem_singleton.mpr isName_patchesName) above with
      ⟨above', -, at_⟩ | ⟨front', -, -, at_⟩ <;> rw [at_] at stands ⊢
    · rcases quiet.outside _ (apart front above') with same | ⟨free, -⟩
      · exact same.trans stands
      · cases stands.symm.trans free
    · rw [same, stands]
  · rw [quiet.here, same, h.file_iff]
  · rw [quiet.here, same]
    exact h.dirs names

/-- **The patches of a version are listed as they were packaged.** -/
theorem files (listing : IsListing patches) (takes : VersionTakes dir patches) :
    d.files (dir.join patchesName) = .ok patches := by
  have place : (dir.join patchesName).place d.here = dir.place d.here ++ [patchesName] :=
    place_join_of_isName isName_patchesName _ _
  have led : d.locate (dir.join patchesName) = .ok ((dir.join patchesName).place d.here) :=
    locate_iff.mpr ⟨takes.top, rfl, fun front above _ => h.stops front above⟩
  have stands := h.stops _ List.prefix_rfl
  rw [stop_parts] at stands
  refine files_eq led stands listing.listed fun names bytes => ?_
  have metadata : patchesName :: names ≠ [Profile.fileName] := fun same =>
    patchesName_ne_fileName (List.cons.inj same).1
  rw [place, List.append_assoc, List.singleton_append, h.file_iff, mem_versionFiles]
  constructor
  · exact fun listed => ⟨listing.deep _ listed, .inl ⟨names, rfl, listed⟩⟩
  · rintro ⟨-, ⟨rest, same, listed⟩ | ⟨same, -⟩⟩
    · cases same
      exact listed
    · exact absurd same metadata

/-- **The profile of a version is found.** -/
theorem find_profile (takes : VersionTakes dir patches) :
    d.find (Profile.fileIn dir) = .ok (.file profile) := by
  have named : IsName Profile.fileName := Profile.isName_fileName
  refine find_file_iff.mpr ⟨takes.profile, meansDir_join named dir, fun front above proper => ?_, ?_⟩
  · have above := prefix_parts_of_join named above proper
    have stands := h.stops front (parts_join isName_patchesName dir ▸ above.trans (List.prefix_append _ _))
    rw [stop_join_name isName_patchesName] at stands
    rw [Profile.fileIn, stop_join_name named, stands]
  · rw [Profile.fileIn, place_join_of_isName named, h.file_iff]
    exact mem_versionFiles.mpr (.inr ⟨rfl, rfl⟩)

end HoldsVersion

/-! ## Making room -/

/-- **Room is made at the end of an approach**, which leaves a site. -/
theorem Approach.makeRoom {r : OpenRequest} (h : w.disk.Approach dir) (tree : w.disk.IsTree)
    (takes : Takes dir) (ends : dir.endsInName) (file : dir.meansDir = false)
    (allowed : r.replace = true ∨ w.disk.at? (dir.place w.disk.here) = none) :
    ∃ d', r.makeRoom dir w = (.ok (), w.withDisk d') ∧ d'.here = w.disk.here ∧ d'.Site dir := by
  obtain ⟨removed, free, approach⟩ := h.remove takes ends fun meant => by simp [file] at meant
  have here := here_remove w.disk dir
  have site : (w.disk.remove dir).2.Site dir := approach.site (tree.remove dir) (by rwa [here])
  unfold OpenRequest.makeRoom
  rw [bind_of_ok (exists?_apply dir w)]
  rcases found : w.disk.find dir with e | node
  · rw [exists?_eq_false_of_error found]
    rw [remove_of_error found] at site
    exact ⟨w.disk, rfl, rfl, site⟩
  · have there : w.disk.exists? dir := exists?_iff.mpr ⟨node, found⟩
    have replace : r.replace = true := allowed.resolve_right fun free => by
      rw [exists?_eq_false_of_free free] at there
      cases there
    rw [there, if_pos rfl, replace]
    exact ⟨_, removed, here, site⟩

end Disk
end Patchwork
