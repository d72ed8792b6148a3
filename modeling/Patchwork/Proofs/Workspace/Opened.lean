import Patchwork.Workspace.Open
import Patchwork.Proofs.Archive.Faithful
import Patchwork.Proofs.Download.Batch

/-! What opening a packaged version changes.  A patch whose name leads on from the
directory of patches is written below the version directory, since the name of its entry
stays below the place where it starts (`base_of_relative`).  A name with two slashes
behind that of the directory of patches leaves an absolute path, which is followed from
the root instead; besides the directory for passing files, such entries are all through
which opening changes a file that is not below the version directory (`run_sameBut`). -/

namespace Patchwork

/-! ## Version directories -/

namespace Workspace

/-- A version directory with a plain name lies in the directory of version directories. -/
theorem place_versionDir {name : String} (plain : isPlainName name) (w : Workspace)
    (here : Place) :
    (w.versionDir name).place here = w.root.place here ++ [versionsName, name] := by
  simp only [isPlainName, Bool.and_eq_true, bne_iff_ne, ne_eq, Bool.not_eq_true',
    List.contains_eq_mem, decide_eq_false_iff_not] at plain
  obtain ⟨⟨⟨⟨⟨named, point⟩, points⟩, slashless⟩, -⟩, -⟩ := plain
  have idle : ¬ Path.isIdle name := by simp [Path.isIdle, named, point]
  rw [versionDir, Path.place_join_name slashless idle points, versions,
    Path.place_join_name (by decide) (by decide) (by decide), List.append_assoc]
  rfl

end Workspace

namespace OpenRequest
open Patchwork.Action
variable {here : Place} {places : Place → Prop}

/-! ## Obtaining the archive -/

theorem within_checkFile (archive : Path) :
    Within here places (checkFile archive) fun _ => True := by
  refine .bind (.isFile _) fun found _ => ?_
  split
  · refine .bind (.ask _ _) fun text _ => .bind (within_fileDigest _ archive) fun digest _ => ?_
    split
    · exact .throw _
    · exact .pure trivial
  · exact .pure trivial

/-- An archive is downloaded into the directory for passing files. -/
theorem within_download (url : String) {scratch : Path}
    (below : ∀ place, scratch.place here <+: place → places place) :
    Within here places (download url scratch) fun _ => True := by
  have target : (scratch.join "archive.zip").place here = scratch.place here ++ ["archive.zip"] :=
    Path.place_join_name (by decide) (by decide) (by decide) scratch here
  refine .bind (within_fetchText _) fun text _ => .bind (.ofOutcome _) fun expected _ => ?_
  refine .bind (Download.within_fetch fun place at_ => below place ?_) fun _ _ => .pure trivial
  rw [target] at at_
  exact (List.prefix_append _ _).trans at_

theorem within_obtain (source : ArchiveSource) {scratch : Path}
    (below : ∀ place, scratch.place here <+: place → places place) :
    Within here places (obtain source scratch) fun _ => True := by
  cases source with
  | file path =>
    refine .bind (.isFile _) fun found _ => ?_
    split
    · exact .throw_bind _ _
    · exact .bind (within_checkFile path) fun _ _ => .pure trivial
  | url url => exact within_download url below

/-! ## Writing the patches -/

/-- Whether a place is that of an absolute path which an archive's file is named for behind the
directory of patches. -/
def Escaped (files : FileMap) (place : Place) : Prop :=
  ∃ rest, patchesName ++ "/" ++ rest ∈ files ∧ Text.startsWith "/" rest ∧
    place = (Path.mk rest).place []

theorem mem_of_mem_patchFiles {files : FileMap} {rest : String} {bytes : ByteArray}
    (h : (rest, bytes) ∈ patchFiles files) : patchesName ++ "/" ++ rest ∈ files := by
  obtain ⟨⟨name, content⟩, listed, cut⟩ := List.mem_filterMap.mp h
  obtain ⟨_, behind, same⟩ := Option.map_eq_some_iff.mp cut
  cases same
  rw [← Text.after?_eq_some_iff.mp behind]
  exact FileMap.mem_of_mem_toList listed

/-- Behind the directory of patches, the rest of a file name leads to a place below the
version directory. -/
theorem base_of_relative {rest : String} (named : Archive.isFileName (patchesName ++ "/" ++ rest))
    (base : Place) :
    base <+: (Text.pieces '/' rest).foldl Place.step (base ++ [patchesName]) := by
  simp only [Archive.isFileName, Archive.isContained, Bool.and_eq_true] at named
  obtain ⟨-, -, below⟩ := named
  have pieces : Text.pieces '/' (patchesName ++ "/" ++ rest) =
      patchesName :: Text.pieces '/' rest := by
    rw [Text.pieces_append (by decide), Text.pieces_of_notMem (by decide)]
    rfl
  have parts : (Path.mk (patchesName ++ "/" ++ rest)).parts =
      patchesName :: (Text.pieces '/' rest).filter (!Path.isIdle ·) := by
    rw [Path.parts, pieces]
    rfl
  rw [parts] at below
  rw [← Path.foldl_filter]
  exact Place.base_of_staysBelow (fun h => absurd (List.mem_filter.mp h).2 (by decide)) below

/-- **Patches are written below the version directory**, or where an absolute path leads. -/
theorem within_writePatches {dir : Path} {files : FileMap} (named : Archive.NamesFiles files)
    (below : ∀ place, dir.place here <+: place → places place)
    (escaped : ∀ place, Escaped files place → places place) :
    Within here places (writePatches dir (patchFiles files)) fun _ => True := by
  have target : (dir.join patchesName).place here = dir.place here ++ [patchesName] :=
    Path.place_join_name (by decide) (by decide) (by decide) dir here
  refine .bind (.forM fun ⟨rest, bytes⟩ listed => ?_) fun _ _ => .changeBy _ fun d _ =>
    (d.sameBut_makeDirs _).mono fun _ => False.elim
  have listed := mem_of_mem_patchFiles listed
  refine .bind (.makeParent _) fun _ _ => .writeFile bytes ?_
  -- an absolute rest stands for itself, whatever directory it is joined to
  by_cases absolute : Text.startsWith "/" rest
  · rw [Path.join_of_absolute absolute]
    refine escaped _ ⟨rest, listed, absolute, ?_⟩
    have absolute : (Path.mk rest).isAbsolute = true := absolute
    rw [Path.place, Path.place, if_pos absolute, if_pos absolute]
  · rw [Path.place_join absolute, target]
    exact below _ (base_of_relative (named _ listed) _)

/-! ## Opening -/

/-- Whether a place lies below the version directory that is made of an archive's files: the one of
the given name, or else of the archive's release. -/
def Unpacked (r : OpenRequest) (here : Place) (archive : Path) (files : FileMap) (place : Place) :
    Prop :=
  ∃ toolchain, toolchainIn archive files = .ok toolchain ∧
    isPlainName (r.name.getD toolchain.version) ∧
    r.workspace.root.place here ++ [versionsName, r.name.getD toolchain.version] <+: place

theorem within_makeRoom (r : OpenRequest) {dir : Path}
    (below : ∀ place, dir.place here <+: place → places place) :
    Within here places (r.makeRoom dir) fun _ => True := by
  refine .bind (.exists? _) fun found _ => ?_
  split
  · split
    · exact .throw_bind _ _
    · exact .remove below
  · exact .pure trivial

theorem within_save (p : Profile) {dir : Path}
    (below : ∀ place, dir.place here <+: place → places place) :
    Within here places (p.save dir) fun _ => True := by
  have target : (Profile.fileIn dir).place here = dir.place here ++ [Profile.fileName] :=
    Path.place_join_name (by decide) (by decide) (by decide) dir here
  refine .writeFile _ (below _ ?_)
  rw [target]
  exact List.prefix_append _ _

/-- Unpacking an archive changes only files below the version directory, and those at the places
of absolute paths that files of the archive are named for. -/
theorem sameBut_unpack {r : OpenRequest} {archive : Path} {w : World}
    (outside : ∀ files, (Archive.read archive w).1 = .ok files → ∀ place,
      r.Unpacked w.disk.here archive files place ∨ Escaped files place → places place) :
    w.disk.SameBut places (r.unpack archive w).2.disk := by
  have reading := @Archive.within_read w.disk.here places archive
  refine sameBut_bind (reading.frame w rfl) fun files w' read here => ?_
  have named := reading.returns w rfl files (by rw [read])
  have outside := outside files (by rw [read])
  refine Within.sameBut ?_ here
  refine .bind (.ofOutcome _) fun toolchain found => .bind (.ofOutcome _) fun _ checked => ?_
  have plain : isPlainName (r.name.getD toolchain.version) = true := by
    unfold checkName at checked
    split at checked
    · assumption
    · cases checked
  have below : ∀ place, (r.workspace.versionDir (r.name.getD toolchain.version)).place
      w.disk.here <+: place → places place := fun place at_ =>
    outside place (.inl ⟨toolchain, found, plain, Workspace.place_versionDir plain _ _ ▸ at_⟩)
  refine .bind (within_makeRoom r below) fun _ _ => ?_
  refine .bind (within_writePatches named below fun place at_ => outside place (.inr at_)) ?_
  exact fun _ _ => .bind (within_save _ below) fun _ _ => .pure trivial

/-- The archive that is opened, and its files. -/
def content (r : OpenRequest) (s : Surroundings) : Action (Path × FileMap) := do
  Action.makeDirs s.scratch
  let archive ← obtain r.source s.scratch
  let files ← Archive.read archive
  return (archive, files)

/-- **What opening a packaged version changes.**  Besides the directory for passing files, it
changes only files below the version directory, and those at the places of absolute paths that
files of the archive are named for. -/
theorem run_sameBut (s : Surroundings) (r : OpenRequest) (w : World) :
    w.disk.SameBut
      (fun place => s.scratch.place w.disk.here <+: place ∨
        ∃ archive files, (r.content s w).1 = .ok (archive, files) ∧
          (r.Unpacked w.disk.here archive files place ∨ Escaped files place))
      (run s r w).2.disk := by
  refine sameBut_withScratch (fun _ => .inl) fun w₁ made here₁ => ?_
  refine sameBut_bind ((within_obtain r.source fun _ => .inl).sameBut here₁)
    fun archive w₂ obtained here₂ => ?_
  -- what is unpacked is what is read at this point of the run
  refine sameBut_unpack fun files read place at_ => .inr ⟨archive, files, ?_, ?_⟩
  · rcases found : Archive.read archive w₂ with ⟨e | found, w₃⟩ <;> rw [found] at read
    · cases read
    · cases read
      unfold content
      rw [bind_of_ok made, bind_of_ok obtained, bind_of_ok found]
      rfl
  · rwa [here₂, here₁] at at_

-- A name that is taken for one below the place where it starts, and where its patch is written.
example :
    Archive.isFileName "patches//srv/other.txt" ∧
      ((Path.mk "/ws/versions/1.20.1").join patchesName).join "/srv/other.txt" =
        ⟨"/srv/other.txt"⟩ := by
  decide +kernel

end OpenRequest
end Patchwork
