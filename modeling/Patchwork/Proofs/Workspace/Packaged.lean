import Patchwork.Proofs.Archive.Kept
import Patchwork.Proofs.Digest.Checksum
import Patchwork.Proofs.Workspace.Moved
import Patchwork.Workspace.Package

/-! What packaging leaves.  The patches of a version directory are the files that are listed below its
directory of patches (`PackageRequest.patches`), and an archive that gives back the packed files holds
them with the toolchain (`PackageRequest.holds_packed`).  The digest is written beside the archive and not
over it, so a package that was made is found with its digest (`Disk.Published`,
`PackageRequest.packaged_of_run`). -/

namespace Patchwork
open Path Disk Patchwork.Action

/-! ## The digest beside an archive -/

theorem isAbsolute_sidecarOf (p : Path) : (sidecarOf p).isAbsolute = p.isAbsolute := by
  rw [Bool.eq_iff_iff, isAbsolute_iff, isAbsolute_iff, sidecarOf, String.toList_append]
  cases p.text.toList with
  | nil => decide
  | cons => exact Iff.rfl

/-- The digest stands beside the archive, not in its place. -/
theorem place_sidecarOf_ne (p : Path) (here : Place) : (sidecarOf p).place here ≠ p.place here := by
  obtain ⟨before, last, alone, whole⟩ := @Text.exists_pieces_append '/' sidecarEnding (by decide) p.text
  have slashless : '/' ∉ last.toList := (slashed_pieces p.text).2 last (by simp [alone])
  have named : IsName (last ++ sidecarEnding) := isName_append slashless (by decide) (by decide)
  rw [place, place, isAbsolute_sidecarOf, alone]
  rw [sidecarOf, whole, List.foldl_append, List.foldl_append]
  generalize before.foldl Place.step (if p.isAbsolute then [] else here) = base
  rw [List.foldl_cons, List.foldl_nil, List.foldl_cons, List.foldl_nil]
  have on : Place.step base (last ++ sidecarEnding) = base ++ [last ++ sidecarEnding] := by
    rw [Place.step, named.not_idle, if_neg Bool.false_ne_true, if_neg named.ne_points]
  rw [on]
  intro same
  have longer := congrArg List.length same
  rw [List.length_append, List.length_singleton] at longer
  unfold Place.step at same longer
  split at same
  · rename_i idle
    rw [if_pos idle] at longer
    omega
  · rename_i plain
    rw [if_neg plain] at longer
    split at same
    · rename_i up
      rw [if_pos up, List.length_dropLast] at longer
      omega
    · have names := congrArg String.toList (List.singleton_inj.mp (List.append_cancel_left same))
      rw [String.toList_append] at names
      exact absurd (List.append_right_eq_self.mp names) (by decide)

/-- **An archive with its digest beside it.** -/
structure Disk.Published (d : Disk) (archive : Path) (bytes : ByteArray) : Prop where
  stands : d.find archive = .ok (.file bytes)
  sidecar : d.find (sidecarOf archive) = .ok (.file (DigestAlgorithm.sha256.compute bytes).toUTF8)

namespace PackageRequest
variable {r : PackageRequest} {profile : Profile} {version : String} {t : Toolchain}
  {summary : PackageSummary} {w w' : World}

/-! ## What is packaged -/

/-- The patches of a version directory: the files below its directory of patches, if it has one. -/
def patches (r : PackageRequest) (d : Disk) : List (List String × ByteArray) :=
  if d.isDir (r.dir.join patchesName) then (d.files (r.dir.join patchesName)).toOption.getD [] else []

/-- The name of a patch in an archive. -/
def memberName (names : List String) : String := patchesName ++ "/" ++ slashed names

/-- The files of an archive that holds a toolchain and patches. -/
def packed (t : Toolchain) (patches : List (List String × ByteArray)) : List (String × ByteArray) :=
  (Toolchain.fileName, t.render.toUTF8) :: patches.map fun file => (memberName file.1, file.2)

/-- **Whether patches can be held by an archive**, as far as their names decide: no name ends as that of a
directory, and none has a character that a path cannot have. -/
structure Packable (patches : List (List String × ByteArray)) : Prop where
  file : ∀ file ∈ patches, Archive.isDirName (slashed file.1) = false
  nulless : ∀ file ∈ patches, '\x00' ∉ (slashed file.1).toList

theorem isListing_patches (tree : w.disk.IsTree) (r : PackageRequest) : IsListing (r.patches w.disk) := by
  unfold patches
  split
  · rename_i isDir
    rcases listed : w.disk.files (r.dir.join patchesName) with e | files
    · exact ⟨.nil, nofun, nofun, nofun⟩
    · exact isListing_of_files tree isDir listed
  · exact ⟨.nil, nofun, nofun, nofun⟩

theorem memberName_eq {names : List String} (deep : names ≠ []) :
    memberName names = slashed (patchesName :: names) :=
  (String.intercalate_cons_of_ne_nil deep).symm

section
variable {patches : List (List String × ByteArray)} (listing : IsListing patches)
include listing

theorem slashed_ne_empty {file : List String × ByteArray} (listed : file ∈ patches) :
    slashed file.1 ≠ "" := by
  intro empty
  have pieces := pieces_slashed (listing.deep file listed) fun name held =>
    (listing.named file listed name held).slashless
  rw [empty] at pieces
  have blank : "" ∈ file.1 := by
    rw [← pieces]
    decide
  exact (listing.named file listed _ blank).ne_empty rfl

/-- The names of packed files are plain. -/
theorem isPlain_packed (packable : Packable patches) (t : Toolchain) :
    ∀ file ∈ packed t patches, Archive.IsPlain file.1 := by
  have metadata : Archive.IsPlain Toolchain.fileName := by decide
  refine List.forall_mem_cons.mpr ⟨metadata, List.forall_mem_map.mpr fun file listed => ?_⟩
  have ne := slashed_ne_empty listing listed
  have behind : ∀ {mark : String} {c : Char}, mark.toList = [c] →
      Text.endsWith mark (memberName file.1) = Text.endsWith mark (slashed file.1) := by
    intro mark c single
    rw [Bool.eq_iff_iff, Text.endsWith_iff single, Text.endsWith_iff single, memberName,
      String.toList_append, List.getLast?_append_of_ne_nil _ (mt String.toList_eq_nil_iff.mp ne)]
  refine ⟨?_, ?_, ?_⟩
  · dsimp only
    rw [memberName_eq (listing.deep file listed)]
    exact isNormal_slashed (List.forall_mem_cons.mpr ⟨isName_patchesName, listing.named file listed⟩)
      (List.cons_ne_nil _ _)
  · have kept := packable.file file listed
    rw [Archive.isDirName] at kept ⊢
    rw [behind (c := '/') (by decide), behind (c := '\\') (by decide), kept]
  · dsimp only
    rw [memberName, String.toList_append, List.mem_append, not_or]
    exact ⟨by decide, packable.nulless file listed⟩

/-- No two files are packed under one name. -/
theorem pairwise_packed (t : Toolchain) : (packed t patches).Pairwise fun a b => a.1 ≠ b.1 := by
  refine List.pairwise_cons.mpr ⟨?_, List.pairwise_map.mpr ?_⟩
  · refine List.forall_mem_map.mpr fun file _ same => ?_
    have behind : Text.after? (patchesName ++ "/") Toolchain.fileName = some (slashed file.1) :=
      Text.after?_eq_some_iff.mpr same
    cases behind
  · refine listing.listed.distinct.imp_of_mem fun {a b} held held' apart same => apart ?_
    have slashless : ∀ file ∈ patches, ∀ name ∈ file.1, '/' ∉ name.toList := fun file listed name within =>
      (listing.named file listed name within).slashless
    have names := congrArg (Text.pieces '/') ((String.append_right_inj _).mp same)
    rwa [pieces_slashed (listing.deep a held) (slashless a held),
      pieces_slashed (listing.deep b held') (slashless b held')] at names

/-- **An archive that gives back the packed files** holds them. -/
theorem holds_packed (packable : Packable patches)
    (faithful : Zip.decode? (Zip.encode (packed t patches)) = some (packed t patches)) :
    Archive.Holds (Zip.encode (packed t patches)) (packed t patches) :=
  Archive.holds_of_decode faithful (isPlain_packed listing packable t) (pairwise_packed listing t)

end

/-- **Whether a version directory can be packaged**: its profile is read, and it describes a toolchain
under the version that is asked for. -/
structure Packs (r : PackageRequest) (w : World) (profile : Profile) (version : String) (t : Toolchain) :
    Prop where
  required : Profile.require r.dir w = (.ok profile, w)
  versioned : r.versionFor profile = .ok version
  described : profile.toolchain version = .ok t

theorem asks_require (dir : Path) : (Profile.require dir).Asks := by
  refine .bind (fun _ => rfl) fun found => ?_
  split
  · exact .bind (.ask _ _) fun text => .ofOutcome _
  · exact .throw _

theorem patchFiles_ran {found : List (String × ByteArray)} (ran : r.patchFiles w = (.ok found, w')) :
    w' = w ∧ found = (r.patches w.disk).map fun file => (memberName file.1, file.2) := by
  unfold patchFiles at ran
  rw [bind_of_ok (isDir_apply _ _)] at ran
  unfold patches
  split at ran
  · rename_i isDir
    obtain ⟨files, w₁, listed, ran⟩ := bind_ran_iff.mp ran
    unfold filesBelow at listed
    rw [bind_of_ok (disk_apply w)] at listed
    rcases known : w.disk.files (r.dir.join patchesName) with e | files' <;>
      rw [known] at listed <;> cases listed
    cases ran
    rw [if_pos isDir]
    exact ⟨rfl, rfl⟩
  · rename_i absent
    cases ran
    rw [if_neg absent]
    exact ⟨rfl, rfl⟩

/-- **What packaging a version comes to**, if it succeeds. -/
structure Packaged (r : PackageRequest) (w : World) (profile : Profile) (version : String) (t : Toolchain)
    (summary : PackageSummary) (w' : World) : Prop extends Packs r w profile version t where
  archive : summary.archive = r.archive version
  counted : summary.patches = (r.patches w.disk).length
  digest : summary.sha256 = DigestAlgorithm.sha256.compute (Zip.encode (packed t (r.patches w.disk)))
  published : w'.disk.Published summary.archive (Zip.encode (packed t (r.patches w.disk)))

/-- **A package that was made** is found at its place with its digest beside it, and it holds the
toolchain and the patches. -/
theorem packaged_of_run (ran : r.run w = (.ok summary, w')) :
    ∃ profile version t, r.Packaged w profile version t summary w' := by
  obtain ⟨profile, required, ran⟩ := (asks_require r.dir).bind_ran_iff.mp ran
  obtain ⟨version, versioned, ran⟩ := (Asks.ofOutcome _).bind_ran_iff.mp ran
  obtain ⟨t, described, ran⟩ := (Asks.ofOutcome _).bind_ran_iff.mp ran
  rw [ofOutcome_apply] at versioned described
  obtain ⟨files, w₁, listed, ran⟩ := bind_ran_iff.mp ran
  obtain ⟨rfl, rfl⟩ := patchFiles_ran listed
  obtain ⟨_, w₂, archived, ran⟩ := bind_ran_iff.mp ran
  obtain ⟨_, w₃, cleared, archived⟩ := bind_ran_iff.mp archived
  obtain ⟨d, written, rfl⟩ := change_ran_iff.mp archived
  have found := find_of_write written
  obtain ⟨bytes, read, ran⟩ := (Asks.ask _ _).bind_ran_iff.mp ran
  rw [ask_of_ok (read_eq_ok_iff.mpr found)] at read
  cases read
  obtain ⟨_, w₄, told, ran⟩ := bind_ran_iff.mp ran
  obtain ⟨d', digested, rfl⟩ := change_ran_iff.mp told
  cases ran
  have beside := find_of_write digested
  have stays := find_of_write_other digested (place_sidecarOf_ne _ _) found
  have packs : r.Packs _ profile version t :=
    ⟨required, congrArg Prod.fst versioned, congrArg Prod.fst described⟩
  exact ⟨profile, version, t, packs, rfl, List.length_map _, rfl, stays, beside⟩

end PackageRequest
end Patchwork
