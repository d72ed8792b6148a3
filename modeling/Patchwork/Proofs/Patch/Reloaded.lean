import Mathlib.Data.List.Perm.Basic
import Patchwork.Patch.Files
import Patchwork.Proofs.Disk.Layout
import Patchwork.Proofs.Disk.Stored
import Patchwork.Proofs.Patch.Framed
import Patchwork.Proofs.Patch.Sized

/-! Patch sets on the disk.  A folder that holds the files of a set, and no others, is loaded as this
set, if each patch is read as it was written (`PatchSet.load_of_holds`): the files may be listed in
another order than the patches, but a set does not depend on the order in which patches come.  Writing a
set leaves just its files (`PatchSet.stored_write`), so what making a patch set again writes is loaded
as what it computed (`PatchRebuild.reloads_of_run`).

Patch sets that cannot be made again.  The trees are compared before anything is changed, so where
that fails the patches stay as they are.  What was compared is written in the place of the patches, each
under its path with an ending, and that succeeds just where these files can be laid out
(`PatchRebuild.run_refills`).  A file `a` and one below a directory `a.patch` can lie in one tree, but
not their patches in one folder: then the older patches are lost. -/

namespace Patchwork

namespace PatchSet
open Path Disk
variable {s : PatchSet} {dir : Path} {d : Disk} {w w' : World}

/-- A patch as a file below the folder of its set. -/
def fileOf (p : Patch) : List String × ByteArray :=
  (Text.pieces '/' (p.path ++ suffix), p.render.toUTF8)

theorem located_files (s : PatchSet) : TreeHome.located s.files = s.toList.map fileOf := by
  rw [TreeHome.located, files, List.map_map]
  rfl

/-- The file of a patch that is read as it was written adds this patch. -/
theorem insertFile_fileOf {p : Patch} (read : Patch.parse p.path p.render = .ok p) (t : PatchSet) :
    insertFile dir t (fileOf p) = t.insert p := by
  have named : Text.before? suffix (slashed (Text.pieces '/' (p.path ++ suffix))) = some p.path := by
    rw [(slashed_pieces _).1]
    exact Text.before?_eq_some_iff.mpr rfl
  have text : String.fromUTF8? p.render.toUTF8 = some p.render := FileMap.text?_toUTF8 p.render
  rw [insertFile, fileOf, named, text]
  dsimp only
  rw [read, ok_bind]

theorem foldlM_insertFile {ps : List Patch} (read : ∀ p ∈ ps, Patch.parse p.path p.render = .ok p)
    (t : PatchSet) : (ps.map fileOf).foldlM (insertFile dir) t = t.insertAll ps := by
  induction ps generalizing t with
  | nil => rfl
  | cons p ps ih =>
    obtain ⟨first, others⟩ := List.forall_mem_cons.mp read
    rw [List.map_cons, List.foldlM_cons, insertFile_fileOf first, insertAll, List.foldlM_cons]
    exact bind_congr fun u => ih others u

/-- **Whether two sets hold the same patches.** -/
structure Agrees (s t : PatchSet) : Prop where
  toList : s.toList = t.toList
  get? : ∀ path, s.get? path = t.get? path

/-- The order in which the patches of a set come makes no difference. -/
theorem Keyed.insertAll_perm (keyed : s.Keyed) {ps : List Patch} (perm : ps.Perm s.toList) :
    ∃ t, PatchSet.empty.insertAll ps = .ok t ∧ t.Agrees s := by
  have distinct := (perm.pairwise_iff fun apart => Ne.symm apart).mpr keyed.inOrder.distinct
  obtain ⟨t, made, content⟩ := insertAll_ok (s := PatchSet.empty) distinct fun _ _ =>
    Std.TreeMap.getElem?_emptyc
  have keyed' : t.Keyed := Keyed.empty.insertAll made
  have same : ∀ path, t.get? path = s.get? path := by
    intro path
    refine Option.ext fun p => (content path p).trans ?_
    have empty : PatchSet.empty.byPath[path]? ≠ some p := by
      rw [PatchSet.empty, Std.TreeMap.getElem?_emptyc]
      exact (Option.some_ne_none p).symm
    rw [or_iff_right empty, perm.mem_iff, keyed.mem_toList]
    constructor
    · rintro ⟨found, rfl⟩
      exact found
    · intro found
      obtain rfl := keyed path p found
      exact ⟨found, rfl⟩
  refine ⟨t, made, keyed'.inOrder.eq_of_mem_iff keyed.inOrder fun p => ?_, same⟩
  rw [keyed'.mem_toList, keyed.mem_toList, same]

/-- **A folder with the files of a set** is loaded as this set, if each patch is read as it was
written. -/
theorem load_of_holds (holds : w.disk.Holds dir (TreeHome.located s.files)) (keyed : s.Keyed)
    (read : ∀ p ∈ s.toList, Patch.parse p.path p.render = .ok p) :
    ∃ t, load dir w = (.ok t, w) ∧ t.Agrees s := by
  obtain ⟨listing, listed, ordered, mem_iff⟩ := holds.listing
  have there : w.disk.exists? dir := by
    unfold exists?
    rw [find_of_locate holds.led holds.dir]
  have nodup : (s.toList.map fileOf).Nodup := by
    refine List.pairwise_map.mpr (keyed.inOrder.distinct.imp fun apart same => apart ?_)
    have names := congrArg slashed (congrArg Prod.fst same)
    rw [fileOf, fileOf, (slashed_pieces _).1, (slashed_pieces _).1] at names
    exact (String.append_left_inj _).mp names
  have lists : listing.Perm (s.toList.map fileOf) :=
    (List.perm_ext_iff_of_nodup ordered.nodup nodup).mpr fun file =>
      s.located_files ▸ mem_iff file.1 file.2
  -- the patches in the order in which their files are listed
  obtain ⟨ps, rfl, perm⟩ : ∃ ps : List Patch, listing = ps.map fileOf ∧ ps.Perm s.toList :=
    (iff_of_eq (congrFun₂ (List.eq_map_comp_perm fileOf) listing s.toList)).mpr lists
  obtain ⟨t, made, agrees⟩ := keyed.insertAll_perm perm
  refine ⟨t, ?_, agrees⟩
  unfold load
  rw [Action.bind_of_ok (Action.exists?_apply dir w), there, if_pos rfl,
    Action.bind_of_ok (filesBelow_of_files listed),
    foldlM_insertFile fun p hp => read p (perm.subset hp), made]
  rfl

theorem isName_file {last : String} (slashless : '/' ∉ last.toList) : IsName (last ++ suffix) :=
  isName_append slashless (by decide) (by decide)

/-- A normal path stays so with the ending of a patch's file. -/
theorem isNormal_file {path : String} (normal : IsNormal path) : IsNormal (path ++ suffix) := by
  obtain ⟨before, last, alone, whole⟩ := @Text.exists_pieces_append '/' suffix (by decide) path
  rw [IsNormal, alone] at normal
  rw [IsNormal, whole]
  intro piece listed
  rcases List.mem_append.mp listed with earlier | final
  · exact normal piece (List.mem_append_left _ earlier)
  · rw [List.mem_singleton.mp final]
    exact isName_file (normal last (List.mem_append_right _ List.mem_cons_self)).slashless

/-- **Writing a set** leaves its files and nothing else below the folder. -/
theorem stored_write (tree : w.disk.IsTree) (straight : ".." ∉ dir.parts) (ne : dir.text ≠ "")
    (keyed : s.Keyed) (normal : ∀ p ∈ s.toList, IsNormal p.path)
    (ran : s.write dir w = (.ok (), w')) :
    Stored dir (TreeHome.located s.files) w.disk w'.disk := by
  refine TreeHome.stored_afresh tree straight ne ?_ ?_ ran
  · exact List.forall_mem_map.mpr fun p hp => isNormal_file (normal p hp)
  · refine List.pairwise_map.mpr (keyed.inOrder.distinct.imp fun apart same => apart ?_)
    exact (String.append_left_inj _).mp same

end PatchSet

/-! ## Making a patch set again -/

namespace PatchRebuild
open Path Disk
variable {r : PatchRebuild} {baseline working : FileMap} {summary : RebuildSummary} {w w' : World}

/-- **The two trees that are compared.** -/
structure Compares (r : PatchRebuild) (w : World) (baseline working : FileMap) : Prop where
  baseline : (TreeHome.of w.disk r.baseline).read w = (.ok baseline, w)
  working : (TreeHome.of w.disk r.working).read w = (.ok working, w)

/-- **Trees whose patches can be kept in files**: the paths go down by names alone, memory can hold the
files, and the path of each patch can stand in its header. -/
structure Keepable (r : PatchRebuild) (baseline working : FileMap) : Prop where
  normal : ∀ path, path ∈ baseline ∨ path ∈ working → IsNormal path
  fits : baseline.Fits
  fits' : working.Fits
  headed : ∀ p ∈ treePatches baseline working r.context r.ignored, p.Headed p.hunks

/-- What making a patch set again does behind reading the two trees. -/
theorem exists_write_of_run (compares : r.Compares w baseline working)
    (ran : r.run w = (.ok summary, w')) : ∃ set skipped,
      PatchSet.between baseline working r.context r.ignored = .ok (set, skipped) ∧
      set.toList = treePatches baseline working r.context r.ignored ∧ set.Keyed ∧
      set.write r.patches w = (.ok (), w') := by
  unfold run at ran
  rw [Action.bind_of_ok (Action.disk_apply w)] at ran
  split at ran
  · cases ran
  dsimp only at ran
  split at ran
  · cases ran
  rw [Action.bind_of_ok compares.baseline, Action.bind_of_ok compares.working] at ran
  obtain ⟨set, made, patches⟩ := PatchSet.toList_insertAll (inOrder_treePatches : Patch.InOrder
    (treePatches baseline working r.context r.ignored))
  rw [Action.bind_of_outcome (PatchSet.between_eq_ok made)] at ran
  dsimp only at ran
  obtain ⟨_, w₁, written, ran⟩ := Action.bind_ran_iff.mp ran
  cases ran
  exact ⟨set, _, PatchSet.between_eq_ok made, patches, PatchSet.Keyed.empty.insertAll made, written⟩

/-- **What was written is loaded again**: as the set between the two trees, patch by patch. -/
theorem reloads_of_run (tree : w.disk.IsTree) (straight : ".." ∉ r.patches.parts)
    (ne : r.patches.text ≠ "") (compares : r.Compares w baseline working)
    (keepable : r.Keepable baseline working) (ran : r.run w = (.ok summary, w')) :
    ∃ set skipped loaded,
      PatchSet.between baseline working r.context r.ignored = .ok (set, skipped) ∧
      PatchSet.load r.patches w' = (.ok loaded, w') ∧ loaded.Agrees set := by
  obtain ⟨set, skipped, made, patches, keyed, written⟩ := exists_write_of_run compares ran
  have normal : ∀ p ∈ set.toList, IsNormal p.path := by
    intro p hp
    rw [patches] at hp
    obtain ⟨compared, differs⟩ := mem_treePatches.mp hp
    have listed := mem_comparedPaths_of_ne compared (PathDiff.ne_of_between differs)
    exact keepable.normal _ (mem_comparedPaths.mp listed).1
  have stored := PatchSet.stored_write tree straight ne keyed normal written
  obtain ⟨loaded, ran', agrees⟩ := PatchSet.load_of_holds stored.toHolds keyed fun p hp =>
    have listed := patches ▸ hp
    Patch.parse_render_of_mem_treePatches listed keepable.fits keepable.fits'
      (keepable.headed p listed)
  exact ⟨set, skipped, loaded, made, ran', agrees⟩

/-- A disk with a tree of one file and with one that has lost it. -/
def demoWorld : World :=
  ⟨((((Disk.empty.put ["b"] .dir).put ["b", "d"] .dir).put ["b", "d", "f"] (.file "x\n".toUTF8)).put
    ["w"] .dir), [], []⟩

def demo : PatchRebuild := ⟨⟨"/b"⟩, ⟨"/w"⟩, ⟨"/p"⟩, usualContext, []⟩

def demoBaseline : FileMap := FileMap.ofFiles [("d/f", "x\n".toUTF8)]

def demoPatch : Patch := ⟨"d/f", .delete, [⟨⟨1, 1⟩, ⟨0, 0⟩, [.delete "x\n"]⟩]⟩

theorem compares_demo : demo.Compares demoWorld demoBaseline ∅ := by
  have home : TreeHome.of demoWorld.disk demo.baseline = .folder ⟨"/b"⟩ ∧
      TreeHome.of demoWorld.disk demo.working = .folder ⟨"/w"⟩ := by
    decide +kernel
  have old : demoWorld.disk.files ⟨"/b"⟩ = .ok [(["d", "f"], "x\n".toUTF8)] :=
    eq_ok_of_toOption (by decide +kernel)
  have new : demoWorld.disk.files ⟨"/w"⟩ = .ok [] := eq_ok_of_toOption (by decide +kernel)
  constructor
  · rw [home.1, TreeHome.read, TreeHome.readFolder, Action.bind_of_ok (filesBelow_of_files old)]
    rfl
  · rw [home.2, TreeHome.read, TreeHome.readFolder, Action.bind_of_ok (filesBelow_of_files new)]
    rfl

/-- The patch that removes a file of one line. -/
theorem between_demo (path : String) :
    PathDiff.between path (some "x\n".toUTF8) none usualContext = .patch ⟨path, .delete, demoPatch.hunks⟩ := by
  have lines : Text.lines "x\n" = ["x\n"] ∧ Text.lines "" = [] := by decide +kernel
  have shortest : EditScript.shortest ["x\n"] [] = [.delete ["x\n"]] := by decide +kernel
  -- a script of one stretch has nothing to settle
  have script : lineScript ["x\n"] [] = [.delete ["x\n"]] := by
    simp [lineScript, shortest, EditScript.compact, EditScript.settle, EditScript.settled,
      EditScript.liftFocus, EditScript.sinkFocus, Edit.kind?]
  have hunks : hunksBetween "x\n" "" usualContext = demoPatch.hunks := by
    unfold hunksBetween
    rw [lines.1, lines.2]
    dsimp only
    rw [script]
    decide +kernel
  have between : Patch.between path (some "x\n") none usualContext =
      some ⟨path, .delete, demoPatch.hunks⟩ := by
    unfold Patch.between
    dsimp only [Option.getD_some, Option.getD_none]
    rw [hunks]
    rfl
  have versions : versionText? (some "x\n".toUTF8) = some (some "x\n") ∧
      versionText? none = some none := by
    decide +kernel
  rw [PathDiff.between, if_neg (Option.some_ne_none _), versions.1, versions.2]
  dsimp only
  rw [between]

theorem treePatches_demo : treePatches demoBaseline ∅ usualContext [] = [demoPatch] := by
  have compared : comparedPaths demoBaseline ∅ [] = ["d/f"] := by decide +kernel
  have versions : demoBaseline["d/f"]? = some "x\n".toUTF8 ∧ (∅ : FileMap)["d/f"]? = none := by
    decide +kernel
  rw [treePatches, treeDiffs, compared, List.map_singleton, versions.1, versions.2, between_demo]
  rfl

theorem keepable_demo : demo.Keepable demoBaseline ∅ := by
  have named : ∀ path, path ∈ demoBaseline → path = "d/f" := fun path listed => by
    simpa using FileMap.mem_ofFiles.mp listed
  refine ⟨fun path listed => ?_, fun path bytes found => ?_, fun path bytes found => ?_, ?_⟩
  · rw [named path (listed.resolve_right Std.TreeMap.not_mem_emptyc)]
    decide +kernel
  · obtain ⟨-, rfl⟩ : path = "d/f" ∧ bytes = "x\n".toUTF8 := by
      simpa using (FileMap.getElem?_ofFiles (List.pairwise_singleton _ _)).mp found
    decide +kernel
  · rw [Std.TreeMap.getElem?_emptyc] at found
    cases found
  · intro p listed
    obtain rfl := List.mem_singleton.mp (treePatches_demo ▸ listed)
    exact ⟨by decide, fun _ => by decide⟩

theorem run_demo : ∃ summary w', demo.run demoWorld = (.ok summary, w') := by
  have there : demoWorld.disk.exists? demo.baseline ∧ demoWorld.disk.exists? demo.working := by
    decide +kernel
  obtain ⟨set, made, patches⟩ := PatchSet.toList_insertAll (inOrder_treePatches : Patch.InOrder
    (treePatches demoBaseline ∅ demo.context demo.ignored))
  have files : set.files = [(demoPatch.path ++ PatchSet.suffix, demoPatch.render.toUTF8)] := by
    rw [PatchSet.files, patches, demo, treePatches_demo, List.map_singleton]
  have done : ((do
      Action.clear demo.patches
      Action.makeDirs demo.patches
      TreeHome.writeFiles demo.patches [(demoPatch.path ++ PatchSet.suffix, demoPatch.render.toUTF8)] :
        Action Unit) demoWorld).1.toOption = some () := by
    decide +kernel
  obtain ⟨w', written⟩ : ∃ w', set.write demo.patches demoWorld = (.ok (), w') := by
    unfold PatchSet.write
    rw [files]
    exact Action.exists_of_toOption done
  refine ⟨?summary, w', ?ran⟩
  case ran =>
    unfold run
    rw [Action.bind_of_ok (Action.disk_apply demoWorld), there.1, there.2]
    rw [Bool.not_true, if_neg Bool.false_ne_true, if_neg Bool.false_ne_true]
    dsimp only
    rw [Action.bind_of_ok compares_demo.baseline, Action.bind_of_ok compares_demo.working,
      Action.bind_of_outcome (PatchSet.between_eq_ok made)]
    dsimp only
    rw [Action.bind_of_ok written]
    rfl

/-- The patch that removes the file is loaded again. -/
theorem reloads_of_run_demo : ∃ summary w' set skipped loaded,
    demo.run demoWorld = (.ok summary, w') ∧
    PatchSet.between demoBaseline ∅ demo.context demo.ignored = .ok (set, skipped) ∧
    PatchSet.load demo.patches w' = (.ok loaded, w') ∧ loaded.Agrees set := by
  obtain ⟨summary, w', ran⟩ := run_demo
  obtain ⟨set, skipped, loaded, reloads⟩ := reloads_of_run (by decide +kernel) (by decide +kernel)
    (by decide) compares_demo keepable_demo ran
  exact ⟨summary, w', set, skipped, loaded, ran, reloads⟩

end PatchRebuild

/-! ## Patch sets that cannot be made again -/

open Patchwork.Action Patchwork.Disk

namespace Path
variable {name : String}

/-- The file of a patch leads down if the path of the patch does. -/
theorem Downward.file (down : Downward name) : Downward (name ++ PatchSet.suffix) := by
  obtain ⟨before, last, pieces, pieces'⟩ :=
    @Text.exists_pieces_append '/' PatchSet.suffix (by decide) name
  have slashless : '/' ∉ last.toList := (slashed_pieces name).2 last (pieces ▸ by simp)
  have named : IsName (last ++ PatchSet.suffix) := PatchSet.isName_file slashless
  have parts : (Path.mk (name ++ PatchSet.suffix)).parts =
      namesOf before ++ [last ++ PatchSet.suffix] := by
    rw [parts_eq, pieces']
    rcases before with _ | ⟨first, before⟩
    · simp [namesOf, named.ne_empty]
    · rw [namesOf_append (List.cons_ne_nil _ _), List.filter_cons_of_pos (by simp [named.not_idle])]
      rfl
  have early : namesOf before <+: (Path.mk name).parts := by
    rw [parts_eq, pieces]
    rcases before with _ | ⟨first, before⟩
    · exact List.nil_prefix
    · rw [namesOf_append (List.cons_ne_nil _ _)]
      exact List.prefix_append _ _
  constructor
  · intro starts
    have absolute : (Path.mk (name ++ PatchSet.suffix)).isAbsolute := starts
    rcases before with _ | ⟨first, before⟩
    · exact ((isAbsolute_of_pieces pieces').mp absolute).2 rfl
    · have blank := ((isAbsolute_of_pieces pieces').mp absolute).1
      exact down.relative ((isAbsolute_of_pieces pieces).mpr ⟨blank, by simp⟩)
  · intro base front above
    rw [parts] at above
    rcases List.prefix_concat_iff.mp above with rfl | above
    · have step : Place.step ((namesOf before).foldl Place.step base) (last ++ PatchSet.suffix) =
          (namesOf before).foldl Place.step base ++ [last ++ PatchSet.suffix] := by
        rw [Place.step, if_neg (by simp [named.not_idle]), if_neg named.ne_points]
      rw [List.foldl_append, List.foldl_cons, List.foldl_nil, step]
      exact (down.stops base _ early).trans (List.prefix_append _ _)
    · exact down.stops base front (above.trans early)

end Path

/-- What is read of a tree is there. -/
theorem TreeHome.exists?_of_read {home : TreeHome} {files : FileMap} {w w' : World}
    (read : home.read w = (.ok files, w')) : w.disk.exists? home.path := by
  cases home with
  | folder p =>
    obtain ⟨listing, w₁, below, -⟩ := bind_ran_iff.mp read
    unfold Action.filesBelow at below
    rw [bind_of_ok (disk_apply w)] at below
    rcases listed : w.disk.files p with e | _ <;> rw [listed] at below <;> cases below
    obtain ⟨_, walked, -⟩ := bind_eq_ok_iff.mp listed
    obtain ⟨_, -, walked⟩ := bind_eq_ok_iff.mp walked
    obtain ⟨node, found, -⟩ := bind_eq_ok_iff.mp walked
    exact exists?_iff.mpr ⟨node, found⟩
  | archive p =>
    obtain ⟨bytes, found, -⟩ := Archive.holds_of_read read
    exact exists?_iff.mpr ⟨_, found⟩

namespace PatchRebuild
variable {r : PatchRebuild} {set : PatchSet} {w : World}

/-- **Whether a set is what making a patch set again computes**: the difference between the trees. -/
def Computes (r : PatchRebuild) (w : World) (set : PatchSet) : Prop :=
  ∃ baseline working skipped, r.Compares w baseline working ∧
    PatchSet.between baseline working r.context r.ignored = .ok (set, skipped)

theorem Computes.unique {set' : PatchSet} (computes : r.Computes w set) (computes' : r.Computes w set') :
    set = set' := by
  obtain ⟨baseline, working, skipped, compares, made⟩ := computes
  obtain ⟨baseline', working', skipped', compares', made'⟩ := computes'
  cases compares.baseline.symm.trans compares'.baseline
  cases compares.working.symm.trans compares'.working
  cases made.symm.trans made'
  rfl

/-- The paths of the files in which a set is kept. -/
def targets (r : PatchRebuild) (set : PatchSet) : List Path := TreeHome.targets r.patches set.files

/-- The files of what is computed lead down. -/
theorem Computes.downward (tree : w.disk.IsTree) (computes : r.Computes w set) :
    ∀ file ∈ set.files, Path.Downward file.1 := by
  obtain ⟨baseline, working, skipped, compares, made⟩ := computes
  have down := TreeHome.downward_read tree (congrArg Prod.fst compares.baseline)
  have down' := TreeHome.downward_read tree (congrArg Prod.fst compares.working)
  obtain ⟨set', inserted, patches⟩ := PatchSet.toList_insertAll (inOrder_treePatches : Patch.InOrder
    (treePatches baseline working r.context r.ignored))
  cases made.symm.trans (PatchSet.between_eq_ok inserted)
  refine List.forall_mem_map.mpr fun p listed => ?_
  rw [patches] at listed
  obtain ⟨compared, differs⟩ := mem_treePatches.mp listed
  have among := mem_comparedPaths_of_ne compared (PathDiff.ne_of_between differs)
  exact ((mem_comparedPaths.mp among).1.elim (down _) (down' _)).file

/-- **A patch set is made again just where its files can be laid out.**  Where none is computed, nothing
changes; where its files cannot be laid out, nothing is left of the older set. -/
theorem run_refills (tree : w.disk.IsTree) (isDir : w.disk.isDir r.patches)
    (ends : r.patches.endsInName)
    (outside : ¬ r.patches.place w.disk.here <+: w.disk.start r.patches) :
    Ends r.run w
      (fun _ _ => ∃ set, r.Computes w set ∧ Layout w.disk.here (r.targets set))
      (fun _ w' => (w' = w ∧ ∀ set, ¬ r.Computes w set) ∨
        ∃ set, r.Computes w set ∧ ¬ Layout w.disk.here (r.targets set) ∧
          ∀ place, r.patches.place w.disk.here <+: place → w'.disk.file? place ≠ none →
            ∃ p ∈ r.targets set, p.place w.disk.here = place) := by
  have missing : ∀ {p : Path} {home : TreeHome}, (!w.disk.exists? p) = true → home.path = p →
      ∀ files, home.read w ≠ (.ok files, w) := by
    rintro _ home absent rfl files read
    rw [TreeHome.exists?_of_read read] at absent
    cases absent
  unfold run
  refine .bind_of_ok (disk_apply w) ?_
  dsimp only
  split
  · refine .throw_bind (.inl ⟨rfl, ?_⟩)
    rintro set ⟨_, _, _, compares, -⟩
    exact missing ‹_› (TreeHome.path_of _ _) _ compares.baseline
  split
  · refine .throw_bind (.inl ⟨rfl, ?_⟩)
    rintro set ⟨_, _, _, compares, -⟩
    exact missing ‹_› (TreeHome.path_of _ _) _ compares.working
  refine Asks.ends_bind (TreeHome.asks_read _) (fun e failed => .inl ⟨rfl, ?_⟩) fun baseline read => ?_
  · rintro set ⟨_, _, _, compares, -⟩
    cases failed.symm.trans compares.baseline
  refine Asks.ends_bind (TreeHome.asks_read _) (fun e failed => .inl ⟨rfl, ?_⟩) fun working read' => ?_
  · rintro set ⟨_, _, _, compares, -⟩
    cases failed.symm.trans compares.working
  obtain ⟨set, inserted, -⟩ := PatchSet.toList_insertAll (inOrder_treePatches : Patch.InOrder
    (treePatches baseline working r.context r.ignored))
  have made := PatchSet.between_eq_ok inserted
  have computes : r.Computes w set := ⟨baseline, working, _, ⟨read, read'⟩, made⟩
  refine Asks.ends_bind (.ofOutcome _) (fun e failed => ?_) fun found known => ?_
  · rw [ofOutcome_apply, made] at failed
    cases failed
  rw [ofOutcome_apply, made] at known
  cases known
  by_cases layout : Layout w.disk.here (r.targets set)
  · obtain ⟨w', written⟩ := TreeHome.exists_refilled isDir ends outside (computes.downward tree) layout
    exact .bind_of_ok written (.pure ⟨set, computes, layout⟩)
  · rcases ran : set.write r.patches w with ⟨e | _, w'⟩
    · exact .bind_of_error ran (.inr ⟨set, computes, layout, fun place =>
        TreeHome.left_of_refilled isDir ends (congrArg Prod.snd ran)⟩)
    · exact absurd (TreeHome.layout_of_refilled tree ran) layout

/-- A disk with a tree that has lost both a file and one below a directory that is named as the patch of
the first, and an older patch. -/
def demoClash : World :=
  ⟨(((((((Disk.empty.put ["b"] .dir).put ["b", "a"] (.file "x\n".toUTF8)).put ["b", "a.patch"] .dir).put
    ["b", "a.patch", "b"] (.file "x\n".toUTF8)).put ["w"] .dir).put ["p"] .dir).put
    ["p", "kept.patch"] (.file "kept".toUTF8)), [], []⟩

def demoClashBaseline : FileMap :=
  FileMap.ofFiles [("a", "x\n".toUTF8), ("a.patch/b", "x\n".toUTF8)]

theorem computes_demoClash : ∃ set, demo.Computes demoClash set ∧
    demo.targets set = [⟨"/p/a.patch"⟩, ⟨"/p/a.patch/b.patch"⟩] := by
  have home : TreeHome.of demoClash.disk demo.baseline = .folder ⟨"/b"⟩ ∧
      TreeHome.of demoClash.disk demo.working = .folder ⟨"/w"⟩ := by
    decide +kernel
  have old : demoClash.disk.files ⟨"/b"⟩ =
      .ok [(["a"], "x\n".toUTF8), (["a.patch", "b"], "x\n".toUTF8)] :=
    eq_ok_of_toOption (by decide +kernel)
  have new : demoClash.disk.files ⟨"/w"⟩ = .ok [] := eq_ok_of_toOption (by decide +kernel)
  have compares : demo.Compares demoClash demoClashBaseline ∅ := by
    constructor
    · rw [home.1, TreeHome.read, TreeHome.readFolder, bind_of_ok (filesBelow_of_files old)]
      rfl
    · rw [home.2, TreeHome.read, TreeHome.readFolder, bind_of_ok (filesBelow_of_files new)]
      rfl
  have compared : comparedPaths demoClashBaseline ∅ [] = ["a", "a.patch/b"] := by decide +kernel
  have versions : demoClashBaseline["a"]? = some "x\n".toUTF8 ∧
      demoClashBaseline["a.patch/b"]? = some "x\n".toUTF8 ∧ (∅ : FileMap)["a"]? = none ∧
      (∅ : FileMap)["a.patch/b"]? = none := by
    decide +kernel
  have patches : treePatches demoClashBaseline ∅ demo.context demo.ignored =
      [⟨"a", .delete, demoPatch.hunks⟩, ⟨"a.patch/b", .delete, demoPatch.hunks⟩] := by
    rw [treePatches, treeDiffs, demo, compared, List.map_cons, List.map_singleton, versions.1,
      versions.2.1, versions.2.2.1, versions.2.2.2, between_demo, between_demo]
    rfl
  obtain ⟨set, inserted, held⟩ := PatchSet.toList_insertAll (inOrder_treePatches : Patch.InOrder
    (treePatches demoClashBaseline ∅ demo.context demo.ignored))
  refine ⟨set, ⟨_, _, _, compares, PatchSet.between_eq_ok inserted⟩, ?_⟩
  rw [targets, TreeHome.targets, PatchSet.files, held, patches, List.map_map]
  decide +kernel

/-- **The older patch is lost** where the patches that were made cannot lie in one folder. -/
theorem run_refills_demo : ∃ e w', demo.run demoClash = (.error e, w') ∧
    demoClash.disk.file? ["p", "kept.patch"] = some "kept".toUTF8 ∧
    w'.disk.file? ["p", "kept.patch"] = none := by
  obtain ⟨set, computes, targets⟩ := computes_demoClash
  have ends := run_refills (r := demo) (w := demoClash) (by decide +kernel) (by decide +kernel)
    (by decide +kernel) (by decide +kernel)
  rcases ran : demo.run demoClash with ⟨e | summary, w'⟩
  · refine ⟨e, w', rfl, by decide +kernel, ?_⟩
    rcases ends.error ran with ⟨-, none⟩ | ⟨set', computes', -, left⟩
    · exact absurd computes (none set)
    · cases computes.unique computes'
      by_contra stands
      obtain ⟨p, listed, same⟩ := left ["p", "kept.patch"] (by decide +kernel) stands
      rw [targets] at listed
      revert same
      revert p
      decide +kernel
  · obtain ⟨set', computes', layout⟩ := ends.ok ran
    cases computes.unique computes'
    rw [targets] at layout
    exact absurd (by decide +kernel) (layout.apart ⟨"/p/a.patch"⟩ (by decide))

end PatchRebuild
end Patchwork
