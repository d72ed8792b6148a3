import Patchwork.Proofs.Disk.Layout
import Patchwork.Proofs.Download.Landed
import Patchwork.Proofs.Patch.Refined
import Patchwork.Proofs.Workspace.Moved
import Patchwork.Proofs.Workspace.Opened

/-! Archives that cannot be opened.  Obtaining and reading an archive disturbs nothing but the directory
for passing files (`Action.Disturbs`, `OpenRequest.disturbs_obtain`), so where that fails, or the archive
is refused, all version directories stay as they are.  Behind that an older directory is removed and the
files of the archive are written one after another, which succeeds if they can be laid out
(`OpenRequest.Unpackable`, `OpenRequest.exists_unpacked`).  So only an archive whose files cannot lie in
one directory is opened in vain after the older directory was removed (`OpenRequest.run_keeps`). -/

namespace Patchwork
open Patchwork.Action Patchwork.Disk

/-! ## Actions that disturb one place -/

namespace Action
variable {α β : Type} {here place more : Place} {action : Action α} {p : Path}

/-- **An action that disturbs one place**: elsewhere it makes directories on the way there, and nothing
else changes. -/
structure Disturbs (here place : Place) (action : Action α) : Prop where
  run : ∀ w : World, w.disk.here = here →
    w.disk.Quiet place (action w).2.disk ∧ (w.disk.IsTree → (action w).2.disk.IsTree)

theorem Asks.disturbs (asks : action.Asks) : Disturbs here place action :=
  ⟨fun w _ => by rw [asks w]; exact ⟨.refl _ _, id⟩⟩

namespace Disturbs

theorem mono (h : Disturbs here more action) (below : place <+: more) : Disturbs here place action :=
  ⟨fun w hw => ⟨(h.run w hw).1.mono below, (h.run w hw).2⟩⟩

theorem bind {f : α → Action β} (first : Disturbs here place action)
    (next : ∀ a, Disturbs here place (f a)) : Disturbs here place (action >>= f) := by
  refine ⟨fun w hw => ?_⟩
  obtain ⟨quiet, tree⟩ := first.run w hw
  rw [bind_apply]
  rcases ran : action w with ⟨e | a, w'⟩ <;> rw [ran] at quiet tree
  · exact ⟨quiet, tree⟩
  · obtain ⟨quiet', tree'⟩ := (next a).run w' (quiet.here.trans hw)
    exact ⟨quiet.trans quiet', tree' ∘ tree⟩

theorem tryCatch {f : Failure → Action α} (first : Disturbs here place action)
    (next : ∀ e, Disturbs here place (f e)) : Disturbs here place (tryCatch action f) := by
  refine ⟨fun w hw => ?_⟩
  obtain ⟨quiet, tree⟩ := first.run w hw
  rw [tryCatch_apply]
  rcases ran : action w with ⟨e | a, w'⟩ <;> rw [ran] at quiet tree
  · obtain ⟨quiet', tree'⟩ := (next e).run w' (quiet.here.trans hw)
    exact ⟨quiet.trans quiet', tree' ∘ tree⟩
  · exact ⟨quiet, tree⟩

theorem remove (p : Path) : Disturbs here (p.place here) (Action.remove p) := by
  refine ⟨fun w hw => ?_⟩
  rw [remove_snd, ← hw]
  exact ⟨quiet_remove w.disk p, fun tree => tree.remove p⟩

theorem discard (p : Path) : Disturbs here (p.place here) (Action.discard p) := by
  refine ⟨fun w hw => ?_⟩
  rw [discard_apply, ← hw]
  exact ⟨quiet_remove w.disk p, fun tree => tree.remove p⟩

section Straight
variable (straight : ".." ∉ p.parts)
include straight

theorem makeDirs : Disturbs here (p.place here) (Action.makeDirs p) := by
  refine ⟨fun w hw => ?_⟩
  rw [Action.makeDirs, changeBy_apply, ← hw]
  exact ⟨(paved_makeDirs w.disk straight).quiet, fun tree => tree.makeDirs p⟩

theorem makeParent : Disturbs here (p.place here) (Action.makeParent p) := by
  refine ⟨fun w hw => ?_⟩
  obtain ⟨d, left, tree, paved⟩ := paved_makeParent straight w
  rw [left, ← hw]
  exact ⟨(paved.mono (stop_prefix_place straight (List.dropLast_prefix _))).quiet, tree⟩

theorem clear : Disturbs here (p.place here) (Action.clear p) :=
  .bind (remove p) fun _ => makeParent straight

end Straight
end Disturbs

/-- What holds where an action fails that uses the directory for passing files, if it does not depend on
what becomes of that directory. -/
theorem Ends.withScratch {s : Surroundings} {use : Path → Action α} {w : World} {kept : World → Prop}
    (unmade : ∀ e w', Action.makeDirs s.scratch w = (.error e, w') → kept w')
    (used : ∀ w', Action.makeDirs s.scratch w = (.ok (), w') →
      Ends (use s.scratch) w' (fun _ _ => True) fun _ w'' => kept w'')
    (discarded : ∀ w', kept w' → kept (w'.withDisk (w'.disk.remove s.scratch).2)) :
    Ends (Action.withScratch s use) w (fun _ _ => True) fun _ w' => kept w' := by
  unfold Action.withScratch
  rcases made : Action.makeDirs s.scratch w with ⟨e | _, w₁⟩
  · exact .bind_of_error made (unmade e w₁ made)
  refine .bind_of_ok made ?_
  have caught : Ends (tryCatch (use s.scratch) fun e => do Action.discard s.scratch; throw e) w₁
      (fun _ _ => True) fun _ w' => kept w' :=
    .tryCatch (used w₁ made) fun e w' holds =>
      .bind_of_ok (discard_apply _ _) (.throw (discarded w' holds))
  exact caught.bind fun a w' _ => .bind_of_ok (discard_apply _ _) (.pure trivial)

end Action

namespace Download
variable {here : Place} {r : Download}

theorem disturbs_install (bytes : ByteArray) :
    Disturbs here (r.target.place here) (r.install bytes) := by
  refine ⟨fun w hw => ?_⟩
  unfold install
  rw [bind_of_ok (disk_apply w)]
  rcases placed : w.disk.placeFile r.target bytes with e | d
  · exact ⟨.refl _ _, id⟩
  · obtain ⟨names, -, -, rfl⟩ := placeFile_eq_ok_iff.mp placed
    obtain ⟨front, name, place⟩ := Path.exists_place_of_endsInName names.ends w.disk.here
    have ne : r.target.place w.disk.here ≠ [] := place ▸ List.concat_ne_nil _ _
    exact ⟨hw ▸ Quiet.put _ ne _, fun tree => tree.placeFile placed⟩

/-- **A download disturbs its target alone.** -/
theorem disturbs_fetch (straight : ".." ∉ r.target.parts) :
    Disturbs here (r.target.place here) r.fetch := by
  have obtaining : r.obtain.Asks := Batch.snd_obtain r
  refine .tryCatch ?_ fun e => .bind (.discard _) fun _ => (Asks.throw e).disturbs
  exact .bind (.clear straight) fun _ => .bind obtaining.disturbs fun got =>
    .bind (disturbs_install got.1) fun _ => (Asks.pure _).disturbs

end Download

namespace OpenRequest
variable {here : Place} {files : FileMap} {dir : Path} {r : OpenRequest} {s : Surroundings} {w : World}
  {p : Profile}

/-! ## Obtaining the archive -/

theorem asks_checkFile (archive : Path) : (checkFile archive).Asks := by
  refine .bind (fun _ => rfl) fun found => ?_
  split
  · refine .bind (.ask _ _) fun text => ?_
    refine .bind (.bind (.bind (.ask _ _) fun _ => .ask _ _) fun _ => .pure _) fun digest => ?_
    split
    · exact .throw _
    · exact .pure _
  · exact .pure _

/-- **Obtaining an archive disturbs the directory for passing files alone.** -/
theorem disturbs_obtain (source : ArchiveSource) {scratch : Path} (straight : ".." ∉ scratch.parts) :
    Disturbs here (scratch.place here) (obtain source scratch) := by
  cases source with
  | file path =>
    refine Asks.disturbs (.bind (fun _ => rfl) fun found => ?_)
    split
    · exact .bind (.throw _) fun _ => .bind (asks_checkFile path) fun _ => .pure _
    · exact .bind (asks_checkFile path) fun _ => .pure _
  | url url =>
    have named : Path.IsName "archive.zip" := by constructor <;> decide
    have straight' : ".." ∉ (scratch.join "archive.zip").parts := by
      rw [Path.parts_join named]
      simp [straight]
    have below : scratch.place here <+: (scratch.join "archive.zip").place here := by
      rw [Path.place_join_of_isName named]
      exact List.prefix_append _ _
    have fetching : (fetchText (url ++ sidecarEnding)).Asks :=
      .bind (fun _ => rfl) fun d => .ofOutcome _
    unfold obtain download
    refine .bind fetching.disturbs fun text => .bind (Asks.ofOutcome _).disturbs fun expected => ?_
    have fetched := @Download.disturbs_fetch here ⟨url, scratch.join "archive.zip", some expected⟩ straight'
    exact .bind (fetched.mono below) fun _ => (Asks.pure _).disturbs

/-! ## Writing the version directory -/

/-- The paths along which the files of a version directory are written. -/
def targets (dir : Path) (files : FileMap) : List Path :=
  Profile.fileIn dir :: TreeHome.targets (dir.join patchesName) (patchFiles files)

/-- **Whether the files of an archive can be laid out** as a version directory: none is named for an
absolute path, and none stands in the way of another. -/
structure Unpackable (here : Place) (dir : Path) (files : FileMap) : Prop where
  takes : Takes (dir.join patchesName)
  relative : ∀ file ∈ patchFiles files, ¬ Text.startsWith "/" file.1
  layout : Layout here (targets dir files)

/-- A patch is written along a path below the version directory. -/
theorem join_patchFile {rest : String} {bytes : ByteArray} (named : Archive.NamesFiles files)
    (listed : (rest, bytes) ∈ patchFiles files) (relative : ¬ Text.startsWith "/" rest) (dir : Path) :
    (dir.join patchesName).join rest = dir.join (patchesName ++ "/" ++ rest) ∧
      Path.Downward (patchesName ++ "/" ++ rest) := by
  have file := named _ (mem_of_mem_patchFiles listed)
  rw [Archive.isFileName, Bool.and_eq_true] at file
  exact ⟨Path.join_join isName_patchesName relative dir, Path.downward_of_contained file.2⟩

theorem downward_fileName : Path.Downward Profile.fileName := Path.downward_of_normal (by decide)

theorem downward_patchesName : Path.Downward patchesName := Path.downward_of_normal (by decide)

/-- What leads to the directory of patches does not lead through a file of the version directory. -/
theorem Unpackable.apart (unpackable : Unpackable here dir files) (ne : dir.text ≠ "") (place : Place)
    (way : dirsFor here (dir.join patchesName) (targets dir files) place) :
    ¬ filesFor here (targets dir files) place := by
  rintro ⟨q, listed, rfl⟩
  have layout := unpackable.layout
  rcases way with ⟨front, above, same⟩ | way
  · rcases List.mem_cons.mp listed with rfl | patch
    · rw [Path.parts_join isName_patchesName] at above
      rcases List.prefix_concat_iff.mp above with rfl | above
      · have whole : stopFrom here (dir.join patchesName) (dir.parts ++ [patchesName]) =
            (dir.join patchesName).place here := by
          rw [Path.place, ← Path.foldl_parts, stopFrom, Path.parts_join isName_patchesName]
        rw [whole, Profile.fileIn, Path.place_join_of_isName isName_patchesName,
          Path.place_join_of_isName Profile.isName_fileName] at same
        exact absurd (List.append_cancel_left same) (by decide)
      · refine layout.apart _ listed (same ▸ ?_)
        rw [stopFrom, Path.isAbsolute_join isName_patchesName]
        exact layout.isWay listed Profile.isName_fileName.relative ne above
    · obtain ⟨file, held, rfl⟩ := List.mem_map.mp patch
      refine layout.apart _ listed (same ▸ ?_)
      exact layout.isWay listed (unpackable.relative file held)
        (Path.text_join_ne_empty isName_patchesName dir) above
  · exact layout.apart q listed way

/-- What is written in a version directory leads down from it. -/
theorem Unpackable.leads (unpackable : Unpackable here dir files) (named : Archive.NamesFiles files)
    (ne : dir.text ≠ "") {q : Path} (listed : q ∈ targets dir files) : Leads here dir q := by
  rcases List.mem_cons.mp listed with rfl | patch
  · exact downward_fileName.leads ne
  · obtain ⟨⟨rest, bytes⟩, held, rfl⟩ := List.mem_map.mp patch
    obtain ⟨same, down⟩ := join_patchFile named held (unpackable.relative _ held) dir
    dsimp only
    rw [same]
    exact down.leads ne

/-- **A version directory can be written** where nothing stands at its place and its files can be laid
out. -/
theorem exists_unpacked (unpackable : Unpackable w.disk.here dir files)
    (named : Archive.NamesFiles files) (ne : dir.text ≠ "")
    (root : w.disk.at? (w.disk.start dir) = some .dir)
    (bare : ∀ names, w.disk.at? (dir.place w.disk.here ++ names) = none)
    (clear : ∀ front, front <+: dir.parts →
      ∀ bytes, w.disk.at? (w.disk.stop dir front) ≠ some (.file bytes)) :
    ∃ w', (do writePatches dir (patchFiles files); p.save dir) w = (.ok (), w') := by
  have apart := unpackable.apart ne
  have leads : ∀ q ∈ targets dir files, Leads w.disk.here dir q := fun q => unpackable.leads named ne
  have zoned := zoned_of_bare bare clear (downward_patchesName.leads ne) leads
  have lots : ∀ q ∈ targets dir files,
      Lot (dirsFor w.disk.here (dir.join patchesName) (targets dir files))
        (filesFor w.disk.here (targets dir files)) w.disk q := fun q listed => by
    refine unpackable.layout.lot ?_ listed
    rw [start, (leads q listed).isAbsolute]
    exact root
  -- the patches, the directory of patches also where there are none, and the profile
  obtain ⟨d₁, written, built₁⟩ := TreeHome.exists_writeFiles apart zoned fun q listed =>
    lots q (.tail _ listed)
  have root₁ : d₁.at? (d₁.start (dir.join patchesName)) = some .dir := by
    rw [start, built₁.here, Path.isAbsolute_join isName_patchesName]
    exact built₁.dir _ root
  have ways : ∀ front, front <+: (dir.join patchesName).parts →
      dirsFor w.disk.here (dir.join patchesName) (targets dir files) (d₁.stop (dir.join patchesName) front) :=
    fun front above => .inl ⟨front, above, (stop_eq built₁.here _ front).symm⟩
  obtain ⟨d₂, dirs, made⟩ := makeDirs_of_clear (.inr unpackable.takes) root₁ fun front above =>
    built₁.zoned.fileless _ (ways front above)
  have built₂ := built₁.trans (built₁.zoned.made apart made ways)
  have stops : ∀ front, front <+: (Profile.fileIn dir).parts → front ≠ (Profile.fileIn dir).parts →
      d₂.at? (d₂.stop (Profile.fileIn dir) front) = some .dir := by
    intro front above proper
    have above := prefix_dropLast above proper
    rw [Profile.fileIn, Path.parts_join Profile.isName_fileName, List.dropLast_concat] at above
    have dir₂ := made.stops front (Path.parts_join isName_patchesName dir ▸
      above.trans (List.prefix_append _ _))
    rw [stop_eq made.here, stop, start, Profile.fileIn, Path.isAbsolute_join Profile.isName_fileName]
    rwa [stop, start, Path.isAbsolute_join isName_patchesName] at dir₂
  obtain ⟨d₃, saved, -⟩ := Zoned.writeFile (w := w.withDisk d₂) apart built₂.zoned
    ((lots _ List.mem_cons_self).of_built built₂) stops p.render.toUTF8
  have created : changeBy (.creating dir.text) (·.makeDirs (dir.join patchesName)) (w.withDisk d₁) =
      (.ok (), w.withDisk d₂) := by
    rw [changeBy_apply, World.withDisk_disk, dirs]
    rfl
  refine ⟨(w.withDisk d₂).withDisk d₃, ?_⟩
  unfold writePatches
  rw [bind_assoc, bind_of_ok written, bind_of_ok created]
  exact saved

/-! ## Files in the way -/

/-- **Whether all version directories are as they were**, whatever lies in them. -/
structure Keeps (r : OpenRequest) (d d' : Disk) : Prop where
  here : d'.here = d.here
  same : ∀ place, r.workspace.versions.place d.here <+: place → d'.at? place = d.at? place

theorem Keeps.refl (r : OpenRequest) (d : Disk) : r.Keeps d d := ⟨rfl, fun _ _ => rfl⟩

theorem Keeps.trans {d d' d'' : Disk} (h : r.Keeps d d') (h' : r.Keeps d' d'') : r.Keeps d d'' :=
  ⟨h'.here.trans h.here, fun place below =>
    (h'.same place (h.here ▸ below)).trans (h.same place below)⟩

/-- What happens elsewhere keeps all version directories. -/
theorem Keeps.of_quiet {place : Place} {d d' : Disk} (quiet : Quiet place d d')
    (out : ¬ place <+: r.workspace.versions.place d.here)
    (out' : ¬ r.workspace.versions.place d.here <+: place) : r.Keeps d d' := by
  refine ⟨quiet.here, fun other below => quiet.at?_eq (fun under => ?_) fun above => ?_⟩
  · exact (List.prefix_or_prefix_of_prefix under below).elim out out'
  · exact out' (below.trans above)

/-- **Where a file is in the way**, writing a version directory leaves everything at and below the file as
it is. -/
theorem kept_of_blocked (tree : w.disk.IsTree) (unpackable : Unpackable w.disk.here dir files)
    (ne : dir.text ≠ "") {front : List String} (above : front <+: dir.parts) {bytes : ByteArray}
    (stands : w.disk.at? (w.disk.stop dir front) = some (.file bytes)) {place : Place}
    (below : w.disk.stop dir front <+: place) {w' : World}
    (left : ((do writePatches dir (patchFiles files); p.save dir) w).2 = w') :
    w'.disk.here = w.disk.here ∧ w'.disk.at? place = w.disk.at? place := by
  have off : ∀ q ∈ targets dir files, q.place w.disk.here ≠ w.disk.stop dir front := by
    intro q listed same
    refine unpackable.layout.apart q listed (same ▸ ?_)
    exact unpackable.layout.isWay List.mem_cons_self Profile.isName_fileName.relative ne above
  have writing : Within w.disk.here (· ≠ w.disk.stop dir front) (writePatches dir (patchFiles files))
      fun _ => True :=
    .bind (TreeHome.within_writeFiles fun q listed => off q (.tail _ listed)) fun _ _ =>
      .changeBy _ fun d _ => (d.sameBut_makeDirs _).mono fun _ => False.elim
  have within : Within w.disk.here (· ≠ w.disk.stop dir front)
      (do writePatches dir (patchFiles files); p.save dir) fun _ => True :=
    .bind writing fun _ _ => .writeFile _ (off _ List.mem_cons_self)
  have steady : Steady w.disk.here (fun _ => False) (fun _ _ => True)
      (do writePatches dir (patchFiles files); p.save dir) := by
    have fresh : ∀ q, Fresh w.disk.here (fun _ => False) q := fun _ _ _ => id
    refine .bind (.bind (.forM ?_) fun _ => ?_) fun _ => .write (fresh _) _ _
    · rintro ⟨rest, content⟩ -
      exact .bind (.makeParent_of_fresh (fresh _)) fun _ => .write (fresh _) _ _
    · exact .changeBy fun d d' hd alike => alike.makeDirs (hd ▸ fresh _)
  have same := (within.sameBut (w := w) rfl).file? (w.disk.stop dir front) (not_not.mpr rfl)
  obtain ⟨-, twins⟩ := steady.run w w (.self tree)
  rw [left] at same twins
  have stands' : w'.disk.at? (w.disk.stop dir front) = some (.file bytes) := by
    rw [file?, file?, stands] at same
    split at same
    · rename_i content there
      rw [there, Option.some.inj same]
    · cases same
  obtain ⟨names, rfl⟩ := below
  refine ⟨twins.here', ?_⟩
  by_cases deep : names = []
  · rw [deep, List.append_nil, stands, stands']
  · rw [tree.none_of_file stands deep, twins.alike.tree.none_of_file stands' deep]

/-! ## Opening -/

/-- Where no file is in the way of a path, nothing is at its place or below it if it leads nowhere. -/
theorem bare_of_clear {q : Path} {e : IoError} (tree : w.disk.IsTree) (straight : ".." ∉ q.parts)
    (takes : Takes q) (file : q.meansDir = false) (clear : w.disk.Clear q)
    (lost : w.disk.find q = .error e) (names : List String) :
    w.disk.at? (q.place w.disk.here ++ names) = none := by
  refine none_of_notFound tree straight takes.fits.ne_empty ?_ names
  rcases locate_of_clear takes clear with led | ⟨missing, -⟩
  · unfold find at lost ⊢
    rw [led, ok_bind] at lost ⊢
    split at lost
    · rfl
    · cases lost
    · rw [if_neg (by simp [file])] at lost
      cases lost
  · unfold find
    rw [missing]
    rfl

theorem straight_versions (straight : ".." ∉ r.workspace.root.parts) :
    ".." ∉ r.workspace.versions.parts := by
  rw [Workspace.versions, Path.parts_join isName_versionsName]
  simp [straight, versionsName]

/-- The version directories lie below the place where the path of the workspace starts. -/
theorem start_prefix_versions (straight : ".." ∉ r.workspace.root.parts) (d : Disk) :
    d.start r.workspace.root <+: r.workspace.versions.place d.here := by
  have above := stop_prefix_place (d := d) (straight_versions straight) List.nil_prefix
  rwa [stop, List.foldl_nil, Disk.start, Workspace.versions,
    Path.isAbsolute_join isName_versionsName] at above

section Version
variable {name : String} (tree : w.disk.IsTree) (straight : ".." ∉ r.workspace.root.parts)
  (root : w.disk.at? (w.disk.start r.workspace.root) = some .dir) (plain : isPlainName name)
  (named : Archive.NamesFiles files)
  (unpackable : Unpackable w.disk.here (r.workspace.versionDir name) files)

omit tree straight root plain in
include plain in
theorem start_versionDir (d : Disk) :
    d.start (r.workspace.versionDir name) = d.start r.workspace.root := by
  rw [Disk.start, Disk.start, Workspace.versionDir,
    Path.isAbsolute_join (isName_of_isPlainName plain), Workspace.versions,
    Path.isAbsolute_join isName_versionsName]

include plain unpackable in
theorem takes_versionDir : Takes (r.workspace.versionDir name) :=
  unpackable.takes.of_join isName_patchesName
    (Path.text_join_ne_empty (isName_of_isPlainName plain) r.workspace.versions)

include tree straight root plain named unpackable

/-- Where the version directory is not there and no file is in the way, it is written. -/
theorem exists_unpacked_of_free {e : IoError} (clear : w.disk.Clear (r.workspace.versionDir name))
    (lost : w.disk.find (r.workspace.versionDir name) = .error e) :
    ∃ w', (do
      writePatches (r.workspace.versionDir name) (patchFiles files)
      p.save (r.workspace.versionDir name)) w = (.ok (), w') := by
  have isName := isName_of_isPlainName plain
  have onward : ".." ∉ (r.workspace.versionDir name).parts := by
    rw [Workspace.versionDir, Path.parts_join isName]
    simp [straight_versions straight, isName.ne_points.symm]
  have bare := bare_of_clear tree onward (takes_versionDir plain unpackable) (Path.meansDir_join isName _)
    clear lost
  have root' : w.disk.at? (w.disk.start (r.workspace.versionDir name)) = some .dir := by
    rw [start_versionDir plain, root]
  refine exists_unpacked unpackable named (Path.text_join_ne_empty isName _) root' bare
    fun front above bytes stands => ?_
  by_cases last : front = (r.workspace.versionDir name).parts
  · have free := bare []
    rw [List.append_nil, ← stop_parts, ← last, stands] at free
    cases free
  · exact clear front above last bytes stands

omit tree in
/-- Where the version directory is removed first, it is written again. -/
theorem exists_unpacked_of_erased {node : Node}
    (found : w.disk.find (r.workspace.versionDir name) = .ok node) :
    ∃ w', (do
      writePatches (r.workspace.versionDir name) (patchFiles files)
      p.save (r.workspace.versionDir name))
        (w.withDisk (w.disk.erase ((r.workspace.versionDir name).place w.disk.here))) = (.ok (), w') := by
  have isName := isName_of_isPlainName plain
  have place : (r.workspace.versionDir name).place w.disk.here =
      r.workspace.versions.place w.disk.here ++ [name] := Path.place_join_of_isName isName _ _
  obtain ⟨bare, clear⟩ := bare_of_erase found (Path.endsInName_join isName _)
  refine exists_unpacked unpackable named (Path.text_join_ne_empty isName _) ?_ bare clear
  have top : (r.workspace.versionDir name).place w.disk.here ≠ [] := place ▸ List.concat_ne_nil _ _
  have start : (w.disk.erase ((r.workspace.versionDir name).place w.disk.here)).start
      (r.workspace.versionDir name) = w.disk.start r.workspace.root := start_versionDir plain w.disk
  rw [World.withDisk_disk, start, at?_erase _ top, if_neg, root]
  intro below
  have longer := (below.trans (start_prefix_versions straight w.disk)).length_le
  rw [place, List.length_append, List.length_singleton] at longer
  omega

omit root named in
/-- Where a file is in the way, everything that version directories could hold lies at or below it. -/
theorem keeps_of_blocked (blocked : ¬ w.disk.Clear (r.workspace.versionDir name)) :
    r.Keeps w.disk ((do
      writePatches (r.workspace.versionDir name) (patchFiles files)
      p.save (r.workspace.versionDir name)) w).2.disk := by
  have isName := isName_of_isPlainName plain
  obtain ⟨front, above, proper, bytes, stands⟩ : ∃ front, front <+: (r.workspace.versionDir name).parts ∧
      front ≠ (r.workspace.versionDir name).parts ∧ ∃ bytes,
        w.disk.at? (w.disk.stop (r.workspace.versionDir name) front) = some (.file bytes) := by
    simpa [Disk.Clear] using blocked
  have higher : w.disk.stop (r.workspace.versionDir name) front <+:
      r.workspace.versions.place w.disk.here := by
    have above := prefix_dropLast above proper
    rw [Workspace.versionDir, Path.parts_join isName, List.dropLast_concat] at above
    have higher := stop_prefix_place (d := w.disk) (straight_versions straight) above
    rwa [stop, Disk.start, ← Path.isAbsolute_join isName] at higher
  have kept := fun place below => @kept_of_blocked files _ w p tree unpackable
    (Path.text_join_ne_empty isName _) front above bytes stands place below _ rfl
  exact ⟨(kept _ higher).1, fun place below => (kept place (higher.trans below)).2⟩

/-- **Making a version directory of files that can be laid out** fails with all version directories as
they are. -/
theorem ends_makeVersion {summary : OpenSummary} :
    Ends (do
        r.makeRoom (r.workspace.versionDir name)
        writePatches (r.workspace.versionDir name) (patchFiles files)
        p.save (r.workspace.versionDir name)
        return summary) w (fun _ _ => True) fun _ w' => r.Keeps w.disk w'.disk := by
  have writing : ∀ {w₁ : World}, Ends (do
      writePatches (r.workspace.versionDir name) (patchFiles files)
      p.save (r.workspace.versionDir name)) w₁ (fun _ _ => True) (fun _ w' => r.Keeps w.disk w'.disk) →
      Ends (do
        writePatches (r.workspace.versionDir name) (patchFiles files)
        p.save (r.workspace.versionDir name)
        return summary) w₁ (fun _ _ => True) fun _ w' => r.Keeps w.disk w'.disk := fun ends => by
    rw [← bind_assoc]
    exact ends.bind fun _ _ _ => .pure trivial
  unfold makeRoom
  rw [bind_assoc]
  refine .bind_of_ok (exists?_apply _ w) ?_
  rcases found : w.disk.find (r.workspace.versionDir name) with e | node
  · rw [exists?_eq_false_of_error found]
    refine .bind_of_ok rfl (writing ?_)
    by_cases clear : w.disk.Clear (r.workspace.versionDir name)
    · obtain ⟨w', ran⟩ := exists_unpacked_of_free tree straight root plain named unpackable clear found
      exact .of_ok ran trivial
    · refine ⟨fun _ => trivial, fun ran => ?_⟩
      have kept := keeps_of_blocked (p := p) tree straight plain unpackable clear
      rwa [ran] at kept
  · rw [exists?_iff.mpr ⟨node, found⟩]
    by_cases replace : r.replace = true
    · have removed := Action.remove_of_find found (Path.endsInName_join (isName_of_isPlainName plain) _)
      rw [replace]
      obtain ⟨w', ran⟩ := exists_unpacked_of_erased straight root plain named unpackable found
      exact .bind_of_ok removed (writing (.of_ok ran trivial))
    · rw [Bool.eq_false_iff.mpr replace]
      exact .bind_of_error rfl (.refl r w.disk)

end Version

/-- Whether what is opened is an archive whose files cannot be laid out as a version directory. -/
def Clashes (r : OpenRequest) (s : Surroundings) (w : World) : Prop :=
  ∃ archive files toolchain, (r.content s w).1 = .ok (archive, files) ∧
    toolchainIn archive files = .ok toolchain ∧
    ¬ Unpackable w.disk.here (r.workspace.versionDir (r.name.getD toolchain.version)) files

/-- **A failed opening keeps all version directories**, unless the files of the archive cannot be laid out
as a version directory. -/
theorem run_keeps (tree : w.disk.IsTree) (straight : ".." ∉ r.workspace.root.parts)
    (root : w.disk.at? (w.disk.start r.workspace.root) = some .dir) (scratch : ".." ∉ s.scratch.parts)
    (apart : w.disk.Apart s.scratch r.workspace.versions) :
    Ends (run s r) w (fun _ _ => True) fun _ w' => r.Keeps w.disk w'.disk ∨ r.Clashes s w := by
  have passing : ∀ {d d' : Disk}, d.here = w.disk.here →
      Quiet (s.scratch.place d.here) d d' → r.Keeps d d' := fun here quiet =>
    .of_quiet quiet (here ▸ apart.above) (here ▸ apart.below)
  obtain ⟨quiet₁, tree₁⟩ := (Disturbs.makeDirs scratch).run w rfl
  refine .withScratch (fun e w' unmade => ?_) (fun w₁ made => ?_) fun w' kept => ?_
  · rw [unmade] at quiet₁
    exact .inl (passing rfl quiet₁)
  · rw [made] at quiet₁ tree₁
    obtain ⟨quiet₂, tree₂⟩ := (disturbs_obtain r.source scratch).run w₁ quiet₁.here
    have quiet₂ := quiet₁.trans quiet₂
    rcases obtained : obtain r.source s.scratch w₁ with ⟨e | archive, w₂⟩ <;> rw [obtained] at quiet₂ tree₂
    · exact .bind_of_error obtained (.inl (passing rfl quiet₂))
    have kept := passing rfl quiet₂
    refine .bind_of_ok obtained ?_
    unfold unpack
    refine Asks.ends_bind (Archive.asks_read archive) (fun _ _ => .inl kept) fun files read => ?_
    refine Asks.ends_bind (.ofOutcome _) (fun _ _ => .inl kept) fun toolchain found => ?_
    refine Asks.ends_bind (.ofOutcome _) (fun _ _ => .inl kept) fun _ checked => ?_
    rw [ofOutcome_apply] at found checked
    have content : (r.content s w).1 = .ok (archive, files) := by
      unfold content
      rw [bind_of_ok made, bind_of_ok obtained, bind_of_ok read]
      rfl
    by_cases unpackable : Unpackable w.disk.here
      (r.workspace.versionDir (r.name.getD toolchain.version)) files
    · rw [← quiet₂.here] at unpackable
      have named : Archive.NamesFiles files :=
        (Archive.within_read archive : Within w₂.disk.here (fun _ => True) _ _).returns w₂ rfl files
          (congrArg Prod.fst read)
      have start : w₂.disk.start r.workspace.root = w.disk.start r.workspace.root := by
        rw [Disk.start, Disk.start, quiet₂.here]
      have root₂ : w₂.disk.at? (w₂.disk.start r.workspace.root) = some .dir := by
        rw [start]
        rcases quiet₂.outside (w.disk.start r.workspace.root) fun under =>
          apart.above (under.trans (start_prefix_versions straight w.disk)) with same | ⟨-, dir, -⟩
        · exact same.trans root
        · exact dir
      refine (ends_makeVersion (tree₂ (tree₁ tree)) straight root₂
        (checkName_eq_ok_iff.mp (congrArg Prod.fst checked)) named unpackable).imp (fun _ _ => id) ?_
      exact fun _ _ keeps => .inl (kept.trans keeps)
    · exact ⟨fun _ => trivial, fun _ => .inr ⟨archive, files, toolchain, content,
        congrArg Prod.fst found, unpackable⟩⟩
  · rcases kept with kept | clashes
    · exact .inl (kept.trans (passing kept.here (quiet_remove w'.disk s.scratch)))
    · exact .inr clashes

/-- A disk with a version directory and an archive with nothing in it. -/
def demoWorld : World :=
  ⟨(((((Disk.empty.put ["ws"] .dir).put ["ws", "versions"] .dir).put ["ws", "versions", "x"] .dir).put
    ["ws", "versions", "x", "kept"] (.file "kept".toUTF8)).put ["t.zip"] (.file (Zip.encode []))), [], []⟩

def demoSurroundings : Surroundings where
  isRepository _ := false
  git _ := .ok ()
  run _ _ d := (.ok ⟨0, 0⟩, d)
  scratch := ⟨"/passing"⟩

/-- Opening the archive in the place of the version directory. -/
def demo : OpenRequest := ⟨⟨⟨"/ws"⟩⟩, .file ⟨"/t.zip"⟩, some "x", true⟩

/-- Nothing is read in the archive that could be laid out. -/
theorem not_clashes_demo : ¬ demo.Clashes demoSurroundings demoWorld := by
  rintro ⟨archive, files, toolchain, content, found, -⟩
  have none : ((do
      let opened ← demo.content demoSurroundings
      ofOutcome (toolchainIn opened.1 opened.2)) demoWorld).1.toOption.isNone := by
    decide +kernel
  have ran : demo.content demoSurroundings demoWorld =
      (.ok (archive, files), (demo.content demoSurroundings demoWorld).2) := Prod.ext content rfl
  rw [bind_of_ok ran, ofOutcome_apply, found] at none
  cases none

/-- An archive without metadata is refused, and the version directory that it was to replace stays. -/
theorem run_keeps_demo : ∃ e w', run demoSurroundings demo demoWorld = (.error e, w') ∧
    w'.disk.at? ["ws", "versions", "x", "kept"] = some (.file "kept".toUTF8) := by
  have failed : (run demoSurroundings demo demoWorld).1.toOption = none := by decide +kernel
  have ends := run_keeps (s := demoSurroundings) (r := demo) (w := demoWorld) (by decide +kernel)
    (by decide +kernel) (by decide +kernel) (by decide +kernel) (by decide +kernel)
  rcases ran : run demoSurroundings demo demoWorld with ⟨e | summary, w'⟩
  · refine ⟨e, w', rfl, ?_⟩
    have kept := (ends.error ran).resolve_right not_clashes_demo
    rw [kept.same _ (by decide +kernel)]
    decide +kernel
  · rw [ran] at failed
    cases failed

end OpenRequest
end Patchwork
