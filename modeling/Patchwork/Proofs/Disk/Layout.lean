import Mathlib.Data.List.Infix
import Patchwork.Proofs.Archive.Kept
import Patchwork.Proofs.Disk.Alike
import Patchwork.Proofs.Disk.Copy
import Patchwork.Proofs.Disk.Trees
import Patchwork.Proofs.Steady

/-! Files that are laid out together.  Files can be written along several paths where each path is one
for a file and none of them leads through the place of another (`Disk.Layout`).  Files that stand on one
disk are laid out (`Disk.layout_of_isFile`), so this is necessary for all of them to be written
(`TreeHome.layout_of_writeFiles`).  It is sufficient where nothing else is in the way: on a disk with
places for directories and places for files (`Disk.Zoned`) the directories can be made and the files be
written (`Disk.Zoned.write`, `TreeHome.exists_writeFiles`), and such is a disk with nothing at or below
the directory that all the paths lead down from (`Disk.zoned_of_bare`, `Path.Downward.leads`). -/

namespace Patchwork
open Patchwork.Action Disk

namespace Disk
open Path
variable {here place : Place} {ps : List Path} {p q dir : Path} {d d' d'' : Disk}
  {dirs files : Place → Prop} {bytes : ByteArray} {w : World}

/-! ## Layouts -/

/-- Whether one of some paths leads through a place. -/
def IsWay (here : Place) (ps : List Path) (place : Place) : Prop :=
  ∃ p ∈ ps, ∃ front, front <+: p.parts ∧ front ≠ p.parts ∧ stopFrom here p front = place

instance (here : Place) (ps : List Path) (place : Place) : Decidable (IsWay here ps place) :=
  decidable_of_iff (∃ p ∈ ps, ∃ front ∈ p.parts.inits, front ≠ p.parts ∧ stopFrom here p front = place)
    (by simp only [IsWay, List.mem_inits])

/-- **Whether files can be laid out along some paths**: each path is one for a file, and no file comes
to stand where one of the paths leads through. -/
structure Layout (here : Place) (ps : List Path) : Prop where
  takes : ∀ p ∈ ps, Takes p
  file : ∀ p ∈ ps, p.meansDir = false
  apart : ∀ p ∈ ps, ¬ IsWay here ps (p.place here)

-- A file cannot lie in another file, and its path cannot come back to it.
example : IsWay [] [⟨"/p/a.patch"⟩, ⟨"/p/a.patch/b.patch"⟩] ((Path.mk "/p/a.patch").place []) ∧
    IsWay [] [⟨"/p/a.patch/../a.patch"⟩] ((Path.mk "/p/a.patch/../a.patch").place []) := by
  decide +kernel

/-- **Files that stand on one disk are laid out.** -/
theorem layout_of_isFile (stand : ∀ p ∈ ps, d.isFile p) : Layout d.here ps := by
  have found : ∀ p ∈ ps, ∃ bytes, Takes p ∧ p.meansDir = false ∧
      (∀ front, front <+: p.parts → front ≠ p.parts → d.at? (d.stop p front) = some .dir) ∧
      d.at? (p.place d.here) = some (.file bytes) := fun p listed => by
    obtain ⟨bytes, found⟩ := isFile_iff.mp (stand p listed)
    exact ⟨bytes, find_file_iff.mp found⟩
  refine ⟨fun p listed => ?_, fun p listed => ?_, fun p listed => ?_⟩
  · obtain ⟨-, takes, -⟩ := found p listed
    exact takes
  · obtain ⟨-, -, file, -⟩ := found p listed
    exact file
  · rintro ⟨q, listed', front, above, proper, same⟩
    obtain ⟨bytes, -, -, -, stands⟩ := found p listed
    obtain ⟨-, -, -, dirs, -⟩ := found q listed'
    have dir : d.at? (stopFrom d.here q front) = some .dir := dirs front above proper
    rw [same, stands] at dir
    cases dir

/-! ## Zones -/

/-- **A disk with places for directories and places for files**: no file stands at the ones, and no
directory at the others. -/
structure Zoned (dirs files : Place → Prop) (d : Disk) : Prop where
  fileless : ∀ place, dirs place → ∀ bytes, d.at? place ≠ some (.file bytes)
  dirless : ∀ place, files place → d.at? place ≠ some .dir

/-- **A zoned disk that was built on**: the directories are still there. -/
structure Built (dirs files : Place → Prop) (d d' : Disk) : Prop where
  here : d'.here = d.here
  zoned : d'.Zoned dirs files
  dir : ∀ place, d.at? place = some .dir → d'.at? place = some .dir

theorem Built.trans (built : Built dirs files d d') (built' : Built dirs files d' d'') :
    Built dirs files d d'' :=
  ⟨built'.here.trans built.here, built'.zoned, fun place dir => built'.dir place (built.dir place dir)⟩

/-- **A lot for a file**: its path leads from a directory through places for directories to a place for
files. -/
structure Lot (dirs files : Place → Prop) (d : Disk) (p : Path) : Prop where
  takes : Takes p
  file : p.meansDir = false
  root : d.at? (d.start p) = some .dir
  ways : ∀ front, front <+: p.parts → front ≠ p.parts → dirs (d.stop p front)
  site : files (p.place d.here)

theorem Lot.of_built (lot : Lot dirs files d p) (built : Built dirs files d d') :
    Lot dirs files d' p := by
  refine ⟨lot.takes, lot.file, ?_, fun front above proper => ?_, ?_⟩
  · rw [start, built.here]
    exact built.dir _ lot.root
  · rw [stop_eq built.here]
    exact lot.ways front above proper
  · rw [built.here]
    exact lot.site

section Building
variable (apart : ∀ place, dirs place → ¬ files place)
include apart

/-- Directories are made at places for them. -/
theorem Zoned.pave (zoned : d.Zoned dirs files) (here : d'.here = d.here)
    (others : ∀ place, d'.at? place = d.at? place ∨
      d.at? place = none ∧ d'.at? place = some .dir ∧ dirs place) : Built dirs files d d' := by
  refine ⟨here, ⟨fun place way bytes stands => ?_, fun place site stands => ?_⟩, fun place dir => ?_⟩ <;>
    rcases others place with same | ⟨free, made, for_dir⟩
  · exact zoned.fileless place way bytes (same ▸ stands)
  · cases made.symm.trans stands
  · exact zoned.dirless place site (same ▸ stands)
  · exact apart place for_dir site
  · rw [same, dir]
  · exact made

/-- A file is put at a place for files. -/
theorem Zoned.put (zoned : d.Zoned dirs files) (site : files place) (bytes : ByteArray) :
    Built dirs files d (d.put place (.file bytes)) := by
  have vacant := zoned.dirless place site
  have top : place ≠ [] := fun top => vacant (top ▸ at?_nil d)
  refine ⟨rfl, ⟨fun other way bytes' stands => ?_, fun other site' stands => ?_⟩, fun other dir => ?_⟩
  · have ne : other ≠ place := fun same => apart place (same ▸ way) site
    rw [at?_put d place _ ne] at stands
    exact zoned.fileless other way bytes' stands
  · rw [at?_put_eq d top] at stands
    split at stands
    · cases stands
    · exact zoned.dirless other site' stands
  · have ne : other ≠ place := fun same => vacant (same ▸ dir)
    rw [at?_put d place _ ne, dir]

theorem Zoned.made (zoned : d.Zoned dirs files) (made : Made d p d')
    (ways : ∀ front, front <+: p.parts → dirs (d.stop p front)) : Built dirs files d d' := by
  refine zoned.pave apart made.here fun place => (made.others place).imp_right ?_
  rintro ⟨free, dir, front, above, rfl⟩
  exact ⟨free, dir, ways front above⟩

theorem Zoned.madeAbove (zoned : d.Zoned dirs files) (made : MadeAbove d p d')
    (ways : ∀ front, front <+: p.parts → front ≠ p.parts → dirs (d.stop p front)) :
    Built dirs files d d' := by
  refine zoned.pave apart made.here fun place => (made.others place).imp_right ?_
  rintro ⟨free, dir, front, above, proper, rfl⟩
  exact ⟨free, dir, ways front above proper⟩

/-- **A file can be written on its lot** where a directory stands at each stop. -/
theorem Zoned.writeFile (zoned : w.disk.Zoned dirs files) (lot : Lot dirs files w.disk p)
    (stops : ∀ front, front <+: p.parts → front ≠ p.parts →
      w.disk.at? (w.disk.stop p front) = some .dir) (bytes : ByteArray) :
    ∃ d, Action.writeFile p bytes w = (.ok (), w.withDisk d) ∧ Built dirs files w.disk d := by
  have written := write_of_stops lot.takes lot.file stops (zoned.dirless _ lot.site) bytes
  refine ⟨_, ?_, zoned.put apart lot.site bytes⟩
  rw [Action.writeFile, change_apply, written]
  rfl

/-- **A file can be written on its lot**, with the directories that are missing on the way to it. -/
theorem Zoned.write (zoned : w.disk.Zoned dirs files) (lot : Lot dirs files w.disk p)
    (bytes : ByteArray) :
    ∃ d, (do Action.makeParent p; Action.writeFile p bytes) w = (.ok (), w.withDisk d) ∧
      Built dirs files w.disk d := by
  have deep : p.parts ≠ [] := by
    intro none
    refine zoned.dirless _ lot.site ?_
    rw [← stop_parts, none]
    exact lot.root
  obtain ⟨d₁, parent, made⟩ := makeParent_of_clear deep lot.takes lot.root fun front above proper =>
    zoned.fileless _ (lot.ways front above proper)
  have built := zoned.madeAbove apart made lot.ways
  obtain ⟨d₂, written, built'⟩ := Zoned.writeFile (w := w.withDisk d₁) apart built.zoned
    (lot.of_built built) (fun front above proper =>
      stop_eq made.here p front ▸ made.stops front above proper) bytes
  exact ⟨d₂, (bind_of_ok parent _).trans written, built.trans built'⟩

end Building

/-! ## Zones of a layout -/

/-- **A path that leads down from another one**: it stops where the other one does, or at or below the
place that this leads to. -/
structure Leads (here : Place) (dir p : Path) : Prop where
  isAbsolute : p.isAbsolute = dir.isAbsolute
  stops : ∀ front, front <+: p.parts →
    (∃ front', front' <+: dir.parts ∧ stopFrom here p front = stopFrom here dir front') ∨
      dir.place here <+: stopFrom here p front
  below : dir.place here <+: p.place here

theorem Leads.refl (here : Place) (dir : Path) : Leads here dir dir :=
  ⟨rfl, fun front above => .inl ⟨front, above, rfl⟩, List.prefix_rfl⟩

/-- The places for directories when files are laid out and one directory is made. -/
def dirsFor (here : Place) (dir : Path) (ps : List Path) (place : Place) : Prop :=
  (∃ front, front <+: dir.parts ∧ stopFrom here dir front = place) ∨ IsWay here ps place

/-- The places for files when files are laid out. -/
def filesFor (here : Place) (ps : List Path) (place : Place) : Prop := ∃ p ∈ ps, p.place here = place

/-- The lots of a layout. -/
theorem Layout.lot (layout : Layout d.here ps) (root : d.at? (d.start p) = some .dir)
    (listed : p ∈ ps) : Lot (dirsFor d.here q ps) (filesFor d.here ps) d p :=
  ⟨layout.takes p listed, layout.file p listed, root,
    fun front above proper => .inr ⟨p, listed, front, above, proper, rfl⟩, p, listed, rfl⟩

theorem meansDir_join_of_idle {rest : String} (relative : ¬ Text.startsWith "/" rest) (ne : p.text ≠ "")
    (idle : ∀ piece ∈ Text.pieces '/' rest, isIdle piece) : (p.join rest).meansDir = true := by
  have single : "/".toList = ['/'] := by decide
  obtain ⟨front, -, -, text⟩ := (exists_text_join relative p).resolve_left fun blank => ne blank.1
  obtain ⟨before, last, pieces⟩ := (List.eq_nil_or_concat _).resolve_left (pieces_ne_nil rest)
  obtain ⟨first, more, pieces'⟩ := List.exists_cons_of_ne_nil (pieces_ne_nil front)
  have behind : (Text.pieces '/' front).reverse ≠ [] := by simp [pieces']
  unfold meansDir
  rw [text, Text.pieces_append single, List.reverse_append, pieces, List.concat_eq_append,
    List.reverse_concat, List.cons_append]
  obtain ⟨second, others, whole⟩ :=
    List.exists_cons_of_ne_nil (List.append_ne_nil_of_right_ne_nil before.reverse behind)
  rw [whole]
  exact idle last (by simp [pieces])

/-- **A path leads on from where another one leads** if it is laid out behind this one. -/
theorem Layout.isWay (layout : Layout here ps) {rest : String} (listed : p.join rest ∈ ps)
    (relative : ¬ Text.startsWith "/" rest) (ne : p.text ≠ "") {front : List String}
    (above : front <+: p.parts) : IsWay here ps (stopFrom here p front) := by
  have parts := parts_join_of_relative relative ne
  refine ⟨_, listed, front, above.trans (parts ▸ List.prefix_append _ _), ?_, ?_⟩
  · rintro rfl
    have none : (Text.pieces '/' rest).filter (!isIdle ·) = [] := by
      have shorter := above.length_le
      rw [parts, List.length_append] at shorter
      exact List.length_eq_zero_iff.mp (by omega)
    have meant := meansDir_join_of_idle (p := p) relative ne fun piece within => by
      simpa using List.filter_eq_nil_iff.mp none piece within
    rw [layout.file _ listed] at meant
    cases meant
  · rw [stopFrom, stopFrom, isAbsolute_join_of_relative relative]

/-- **Where nothing stands at or below a directory, there is room** for all that leads down from it. -/
theorem zoned_of_bare (bare : ∀ names, d.at? (dir.place d.here ++ names) = none)
    (clear : ∀ front, front <+: dir.parts → ∀ bytes, d.at? (d.stop dir front) ≠ some (.file bytes))
    (leads : Leads d.here dir q) (leads' : ∀ p ∈ ps, Leads d.here dir p) :
    d.Zoned (dirsFor d.here q ps) (filesFor d.here ps) := by
  have none : ∀ {place}, dir.place d.here <+: place → d.at? place = none := by
    rintro _ ⟨names, rfl⟩
    exact bare names
  have fileless : ∀ {p}, Leads d.here dir p → ∀ front, front <+: p.parts →
      ∀ bytes, d.at? (stopFrom d.here p front) ≠ some (.file bytes) := by
    intro p leads front above bytes stands
    rcases leads.stops front above with ⟨front', above', same⟩ | below
    · rw [same] at stands
      exact clear front' above' bytes stands
    · rw [none below] at stands
      cases stands
  constructor
  · rintro _ (⟨front, above, rfl⟩ | ⟨p, listed, front, above, -, rfl⟩)
    · exact fileless leads front above
    · exact fileless (leads' p listed) front above
  · rintro _ ⟨p, listed, rfl⟩ stands
    rw [none (leads' p listed).below] at stands
    cases stands

/-- What is left of something that is removed: nothing at its place or below, and no file on the way
there. -/
theorem bare_of_erase {node : Node} (found : d.find p = .ok node) (ends : p.endsInName) :
    (∀ names, (d.erase (p.place d.here)).at? (p.place d.here ++ names) = none) ∧
      ∀ front, front <+: p.parts →
        ∀ bytes, (d.erase (p.place d.here)).at? (d.stop p front) ≠ some (.file bytes) := by
  obtain ⟨place, led, -⟩ := locate_of_find found
  obtain ⟨-, rfl, stops⟩ := locate_iff.mp led
  obtain ⟨above, name, named⟩ := exists_place_of_endsInName ends d.here
  have top : p.place d.here ≠ [] := named ▸ List.concat_ne_nil _ _
  constructor
  · exact fun names => (at?_erase d top _).trans (if_pos (List.prefix_append _ _))
  · intro front above bytes file
    rw [at?_erase d top] at file
    split at file
    · cases file
    · rename_i kept
      have proper : front ≠ p.parts := by
        rintro rfl
        exact kept (stop_parts d p ▸ List.prefix_rfl)
      rw [stops front above proper] at file
      cases file

/-! ## Files that stay -/

/-- A file that was written leaves the other files where they are. -/
theorem Written.isFile (written : Written p d d') (tree : d.IsTree) (stands : d.isFile q) :
    d'.isFile q := by
  obtain ⟨bytes, found⟩ := isFile_iff.mp stands
  by_cases same : q.place d.here = p.place d.here
  · obtain ⟨takes, file, stops, -⟩ := find_file_iff.mp found
    obtain ⟨bytes', stands'⟩ := written.file
    refine isFile_iff.mpr ⟨bytes', find_file_iff.mpr ⟨takes, file, fun front above proper => ?_, ?_⟩⟩
    · rw [stop_eq written.grown.here]
      exact written.dir tree (stops front above proper)
    · rw [written.grown.here, same, stands']
  · exact isFile_iff.mpr ⟨bytes, written.find_of_find tree same found⟩

end Disk

namespace TreeHome
open Disk
variable {w w' : World} {p : Path} {list : List (String × ByteArray)} {dirs files : Place → Prop}

/-- The paths along which files are written below a directory. -/
def targets (p : Path) (list : List (String × ByteArray)) : List Path :=
  list.map fun file => p.join file.1

/-- **Files are written on their lots**, one after another. -/
theorem exists_writeFiles (apart : ∀ place, dirs place → ¬ files place)
    (zoned : w.disk.Zoned dirs files) (lots : ∀ q ∈ targets p list, Lot dirs files w.disk q) :
    ∃ d, writeFiles p list w = (.ok (), w.withDisk d) ∧ Built dirs files w.disk d := by
  unfold writeFiles
  induction list generalizing w with
  | nil => exact ⟨w.disk, rfl, rfl, zoned, fun _ => id⟩
  | cons file list ih =>
    obtain ⟨lot, lots⟩ := List.forall_mem_cons.mp lots
    obtain ⟨d₁, written, built⟩ := zoned.write apart lot file.2
    obtain ⟨d₂, ran, built'⟩ := ih (w := w.withDisk d₁) built.zoned fun q listed =>
      (lots q listed).of_built built
    refine ⟨d₂, ?_, built.trans built'⟩
    rw [List.forM_eq_forM, List.forM_cons]
    exact (bind_of_ok written _).trans ran

/-- **Where all files are written, all of them stand.** -/
theorem isFile_of_writeFiles (tree : w.disk.IsTree) (ran : writeFiles p list w = (.ok (), w')) :
    w'.disk.here = w.disk.here ∧ ∀ q ∈ targets p list, w'.disk.isFile q := by
  have ends : Ends (writeFiles p list) w
      (fun _ w' => w'.disk.IsTree ∧ w'.disk.here = w.disk.here ∧ ∀ q ∈ targets p list, w'.disk.isFile q)
      fun _ _ => True := by
    refine .forM (fun before w' => w'.disk.IsTree ∧ w'.disk.here = w.disk.here ∧
      ∀ q ∈ targets p before, w'.disk.isFile q) list ⟨tree, rfl, List.forall_mem_nil _⟩ ?_
    rintro before ⟨name, bytes⟩ after - w₁ ⟨tree₁, here, stand⟩
    constructor
    · intro _ w₂ ran
      have written := (ends_written tree₁ (p.join name) bytes).ok ran
      refine ⟨written.tree, written.grown.here.trans here, fun q listed => ?_⟩
      rw [targets, List.map_append, List.mem_append] at listed
      rcases listed with listed | listed
      · exact written.isFile tree₁ (stand q listed)
      · obtain rfl := List.mem_singleton.mp listed
        obtain ⟨_, w₃, -, ran⟩ := bind_ran_iff.mp ran
        obtain ⟨d, done, rfl⟩ := change_ran_iff.mp ran
        exact isFile_iff.mpr ⟨bytes, find_of_write done⟩
    · exact fun _ => trivial
  exact (ends.ok ran).2

/-- **Files that were written are laid out.** -/
theorem layout_of_writeFiles (tree : w.disk.IsTree) (ran : writeFiles p list w = (.ok (), w')) :
    Layout w.disk.here (targets p list) := by
  obtain ⟨here, stand⟩ := isFile_of_writeFiles tree ran
  exact here ▸ layout_of_isFile stand

end TreeHome

/-! ## Names that lead down -/

/-- **A name that leads down**: behind any path it leads nowhere but to places at or below the one that
the path leads to. -/
structure Path.Downward (name : String) : Prop where
  relative : ¬ Text.startsWith "/" name
  stops : ∀ (base : Place) front, front <+: (Path.mk name).parts → base <+: front.foldl Place.step base

namespace Path
variable {here : Place} {name ending : String} {p : Path}

theorem Downward.leads (down : Downward name) (ne : p.text ≠ "") : Leads here p (p.join name) := by
  refine ⟨isAbsolute_join_of_relative down.relative p, fun front above => ?_, ?_⟩
  · rcases stop_join here down.relative ne above with same | ⟨front', above', same⟩
    · exact .inl same
    · exact .inr (same ▸ down.stops _ _ above')
  · have whole := down.stops (p.place here) _ List.prefix_rfl
    rwa [foldl_parts, ← place_join down.relative] at whole

theorem staysBelow_of_above {front names : List String} (above : front <+: names) {depth : Nat}
    (below : Archive.staysBelow depth names) : Archive.staysBelow depth front := by
  induction front generalizing names depth with
  | nil => rfl
  | cons first front ih =>
    obtain ⟨rest, rfl⟩ := above
    rw [List.cons_append, Archive.staysBelow.eq_def] at below
    rw [Archive.staysBelow.eq_def]
    dsimp only at below ⊢
    split
    · rename_i up
      rw [if_pos up] at below
      cases depth with
      | zero => exact below
      | succ depth => exact ih (List.prefix_append _ _) below
    · rename_i up
      rw [if_neg up] at below
      split
      · rename_i point
        rw [if_pos point] at below
        exact ih (List.prefix_append _ _) below
      · rename_i point
        rw [if_neg point] at below
        exact ih (List.prefix_append _ _) below

theorem downward_blank : Downward "" where
  relative := by decide
  stops base front above := by
    have none : (Path.mk "").parts = [] := by decide
    rw [none] at above
    rw [List.prefix_nil.mp above]
    exact List.prefix_rfl

/-- Files of an archive lead down. -/
theorem downward_of_contained (h : Archive.isContained name) : Downward name := by
  simp only [Archive.isContained, Bool.and_eq_true, Bool.not_eq_true'] at h
  obtain ⟨⟨-, relative⟩, below⟩ := h
  refine ⟨Bool.eq_false_iff.mp relative, fun base front above => ?_⟩
  have plain : "" ∉ front := fun listed => (Path.mk name).empty_notMem_parts (above.subset listed)
  have at_ := @Place.base_of_staysBelow base [] front plain (staysBelow_of_above above below)
  rwa [List.append_nil] at at_

/-- Files of a folder lead down. -/
theorem downward_of_normal (normal : IsNormal name) : Downward name := by
  refine ⟨normal.relative, fun base front above => prefix_foldl_step (fun listed => ?_) base⟩
  exact (normal _ (mem_pieces_of_mem_parts (above.subset listed))).ne_points rfl

end Path

/-- **Whether the files of a tree lead down.** -/
def FileMap.Downward (tree : FileMap) : Prop := ∀ name ∈ tree, Path.Downward name

/-- What is read of a tree leads down. -/
theorem TreeHome.downward_read {home : TreeHome} {tree : FileMap} {w : World} (isTree : w.disk.IsTree)
    (read : (home.read w).1 = .ok tree) : tree.Downward := by
  have ran : home.read w = (.ok tree, (home.read w).2) := Prod.ext read rfl
  cases home with
  | folder p =>
    obtain ⟨files, w₁, below, ran⟩ := bind_ran_iff.mp ran
    obtain rfl : FileMap.ofFiles (files.map fun file => (Path.slashed file.1, file.2)) = tree :=
      Except.ok.inj (congrArg Prod.fst ran)
    have listed : w.disk.files p = .ok files := by
      unfold Action.filesBelow at below
      rw [bind_of_ok (disk_apply w)] at below
      rcases listed : w.disk.files p with e | files' <;> rw [listed] at below <;> cases below
      rfl
    intro name named
    obtain ⟨_, held, rfl⟩ := List.mem_map.mp (FileMap.mem_ofFiles.mp named)
    obtain ⟨⟨names, bytes⟩, held', rfl⟩ := List.mem_map.mp held
    have named := named_of_files isTree listed _ held'
    rcases names with _ | ⟨first, names⟩
    · exact Path.downward_blank
    · exact Path.downward_of_normal (Path.isNormal_slashed named (List.cons_ne_nil _ _))
  | archive p =>
    have within : Action.Within w.disk.here (fun _ => True) (Archive.read p) Archive.NamesFiles :=
      Archive.within_read p
    have files := within.returns w rfl tree read
    intro name named
    have file := files name named
    rw [Archive.isFileName, Bool.and_eq_true] at file
    exact Path.downward_of_contained file.2

/-! ## Directories that are filled again -/

namespace TreeHome
open Disk
variable {w w' : World} {p : Path} {list : List (String × ByteArray)} {here : Place}
  {stale : Place → Prop} {keeps : Place → Option Node → Prop}

/-- Writing a tree comes to the same where nothing is stale on the ways. -/
theorem steady_write {home : TreeHome} {files : FileMap} (fresh : Fresh here stale home.path)
    (near : ∀ name ∈ files, Fresh here stale (home.path.join name)) :
    Steady here stale keeps (home.write files) := by
  cases home with
  | folder p =>
    refine .bind (.clear fresh) fun _ => .bind (.makeDirs fresh) fun _ => .forM ?_
    rintro ⟨name, bytes⟩ listed
    have fresh' := near name (FileMap.mem_of_mem_toList listed)
    exact .bind (.makeParent_of_fresh fresh') fun _ => .write fresh' _ _
  | archive p => exact .bind (.clear fresh) fun _ => .write fresh _ _

/-- A tree stays a tree when files are written to a home. -/
theorem isTree_write (home : TreeHome) (files : FileMap) (tree : w.disk.IsTree) :
    (home.write files w).2.disk.IsTree :=
  Steady.isTree (steady_write (fun _ _ => id) fun _ _ _ _ => id) tree

/-- **A directory can be made and filled** where nothing stands at its place, with files that are laid
out. -/
theorem exists_filled (takes : Takes p) (deep : p.parts ≠ [])
    (root : w.disk.at? (w.disk.start p) = some .dir)
    (bare : ∀ names, w.disk.at? (p.place w.disk.here ++ names) = none)
    (clear : ∀ front, front <+: p.parts → ∀ bytes, w.disk.at? (w.disk.stop p front) ≠ some (.file bytes))
    (down : ∀ file ∈ list, Path.Downward file.1) (layout : Layout w.disk.here (targets p list)) :
    ∃ w', (do Action.makeParent p; Action.makeDirs p; writeFiles p list) w = (.ok (), w') := by
  have ne := takes.fits.ne_empty
  have apart : ∀ place, dirsFor w.disk.here p (targets p list) place →
      ¬ filesFor w.disk.here (targets p list) place := by
    rintro _ (⟨front, above, same⟩ | way) ⟨q, listed, rfl⟩
    · obtain ⟨file, held, rfl⟩ := List.mem_map.mp listed
      exact layout.apart _ listed (same ▸ layout.isWay listed (down file held).relative ne above)
    · exact layout.apart q listed way
  have zoned := zoned_of_bare bare clear (.refl _ p) fun q (listed : q ∈ targets p list) => by
    obtain ⟨file, held, rfl⟩ := List.mem_map.mp listed
    exact (down file held).leads ne
  have ways : ∀ front, front <+: p.parts →
      dirsFor w.disk.here p (targets p list) (w.disk.stop p front) :=
    fun front above => .inl ⟨front, above, rfl⟩
  obtain ⟨d₁, parent, above⟩ := makeParent_of_clear deep takes root fun front above _ =>
    clear front above
  have built₁ := zoned.madeAbove apart above fun front above _ => ways front above
  have same_stop : ∀ front, d₁.stop p front = w.disk.stop p front := stop_eq above.here p
  have root₁ : d₁.at? (d₁.start p) = some .dir := by
    have start : d₁.start p = w.disk.start p := same_stop []
    rw [start]
    exact built₁.dir _ root
  obtain ⟨d₂, dirs, made⟩ := makeDirs_of_clear (.inr takes) root₁ fun front above =>
    built₁.zoned.fileless _ (same_stop front ▸ ways front above)
  have built₂ := built₁.trans (built₁.zoned.made apart made fun front above =>
    same_stop front ▸ ways front above)
  obtain ⟨d₃, written, -⟩ := exists_writeFiles (w := w.withDisk d₂) apart built₂.zoned
    fun q listed => (layout.lot (by
      obtain ⟨file, held, rfl⟩ := List.mem_map.mp listed
      rw [start, Path.isAbsolute_join_of_relative (down file held).relative]
      exact root) listed).of_built built₂
  have made' : Action.makeDirs p (w.withDisk d₁) = (.ok (), w.withDisk d₂) := by
    rw [Action.makeDirs, changeBy_apply, World.withDisk_disk, dirs]
    rfl
  exact ⟨_, (bind_of_ok parent _).trans ((bind_of_ok made' _).trans written)⟩

/-- **A directory can be filled again** with files that are laid out, once it was removed. -/
theorem exists_refilled (isDir : w.disk.isDir p) (ends : p.endsInName)
    (outside : ¬ p.place w.disk.here <+: w.disk.start p) (down : ∀ file ∈ list, Path.Downward file.1)
    (layout : Layout w.disk.here (targets p list)) :
    ∃ w', (do Action.clear p; Action.makeDirs p; writeFiles p list) w = (.ok (), w') := by
  have found := isDir_iff.mp isDir
  obtain ⟨place, led, -⟩ := locate_of_find found
  obtain ⟨takes, -, stops⟩ := locate_iff.mp led
  obtain ⟨above, name, named⟩ := Path.exists_place_of_endsInName ends w.disk.here
  have top : p.place w.disk.here ≠ [] := named ▸ List.concat_ne_nil _ _
  have deep : p.parts ≠ [] := Path.parts_ne_nil_of_endsInName ends
  obtain ⟨bare, clear⟩ := bare_of_erase found ends
  have root : (w.disk.erase (p.place w.disk.here)).at? (w.disk.start p) = some .dir := by
    rw [at?_erase _ top, if_neg outside]
    exact stops [] List.nil_prefix deep.symm
  obtain ⟨w', filled⟩ := exists_filled (w := w.withDisk (w.disk.erase (p.place w.disk.here))) takes deep
    root bare clear down layout
  refine ⟨w', ?_⟩
  unfold Action.clear
  rw [bind_assoc, bind_of_ok (Action.remove_of_find found ends)]
  exact filled

/-- Writing files changes none but these. -/
theorem within_writeFiles {places : Place → Prop}
    (into : ∀ q ∈ targets p list, places (q.place here)) :
    Within here places (writeFiles p list) fun _ => True := by
  unfold writeFiles
  refine .forM ?_
  rintro ⟨name, bytes⟩ held
  exact .bind (.makeParent _) fun _ _ => .writeFile bytes (into _ (List.mem_map.mpr ⟨_, held, rfl⟩))

/-- **Only new files are left** in a directory that is filled again, whether this succeeds or not. -/
theorem left_of_refilled (isDir : w.disk.isDir p) (ends : p.endsInName)
    (left : ((do Action.clear p; Action.makeDirs p; writeFiles p list) w).2 = w') {place : Place}
    (below : p.place w.disk.here <+: place) (stands : w'.disk.file? place ≠ none) :
    ∃ q ∈ targets p list, q.place w.disk.here = place := by
  by_contra old
  have filling : Within w.disk.here (fun other => other ≠ place)
      (do Action.makeParent p; Action.makeDirs p; writeFiles p list) fun _ => True :=
    .bind (.makeParent p) fun _ _ => .bind (.makeDirs p) fun _ _ =>
      within_writeFiles fun q listed same => old ⟨q, listed, same⟩
  have frame := filling.sameBut (w := w.withDisk (w.disk.erase (p.place w.disk.here))) rfl
  have whole : (do Action.clear p; Action.makeDirs p; writeFiles p list) w =
      (do Action.makeParent p; Action.makeDirs p; writeFiles p list)
        (w.withDisk (w.disk.erase (p.place w.disk.here))) := by
    unfold Action.clear
    rw [bind_assoc, bind_of_ok (Action.remove_of_find (isDir_iff.mp isDir) ends)]
  obtain ⟨names, rfl⟩ := below
  rw [← left, whole, frame.file? _ (not_not.mpr rfl), file?, World.withDisk_disk,
    (bare_of_erase (isDir_iff.mp isDir) ends).1] at stands
  exact stands rfl

/-- Files that fill a directory are laid out. -/
theorem layout_of_refilled (tree : w.disk.IsTree)
    (ran : (do Action.clear p; Action.makeDirs p; writeFiles p list) w = (.ok (), w')) :
    Layout w.disk.here (targets p list) := by
  obtain ⟨_, w₁, cleared, ran⟩ := bind_ran_iff.mp ran
  obtain ⟨_, w₂, made, ran⟩ := bind_ran_iff.mp ran
  have fresh : Fresh w.disk.here (fun _ => False) p := fun _ _ => id
  obtain ⟨-, twins₁⟩ := (Steady.clear fresh).run w w (.self tree)
  rw [cleared] at twins₁
  obtain ⟨-, twins₂⟩ := (Steady.makeDirs fresh).run w₁ w₁ twins₁
  rw [made] at twins₂
  exact twins₂.here ▸ layout_of_writeFiles twins₂.alike.tree ran

end TreeHome
end Patchwork
