import Patchwork.Archive.Tree
import Patchwork.Proofs.Disk.Paved
import Patchwork.Proofs.Disk.Planted

/-! Folders that are written afresh.  What a path is joined with, if it goes down by names alone, leads
on name by name (`Path.join_eq_joinAll`).  Each file that is written below a path is added to what this
was filled with (`Disk.Filled.ends_write`), so that a directory which is cleared and written holds the
files and nothing else (`TreeHome.stored_afresh`), and that is what is read there
(`Disk.Holds.readFolder`).  What happens elsewhere leaves a folder as it is
(`Disk.Holds.of_quiet`). -/

namespace Patchwork

namespace Path

/-! ## Names below a path -/

/-- **Whether a relative path goes down by names alone.** -/
def IsNormal (rest : String) : Prop := ∀ piece ∈ Text.pieces '/' rest, IsName piece

instance (rest : String) : Decidable (IsNormal rest) :=
  inferInstanceAs (Decidable (∀ piece ∈ Text.pieces '/' rest, IsName piece))

variable {names : List String} {rest : String}

theorem isNormal_slashed (named : ∀ name ∈ names, IsName name) (ne : names ≠ []) :
    IsNormal (slashed names) := by
  intro piece listed
  rw [pieces_slashed ne fun name h => (named name h).slashless] at listed
  exact named piece listed

theorem IsName.isNormal {name : String} (named : IsName name) : IsNormal name := by
  have normal := isNormal_slashed (List.forall_mem_singleton.mpr named) (List.cons_ne_nil _ _)
  rwa [slashed, String.intercalate_singleton] at normal

theorem IsNormal.relative (normal : IsNormal rest) : ¬ Text.startsWith "/" rest := by
  intro starts
  have absolute : (Path.mk rest).isAbsolute := starts
  rcases pieces : Text.pieces '/' rest with _ | ⟨first, more⟩
  · exact pieces_ne_nil rest pieces
  · obtain ⟨empty, -⟩ := (isAbsolute_of_pieces pieces).mp absolute
    exact (normal first (pieces ▸ List.mem_cons_self)).ne_empty empty

/-- A name behind another one is written behind it. -/
theorem join_join {name : String} (named : IsName name) (relative : ¬ Text.startsWith "/" rest)
    (p : Path) : (p.join name).join rest = p.join (name ++ "/" ++ rest) := by
  have single : "/".toList = ['/'] := by decide
  have relative' : ¬ Text.startsWith "/" (name ++ "/" ++ rest) := by
    rw [Text.startsWith_iff single, String.toList_append, String.toList_append, single]
    rcases chars : name.toList with _ | ⟨c, cs⟩
    · exact absurd (String.toList_eq_nil_iff.mp chars) named.ne_empty
    · rintro ⟨⟩
      exact named.slashless (chars ▸ List.mem_cons_self)
  have unended : ∀ front : String, Text.endsWith "/" (front ++ name) = false := by
    intro front
    have some_chars : name.toList ≠ [] := mt String.toList_eq_nil_iff.mp named.ne_empty
    rw [Bool.eq_false_iff, Ne, Text.endsWith_iff single, String.toList_append,
      List.getLast?_append_of_ne_nil _ some_chars]
    exact fun last => named.slashless (List.mem_of_getLast? last)
  have step : ∀ front : String, front ++ name ≠ "" →
      (Path.mk (front ++ name)).join rest = ⟨front ++ name ++ "/" ++ rest⟩ := by
    intro front ne
    rw [join, if_neg (not_or.mpr ⟨relative, ne⟩), endsInSlash, unended, if_neg Bool.false_ne_true]
  have ne : ∀ front : String, front ++ name ≠ "" := by
    intro front empty
    have chars := congrArg String.toList empty
    rw [String.toList_append] at chars
    exact named.ne_empty (String.toList_eq_nil_iff.mp (List.append_eq_nil_iff.mp chars).2)
  by_cases blank : p.text = ""
  · have alone := step "" (ne "")
    have first : p.join name = ⟨name⟩ := if_pos (.inr blank)
    have whole : p.join (name ++ "/" ++ rest) = ⟨name ++ "/" ++ rest⟩ := if_pos (.inr blank)
    rw [String.empty_append] at alone
    rw [first, whole, alone]
  · have first : p.join name = if p.endsInSlash then ⟨p.text ++ name⟩ else ⟨p.text ++ "/" ++ name⟩ :=
      if_neg (not_or.mpr ⟨named.relative, blank⟩)
    have whole : p.join (name ++ "/" ++ rest) = if p.endsInSlash then ⟨p.text ++ (name ++ "/" ++ rest)⟩
        else ⟨p.text ++ "/" ++ (name ++ "/" ++ rest)⟩ := if_neg (not_or.mpr ⟨relative', blank⟩)
    rw [first, whole]
    split
    · rw [step _ (ne _)]
      simp [String.append_assoc]
    · rw [step _ (ne _)]
      simp [String.append_assoc]

theorem join_slashed (named : ∀ name ∈ names, IsName name) (ne : names ≠ []) (p : Path) :
    p.join (slashed names) = p.joinAll names := by
  induction names generalizing p with
  | nil => exact absurd rfl ne
  | cons name names ih =>
    obtain ⟨first, others⟩ := List.forall_mem_cons.mp named
    by_cases last : names = []
    · rw [last, slashed, String.intercalate_singleton, joinAll_singleton]
    · have relative := (isNormal_slashed others last).relative
      have written : slashed (name :: names) = name ++ "/" ++ slashed names :=
        String.intercalate_cons_of_ne_nil last
      rw [written, ← join_join first relative, ih others last]
      rfl

/-- **A path that goes down by names alone leads on name by name.** -/
theorem join_eq_joinAll (normal : IsNormal rest) (p : Path) :
    p.join rest = p.joinAll (Text.pieces '/' rest) := by
  rw [← join_slashed normal (pieces_ne_nil rest), (slashed_pieces rest).1]

end Path

namespace Disk
open Path
variable {d d' : Disk} {p : Path} {names : List String} {files : List (List String × ByteArray)}
  {w w' : World}

/-! ## What a folder holds -/

/-- **A folder with given files in it**, and with the directories that lead to them. -/
structure Holds (d : Disk) (p : Path) (files : List (List String × ByteArray)) : Prop where
  led : d.locate p = .ok (p.place d.here)
  dir : d.at? (p.place d.here) = some .dir
  file_iff : ∀ names bytes,
    d.at? (p.place d.here ++ names) = some (.file bytes) ↔ (names, bytes) ∈ files
  dirs : ∀ names, names ≠ [] → d.at? (p.place d.here ++ names) = some .dir →
    ∃ file ∈ files, names <+: file.1

/-- What happens elsewhere leaves a folder as it is. -/
theorem Holds.of_quiet {place : Place} (h : Holds d p files) (straight : ".." ∉ p.parts)
    (quiet : Quiet place d d') (out : ¬ place <+: p.place d.here)
    (off : ¬ p.place d.here <+: place) : Holds d' p files := by
  have here : p.place d'.here = p.place d.here := by rw [quiet.here]
  have same : ∀ names, d'.at? (p.place d.here ++ names) = d.at? (p.place d.here ++ names) := by
    intro names
    refine quiet.at?_eq (fun below => ?_) fun above => off ((List.prefix_append _ _).trans above)
    exact (List.prefix_or_prefix_of_prefix below (List.prefix_append _ _)).elim out off
  have stands : d'.at? (p.place d.here) = some .dir := by
    have same := same []
    rw [List.append_nil] at same
    rw [same, h.dir]
  refine ⟨?_, here ▸ stands, fun names bytes => ?_, fun names deep dir => ?_⟩
  · rw [here]
    refine locate_of_above straight quiet.here (fun other above dir => ?_) h.led
    exact quiet.grown.dir (fun _ same below => out (same ▸ below.trans above)) dir
  · rw [here, same, h.file_iff]
  · rw [here, same] at dir
    exact h.dirs names deep dir

/-- **A disk on which a path was filled**: below it are given files and the directories that lead to
them, and nothing outside changed but for directories on the way. -/
structure Filled (p : Path) (files : List (List String × ByteArray)) (d d' : Disk) : Prop where
  tree : d'.IsTree
  quiet : Quiet (p.place d.here) d d'
  file_iff : ∀ names bytes,
    d'.at? (p.place d.here ++ names) = some (.file bytes) ↔ (names, bytes) ∈ files
  dirs : ∀ names, names ≠ [] → d'.at? (p.place d.here ++ names) = some .dir →
    ∃ file ∈ files, names <+: file.1

/-- Where nothing stands below a path, it is filled with nothing. -/
theorem filled_nil (tree : d'.IsTree) (quiet : Quiet (p.place d.here) d d')
    (bare : ∀ names, names ≠ [] → d'.at? (p.place d.here ++ names) = none)
    (fileless : ∀ bytes, d'.at? (p.place d.here) ≠ some (.file bytes)) : Filled p [] d d' := by
  refine ⟨tree, quiet, fun names bytes => ?_, fun names deep dir => ?_⟩
  · refine ⟨fun file => ?_, fun listed => absurd listed List.not_mem_nil⟩
    by_cases deep : names = []
    · rw [deep, List.append_nil] at file
      exact absurd file (fileless bytes)
    · cases (bare names deep).symm.trans file
  · cases (bare names deep).symm.trans dir

/-- A path that was filled and leads to a directory holds the files. -/
theorem Filled.holds (h : Filled p files d d') (isDir : d'.isDir p) : Holds d' p files := by
  have here : p.place d'.here = p.place d.here := by rw [h.quiet.here]
  obtain ⟨place, led, stands⟩ := locate_of_find (isDir_iff.mp isDir)
  obtain rfl := place_of_locate led
  refine ⟨led, stands, ?_, ?_⟩
  · rw [here]
    exact h.file_iff
  · rw [here]
    exact h.dirs

/-- **A disk on which a folder was stored**, and nothing outside of it changed but for directories on
the way to it. -/
structure Stored (p : Path) (files : List (List String × ByteArray)) (d d' : Disk) : Prop
    extends Holds d' p files where
  tree : d'.IsTree
  quiet : Quiet (p.place d.here) d d'

theorem Filled.stored (h : Filled p files d d') (isDir : d'.isDir p) : Stored p files d d' :=
  ⟨h.holds isDir, h.tree, h.quiet⟩

/-- A directory that was made where there was room holds nothing. -/
theorem filled_of_makeDirs (roomy : Roomy p d w.disk) (straight : ".." ∉ p.parts) (ne : p.text ≠ "")
    (ran : Action.makeDirs p w = (.ok (), w')) : Filled p [] d w'.disk ∧ w'.disk.isDir p := by
  rw [Action.makeDirs, Action.changeBy_apply] at ran
  rcases made : w.disk.makeDirs p with ⟨e | _, d'⟩ <;> rw [made] at ran <;> cases ran
  have tree := roomy.tree.makeDirs p
  have paved := paved_makeDirs w.disk straight
  rw [made] at tree paved
  dsimp only at tree paved ⊢
  rw [roomy.quiet.here] at paved
  have kept := roomy.paved tree paved
  exact ⟨filled_nil tree kept.quiet kept.bare kept.fileless, isDir_of_makeDirs ne made⟩

/-- Behind a path, the directory of a name is where the names in front of it lead. -/
theorem stop_joinAll_concat {above : List String} {name : String}
    (named : ∀ other ∈ above ++ [name], IsName other) (d : Disk) (p : Path) :
    d.stop (p.joinAll (above ++ [name])) (p.joinAll (above ++ [name])).parts.dropLast =
      p.place d.here ++ above := by
  have named' : ∀ other ∈ above, IsName other := fun other listed =>
    named other (List.mem_append_left _ listed)
  have start : d.start (p.joinAll (above ++ [name])) = d.start (p.joinAll above) := by
    rw [Disk.start, Disk.start, isAbsolute_joinAll named, isAbsolute_joinAll named']
  rw [parts_joinAll named, ← List.append_assoc, List.dropLast_concat, ← parts_joinAll named', stop,
    start]
  exact (stop_parts d _).trans (place_joinAll named' p d.here)

/-- **A file that is written below a path** is added to what this was filled with. -/
theorem Filled.ends_write (h : Filled p files d w.disk) (straight : ".." ∉ p.parts)
    (named : ∀ name ∈ names, IsName name) (ne : names ≠ []) (bytes : ByteArray)
    (fresh : ∀ bytes', (names, bytes') ∉ files) :
    Action.Ends (do Action.makeParent (p.joinAll names); Action.writeFile (p.joinAll names) bytes) w
      (fun _ w' => Filled p (files ++ [(names, bytes)]) d w'.disk) (fun _ _ => True) := by
  obtain ⟨above, name, rfl⟩ := (List.eq_nil_or_concat names).resolve_left ne
  rw [List.concat_eq_append] at named fresh ne ⊢
  have straight' : ".." ∉ (p.joinAll (above ++ [name])).parts := by
    rw [parts_joinAll named, List.mem_append, not_or]
    exact ⟨straight, fun listed => (named _ listed).ne_points rfl⟩
  obtain ⟨d₁, left, tree₁, paved⟩ := paved_makeParent straight' w
  have tree₁ := tree₁ h.tree
  have here₁ : d₁.here = d.here := paved.here.trans h.quiet.here
  rw [stop_joinAll_concat named, h.quiet.here] at paved
  rcases ran : Action.makeParent (p.joinAll (above ++ [name])) w with ⟨e | _, w₁⟩
  · exact .bind_of_error ran trivial
  rw [ran] at left
  dsimp only at left
  subst left
  refine .bind_of_ok ran (.change (fun d₂ written => ?_) fun _ _ => trivial)
  have tree₂ := tree₁.write written
  obtain ⟨-, -, -, rfl⟩ := put_of_write written
  rw [World.withDisk_disk, World.withDisk_disk, here₁, place_joinAll named]
  rw [World.withDisk_disk, here₁, place_joinAll named] at tree₂
  have top : p.place d.here ++ (above ++ [name]) ≠ [] := by simp
  have below : p.place d.here <+: p.place d.here ++ (above ++ [name]) := List.prefix_append _ _
  have quiet := h.quiet.trans ((paved.quiet.mono (List.prefix_append _ _)).trans
    ((Quiet.put d₁ top (.file bytes)).mono below))
  refine ⟨tree₂, quiet, fun names' bytes' => ?_, fun names' deep dir => ?_⟩
  · rw [at?_put_eq d₁ top, List.mem_append, List.mem_singleton]
    split
    · rename_i same
      obtain rfl := List.append_cancel_left same
      simp [fresh, eq_comm]
    · rename_i other
      have other : names' ≠ above ++ [name] := fun same => other (same ▸ rfl)
      rw [paved.file_iff, h.file_iff]
      simp [other]
  · rw [at?_put_eq d₁ top] at dir
    split at dir
    · cases dir
    · rcases paved.others (p.place d.here ++ names') with same | ⟨-, -, way⟩
      · obtain ⟨file, listed, leads⟩ := h.dirs names' deep (same ▸ dir)
        exact ⟨file, List.mem_append_left _ listed, leads⟩
      · have leads := (List.prefix_append_right_inj _).mp way
        exact ⟨_, List.mem_append_right _ List.mem_cons_self, leads.trans (List.prefix_append _ _)⟩

end Disk

namespace TreeHome
open Path Disk
variable {d : Disk} {p : Path} {w w' : World} {files : List (String × ByteArray)}

/-- The names that lead to files, and what the files hold. -/
def located (files : List (String × ByteArray)) : List (List String × ByteArray) :=
  files.map fun file => (Text.pieces '/' file.1, file.2)

/-- **Files that are written below a path** where nothing was are all that it is filled with. -/
theorem ends_writeFiles (h : Filled p [] d w.disk) (straight : ".." ∉ p.parts)
    (normal : ∀ file ∈ files, IsNormal file.1)
    (distinct : files.Pairwise fun a b => a.1 ≠ b.1) :
    Action.Ends (writeFiles p files) w (fun _ w' => Filled p (located files) d w'.disk)
      (fun _ _ => True) := by
  refine .forM (fun before w' => Filled p (located before) d w'.disk) files h ?_
  rintro before ⟨name, bytes⟩ after rfl w₁ filled
  have named := normal (name, bytes) (List.mem_append_right _ List.mem_cons_self)
  have fresh : ∀ bytes', (Text.pieces '/' name, bytes') ∉ located before := by
    intro bytes' listed
    obtain ⟨⟨other, _⟩, earlier, same⟩ := List.mem_map.mp listed
    have pieces : Text.pieces '/' other = Text.pieces '/' name := congrArg Prod.fst same
    refine (List.pairwise_append.mp distinct).2.2 _ earlier _ List.mem_cons_self ?_
    rw [← (slashed_pieces other).1, pieces, (slashed_pieces name).1]
  have added := filled.ends_write straight named (pieces_ne_nil name) bytes fresh
  rw [← join_eq_joinAll named] at added
  unfold located
  rw [List.map_append]
  exact added

/-- Directories stay where files are written. -/
theorem isDir_of_writeFiles {q : Path} (tree : w.disk.IsTree) (isDir : w.disk.isDir q)
    (ran : writeFiles p files w = (.ok (), w')) : w'.disk.isDir q := by
  have ends : Action.Ends (writeFiles p files) w (fun _ w' => w'.disk.IsTree ∧ w'.disk.isDir q)
      fun _ _ => True := by
    refine .forM (fun _ w' => w'.disk.IsTree ∧ w'.disk.isDir q) files ⟨tree, isDir⟩ ?_
    rintro before ⟨name, bytes⟩ after - w₁ ⟨tree₁, isDir₁⟩
    refine (ends_written tree₁ (p.join name) bytes).imp (fun _ w₂ written => ?_) fun _ _ _ => trivial
    refine ⟨written.tree, isDir_iff.mpr ?_⟩
    obtain ⟨place, led, stands⟩ := locate_of_find (isDir_iff.mp isDir₁)
    exact find_of_locate (locate_mono written.grown.here (fun _ => written.dir tree₁) led)
      (written.dir tree₁ stands)
  exact (ends.ok ran).2

/-- **A folder that is written afresh** holds the files and nothing else. -/
theorem stored_afresh (tree : w.disk.IsTree) (straight : ".." ∉ p.parts) (ne : p.text ≠ "")
    (normal : ∀ file ∈ files, IsNormal file.1) (distinct : files.Pairwise fun a b => a.1 ≠ b.1)
    (ran : (do Action.clear p; Action.makeDirs p; writeFiles p files) w = (.ok (), w')) :
    Stored p (located files) w.disk w'.disk := by
  obtain ⟨_, w₁, cleared, ran⟩ := Action.bind_ran_iff.mp ran
  obtain ⟨_, w₂, made, ran⟩ := Action.bind_ran_iff.mp ran
  obtain ⟨empty, isDir⟩ := filled_of_makeDirs (roomy_of_clear tree straight ne cleared) straight ne made
  have filled := (ends_writeFiles empty straight normal distinct).ok ran
  exact filled.stored (isDir_of_writeFiles empty.tree isDir ran)

end TreeHome

/-! ## What is read there -/

namespace Disk
open Path
variable {p : Path} {w : World} {files : List (String × ByteArray)}

/-- **A folder lists the files that it holds**, in the order of their names. -/
theorem Holds.listing {d : Disk} (h : d.Holds p (TreeHome.located files)) :
    ∃ listing, d.files p = .ok listing ∧ Listed listing ∧
      ∀ names bytes, (names, bytes) ∈ listing ↔ (names, bytes) ∈ TreeHome.located files := by
  have listed := files_eq_filterMap h.led h.dir
  obtain ⟨ordered, holds⟩ := listed_files h.led h.dir listed
  refine ⟨_, listed, ordered, fun names bytes => ?_⟩
  rw [holds, h.file_iff]
  refine and_iff_right_of_imp fun held => ?_
  obtain ⟨file, -, same⟩ := List.mem_map.mp held
  have written : Text.pieces '/' file.1 = names := congrArg Prod.fst same
  exact written ▸ pieces_ne_nil file.1

theorem filesBelow_of_files {listing : List (List String × ByteArray)}
    (listed : w.disk.files p = .ok listing) : Action.filesBelow p w = (.ok listing, w) := by
  unfold Action.filesBelow
  rw [Action.bind_of_ok (Action.disk_apply w), listed]
  rfl

/-- **What is read from a folder** is what it holds. -/
theorem Holds.readFolder (h : w.disk.Holds p (TreeHome.located files)) :
    ∃ tree, TreeHome.readFolder p w = (.ok tree, w) ∧
      ∀ path bytes, tree[path]? = some bytes ↔ (path, bytes) ∈ files := by
  obtain ⟨listing, listed, ordered, mem_iff⟩ := h.listing
  have pieces : ∀ {names bytes}, (names, bytes) ∈ listing → Text.pieces '/' (slashed names) = names := by
    intro names bytes held
    obtain ⟨file, -, same⟩ := List.mem_map.mp ((mem_iff _ _).mp held)
    have written : Text.pieces '/' file.1 = names := congrArg Prod.fst same
    rw [← written, (slashed_pieces file.1).1]
  have distinct : (listing.map fun file => (slashed file.1, file.2)).Pairwise
      fun a b => a.1 ≠ b.1 := by
    refine List.pairwise_map.mpr (ordered.imp_of_mem fun {a b} ha hb before same => ?_)
    have same : slashed a.1 = slashed b.1 := same
    have names : a.1 = b.1 := by
      rw [← pieces ha, same, pieces hb]
    have still : compare a.1 b.1 = .eq := names ▸ Std.ReflCmp.compare_self
    cases before.symm.trans still
  refine ⟨_, ?_, fun path bytes => (FileMap.getElem?_ofFiles distinct).trans ?_⟩
  · unfold TreeHome.readFolder
    rw [Action.bind_of_ok (filesBelow_of_files listed)]
    rfl
  · rw [List.mem_map]
    constructor
    · rintro ⟨⟨names, _⟩, held, ⟨⟩⟩
      obtain ⟨file, there, same⟩ := List.mem_map.mp ((mem_iff _ _).mp held)
      obtain ⟨rfl, rfl⟩ := Prod.mk.inj same
      rwa [(slashed_pieces file.1).1]
    · intro there
      refine ⟨(Text.pieces '/' path, bytes), (mem_iff _ _).mpr (List.mem_map_of_mem there), ?_⟩
      rw [(slashed_pieces path).1]

end Disk
end Patchwork
