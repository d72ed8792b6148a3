import Patchwork.Archive.Tree
import Patchwork.Proofs.Disk.Stored
import Patchwork.Proofs.Disk.Layout

/-! Files that are planted below one directory.  Where the path of a directory is clear and nothing stands
at its place or below it (`Disk.Site`), files can be planted there one after another if none is in the way
of another (`Disk.Site.plot`, `TreeHome.exists_planted`); what was planted is then all that is there, with
the directories on the way (`Disk.Site.content`).

A path that something can come to the end of leads to a site when this end was cleared
(`Disk.Approach.site`, `Disk.Approach.exists_site`).  A file is written on a site (`Disk.Site.write`), or a
directory that holds just some files (`TreeHome.exists_filled_site`). -/

namespace Patchwork

namespace Disk
open Path
variable {d d' : Disk} {p dir : Path} {made : Place → Prop} {names : List String}

/-- A plot stays one when files were planted elsewhere. -/
theorem Plot.after {before : List (Place × ByteArray)} (plot : Plot d made [] p)
    (off : ∀ planted ∈ before, ¬ made planted.1 ∧ p.place d.here ≠ planted.1) : Plot d made before p := by
  refine { plot with unplanted := fun front above bytes listed => ?_ }
  obtain ⟨unmade, apart⟩ := off _ listed
  by_cases whole : front = p.parts
  · exact apart (by rw [whole, stop_parts])
  · exact unmade (plot.way front above whole)

end Disk

namespace TreeHome
open Disk
variable {d : Disk} {p : Path} {made : Place → Prop} {list : List (String × ByteArray)} {w : World}

/-- **Files are planted one after another** where each of them can be, and no two in one place. -/
theorem exists_planted {before : List (Place × ByteArray)} (planted : Planted d made before w.disk)
    (plots : ∀ file ∈ list, Plot d made [] (p.join file.1))
    (apart : list.Pairwise fun a b => (p.join a.1).place d.here ≠ (p.join b.1).place d.here)
    (off : ∀ old ∈ before, ¬ made old.1 ∧ ∀ file ∈ list, (p.join file.1).place d.here ≠ old.1) :
    ∃ d', writeFiles p list w = (.ok (), w.withDisk d') ∧
      Planted d made (before ++ list.map fun file => ((p.join file.1).place d.here, file.2)) d' := by
  unfold writeFiles
  induction list generalizing before w with
  | nil =>
    rw [List.map_nil, List.append_nil]
    exact ⟨w.disk, rfl, planted⟩
  | cons file list ih =>
    obtain ⟨plot, plots⟩ := List.forall_mem_cons.mp plots
    obtain ⟨first, apart⟩ := List.pairwise_cons.mp apart
    obtain ⟨d₁, written, planted₁⟩ := planted.write
      (plot.after fun old listed => ⟨(off old listed).1, (off old listed).2 _ List.mem_cons_self⟩) file.2
    obtain ⟨d₂, ran, planted₂⟩ := ih (w := w.withDisk d₁) planted₁ plots apart fun old listed => by
      rcases List.mem_append.mp listed with listed | listed
      · exact ⟨(off old listed).1, fun other held => (off old listed).2 other (.tail _ held)⟩
      · obtain rfl := List.mem_singleton.mp listed
        exact ⟨plot.unmade, fun other held => (first other held).symm⟩
    rw [List.append_assoc] at planted₂
    refine ⟨d₂, ?_, planted₂⟩
    rw [List.forM_eq_forM, List.forM_cons]
    exact (Action.bind_of_ok written _).trans ran

end TreeHome

namespace Disk
open Path
variable {d d' : Disk} {p dir : Path} {dirs : List String → Prop} {names : List String}
  {here place : Place}

/-! ## Sites -/

/-- **A site for a directory**: its path starts in a directory and leads through no file and not through
its own place, and nothing stands there or below. -/
structure Site (d : Disk) (dir : Path) : Prop where
  root : d.at? (d.start dir) = some .dir
  clear : d.Clear dir
  around : ∀ front, front <+: dir.parts → front ≠ dir.parts → ¬ dir.place d.here <+: d.stop dir front
  bare : ∀ names, d.at? (dir.place d.here ++ names) = none

/-- The places for directories on the way to a directory and below it. -/
def waysBelow (d : Disk) (dir : Path) (dirs : List String → Prop) (place : Place) : Prop :=
  (∃ front, front <+: dir.parts ∧ front ≠ dir.parts ∧ d.stop dir front = place) ∨
    ∃ names, dirs names ∧ dir.place d.here ++ names = place

/-- On a site, a place below it is a way just if there is to be a directory. -/
theorem Site.waysBelow_iff (site : d.Site dir) :
    d.waysBelow dir dirs (dir.place d.here ++ names) ↔ dirs names := by
  constructor
  · rintro (⟨front, above, proper, same⟩ | ⟨names', way, same⟩)
    · exact absurd (same ▸ List.prefix_append _ _) (site.around front above proper)
    · rwa [← List.append_cancel_left same]
  · exact fun way => .inr ⟨names, way, rfl⟩

/-- **A file can be planted below a site**, if there may be directories on its way but not in its place. -/
theorem Site.plot (site : d.Site dir) (takes : Takes (dir.joinAll names))
    (named : ∀ name ∈ names, IsName name) (deep : names ≠ [])
    (way : ∀ front, front <+: names → front ≠ names → dirs front) (unmade : ¬ dirs names) :
    Plot d (d.waysBelow dir dirs) [] (dir.joinAll names) := by
  have place : (dir.joinAll names).place d.here = dir.place d.here ++ names := place_joinAll named _ _
  have parts : (dir.joinAll names).parts = dir.parts ++ names := parts_joinAll named dir
  have namesFile : (dir.joinAll names).NamesFile := by
    obtain ⟨above, name, rfl⟩ := (List.eq_nil_or_concat names).resolve_left deep
    have last : IsName name := named name (by simp)
    rw [List.concat_eq_append, joinAll_concat] at takes ⊢
    exact ⟨takes, endsInName_join last _, meansDir_join last _⟩
  refine ⟨namesFile, ?_, fun front above proper => ?_, fun front above proper bytes stands => ?_,
    fun _ _ _ => List.not_mem_nil, ?_, ?_⟩
  · rw [Disk.start, isAbsolute_joinAll named]
    exact site.root
  · rcases stop_joinAll d.here named above with ⟨above', proper', same⟩ | ⟨front', above', rfl, same⟩
    · exact .inl ⟨front, above', proper', same.symm⟩
    · refine .inr ⟨front', way front' above' fun whole => proper ?_, same.symm⟩
      rw [parts, whole]
  · replace stands : d.at? (stopFrom d.here (dir.joinAll names) front) = some (.file bytes) := stands
    rcases stop_joinAll d.here named above with ⟨above', proper', same⟩ | ⟨front', -, -, same⟩ <;>
      rw [same] at stands
    · exact site.clear front above' proper' bytes stands
    · cases (site.bare front').symm.trans stands
  · rw [place, site.bare]
  · rw [place, site.waysBelow_iff]
    exact unmade

/-- **What was planted below a site** is all that is there. -/
theorem Site.content {files : List (List String × ByteArray)} (site : d.Site dir)
    (planted : Planted d (d.waysBelow dir dirs)
      (files.map fun file => (dir.place d.here ++ file.1, file.2)) d') :
    (∀ names bytes, d'.at? (dir.place d.here ++ names) = some (.file bytes) ↔ (names, bytes) ∈ files) ∧
      ∀ names, d'.at? (dir.place d.here ++ names) = some .dir → dirs names := by
  refine ⟨fun names bytes => ?_, fun names dir => ?_⟩
  · rw [planted.file_iff, site.bare, or_iff_right (by simp), List.mem_map]
    constructor
    · rintro ⟨⟨names', bytes'⟩, listed, same⟩
      obtain ⟨place, rfl⟩ := Prod.mk.inj same
      obtain rfl : names' = names := List.append_cancel_left place
      exact listed
    · exact fun listed => ⟨_, listed, rfl⟩
  · refine site.waysBelow_iff.mp ((planted.of_dir _ dir).resolve_left ?_)
    rw [site.bare]
    exact nofun

/-- On a site, no file stands on a way. -/
theorem Site.fileless {files : List (List String × ByteArray)} (site : d.Site dir)
    (planted : Planted d (d.waysBelow dir dirs)
      (files.map fun file => (dir.place d.here ++ file.1, file.2)) d')
    (unmade : ∀ file ∈ files, ¬ dirs file.1) {place : Place} (way : d.waysBelow dir dirs place)
    (bytes : ByteArray) : d'.at? place ≠ some (.file bytes) := by
  rcases way with ⟨front, above, proper, rfl⟩ | ⟨names, way, rfl⟩
  · intro stands
    rcases (planted.file_iff _ _).mp stands with stood | listed
    · exact site.clear front above proper bytes stood
    · obtain ⟨file, -, same⟩ := List.mem_map.mp listed
      have place : dir.place d.here ++ file.1 = d.stop dir front := congrArg Prod.fst same
      exact site.around front above proper (place ▸ List.prefix_append _ _)
  · exact fun stands => unmade _ (((site.content planted).1 names bytes).mp stands) way

/-- The path of a directory below stops at ways. -/
theorem waysBelow_stop {front : List String} (named : ∀ name ∈ names, IsName name) (d : Disk)
    (way : ∀ front, front <+: names → dirs front) (above : front <+: (dir.joinAll names).parts) :
    d.waysBelow dir dirs (d.stop (dir.joinAll names) front) := by
  rcases stop_joinAll d.here named above with ⟨above', proper, same⟩ | ⟨front', above', -, same⟩
  · exact .inl ⟨front, above', proper, same.symm⟩
  · exact .inr ⟨front', way front' above', same.symm⟩

/-! ## Approaches -/

/-- An approach with nothing at its end leads to a site. -/
theorem Approach.site (h : d.Approach dir) (tree : d.IsTree) (free : d.at? (dir.place d.here) = none) :
    d.Site dir := ⟨h.root, h.clear, h.around, tree.none_of_append free⟩

/-- A name can be made in a directory that is there, if the path to this does not lead back. -/
theorem approach_of_isDir {parent : Path} {name : String} (straight : ".." ∉ parent.parts)
    (isDir : d.isDir parent) (named : IsName name) : d.Approach (parent.join name) := by
  obtain ⟨place, led, stands⟩ := locate_of_find (isDir_iff.mp isDir)
  obtain ⟨-, rfl, stops⟩ := locate_iff.mp led
  have dirs : ∀ front, front <+: parent.parts → d.at? (d.stop parent front) = some .dir := by
    intro front above
    by_cases last : front = parent.parts
    · rw [last, stop_parts, stands]
    · exact stops front above last
  refine ⟨?_, fun front above proper bytes => ?_, fun front above proper below => ?_,
    fun front above proper free => ?_⟩
  · rw [start_join named]
    exact dirs [] List.nil_prefix
  · rw [stop_join_name named, dirs front (prefix_parts_of_join named above proper)]
    nofun
  · rw [stop_join_name named, place_join_of_isName named] at below
    have higher := stop_prefix_place (d := d) straight (prefix_parts_of_join named above proper)
    have longer := (below.trans higher).length_le
    rw [List.length_append, List.length_singleton] at longer
    omega
  · rw [stop_join_name named, dirs front (prefix_parts_of_join named above proper)] at free
    cases free

/-- **Clearing the end of an approach** leaves a site with a directory at each stop in front of it. -/
theorem Approach.exists_site {w : World} (h : w.disk.Approach p) (tree : w.disk.IsTree) (takes : Takes p)
    (ends : p.endsInName)
    (fileless : p.meansDir → ∀ bytes, w.disk.at? (p.place w.disk.here) ≠ some (.file bytes)) :
    ∃ d, Action.clear p w = (.ok (), w.withDisk d) ∧ d.IsTree ∧ d.Site p ∧ Rebuilt p w.disk d := by
  have tree' := Action.isTree_clear tree p
  obtain ⟨d, cleared, free, rebuilt⟩ := h.exists_cleared takes ends fileless
  rw [cleared] at tree'
  have approach := h.of_rebuilt ends rebuilt
  exact ⟨d, cleared, tree', approach.site tree' (by rwa [rebuilt.here]), rebuilt⟩

/-! ## Sites that are built on -/

/-- **A file is written on a site**, and nothing changes outside of its place. -/
theorem Site.write (site : d.Site p) (takes : Takes p) (file : p.meansDir = false)
    (stops : ∀ front, front <+: p.parts → front ≠ p.parts → d.at? (d.stop p front) = some .dir)
    (bytes : ByteArray) : ∃ d', d.write p bytes = .ok d' ∧ d'.here = d.here ∧
      d'.find p = .ok (.file bytes) ∧
      ∀ other, ¬ p.place d.here <+: other → d'.at? other = d.at? other := by
  have free : d.at? (p.place d.here) = none := by
    have free := site.bare []
    rwa [List.append_nil] at free
  have written := write_of_stops takes file stops (by rw [free]; nofun) bytes
  refine ⟨_, written, rfl, find_of_write written, fun other out => at?_put d _ _ ?_⟩
  rintro rfl
  exact out List.prefix_rfl

/-- Whether some names lead to files, in front of their last names. -/
def LeadsTo (files : List (List String × ByteArray)) (names : List String) : Prop :=
  names = [] ∨ ∃ file ∈ files, names <+: file.1 ∧ names ≠ file.1

/-- Outside of a site with directories at its stops, planting changes nothing. -/
theorem at?_planted {files : List (List String × ByteArray)}
    (stops : ∀ front, front <+: p.parts → front ≠ p.parts → d.at? (d.stop p front) = some .dir)
    (planted : Planted d (d.waysBelow p dirs) (files.map fun file => (p.place d.here ++ file.1, file.2)) d')
    (out : ¬ p.place d.here <+: place) : d'.at? place = d.at? place := by
  have unlisted : ∀ bytes,
      (place, bytes) ∉ files.map fun file => (p.place d.here ++ file.1, file.2) := by
    intro bytes listed
    obtain ⟨file, -, same⟩ := List.mem_map.mp listed
    have at_ : p.place d.here ++ file.1 = place := congrArg Prod.fst same
    exact out (at_ ▸ List.prefix_append _ _)
  have file_iff : ∀ bytes, d'.at? place = some (.file bytes) ↔ d.at? place = some (.file bytes) :=
    fun bytes => (planted.file_iff place bytes).trans (or_iff_left (unlisted bytes))
  have dir_iff : d'.at? place = some .dir ↔ d.at? place = some .dir := by
    refine ⟨fun dir => ?_, planted.dir place⟩
    rcases planted.of_dir place dir with stood | ⟨front, above, proper, rfl⟩ | ⟨names, -, rfl⟩
    · exact stood
    · exact stops front above proper
    · exact absurd (List.prefix_append _ _) out
  rcases stands : d.at? place with _ | bytes | _
  · rcases stands' : d'.at? place with _ | bytes | _
    · rfl
    · cases stands.symm.trans ((file_iff bytes).mp stands')
    · cases stands.symm.trans (dir_iff.mp stands')
  · exact (file_iff bytes).mpr stands
  · exact dir_iff.mpr stands

end Disk

namespace TreeHome
open Path Disk
variable {p : Path} {w : World} {list : List (String × ByteArray)}

/-- **A site is filled** with files none of which lies below another one, and holds nothing else. -/
theorem exists_filled_site (site : w.disk.Site p) (tree : w.disk.IsTree) (takes : Takes p)
    (stops : ∀ front, front <+: p.parts → front ≠ p.parts →
      w.disk.at? (w.disk.stop p front) = some .dir)
    (normal : ∀ file ∈ list, IsNormal file.1) (distinct : list.Pairwise fun a b => a.1 ≠ b.1)
    (apart : ∀ file ∈ located list, ∀ other ∈ located list, file.1 <+: other.1 → file.1 = other.1)
    (short : ∀ file ∈ list, Takes (p.join file.1)) :
    ∃ d, (do Action.makeDirs p; writeFiles p list) w = (.ok (), w.withDisk d) ∧
      d.here = w.disk.here ∧ d.Holds p (located list) ∧
      ∀ other, ¬ p.place w.disk.here <+: other → d.at? other = w.disk.at? other := by
  have named : ∀ file ∈ list, ∀ name ∈ Text.pieces '/' file.1, IsName name := normal
  have place : ∀ file ∈ list,
      (p.join file.1).place w.disk.here = p.place w.disk.here ++ Text.pieces '/' file.1 :=
    fun file listed => by rw [join_eq_joinAll (normal file listed), place_joinAll (named file listed)]
  obtain ⟨d₁, dirs, made⟩ := makeDirs_of_clear (.inr takes) site.root fun front above bytes stands => by
    by_cases whole : front = p.parts
    · have free := site.bare []
      rw [List.append_nil, ← stop_parts, ← whole, stands] at free
      cases free
    · exact site.clear front above whole bytes stands
  have tree₁ : d₁.IsTree := by
    have tree₁ := tree.makeDirs p
    rwa [dirs] at tree₁
  have planted₁ : Planted w.disk (w.disk.waysBelow p (LeadsTo (located list))) [] d₁ := by
    refine (Planted.refl _ _).dirs made.here fun other => (made.others other).imp_right ?_
    rintro ⟨free, dir, front, above, rfl⟩
    have nameless : ∀ name ∈ ([] : List String), IsName name := List.forall_mem_nil _
    refine ⟨free, dir, waysBelow_stop nameless w.disk (fun front above => ?_) above⟩
    exact .inl (List.prefix_nil.mp above)
  have plots : ∀ file ∈ list, Plot w.disk (w.disk.waysBelow p (LeadsTo (located list))) []
      (p.join file.1) := by
    intro file listed
    have held : (Text.pieces '/' file.1, file.2) ∈ located list := List.mem_map_of_mem listed
    have takes' := short file listed
    rw [join_eq_joinAll (normal file listed)] at takes' ⊢
    refine site.plot takes' (named file listed) (pieces_ne_nil file.1) (fun front above proper => ?_) ?_
    · exact .inr ⟨_, held, above, proper⟩
    · rintro (none | ⟨other, held', above, proper⟩)
      · exact pieces_ne_nil _ none
      · exact proper (apart _ held other held' above)
  have distinct' : list.Pairwise fun a b =>
      (p.join a.1).place w.disk.here ≠ (p.join b.1).place w.disk.here := by
    refine distinct.imp_of_mem fun {a b} listed listed' ne same => ?_
    rw [place a listed, place b listed'] at same
    have pieces := List.append_cancel_left same
    rw [← (slashed_pieces a.1).1, pieces, (slashed_pieces b.1).1] at ne
    exact ne rfl
  obtain ⟨d₂, written, planted⟩ := exists_planted (w := w.withDisk d₁) planted₁ plots distinct' nofun
  have targets : (list.map fun file => ((p.join file.1).place w.disk.here, file.2)) =
      (located list).map fun file => (p.place w.disk.here ++ file.1, file.2) := by
    rw [located, List.map_map]
    exact List.map_congr_left fun file listed => Prod.ext (place file listed) rfl
  rw [List.nil_append, targets] at planted
  obtain ⟨file_iff, of_dir⟩ := site.content planted
  have isDir : d₂.isDir p := isDir_of_writeFiles (w := w.withDisk d₁) tree₁
    (isDir_of_makeDirs takes.fits.ne_empty dirs) written
  obtain ⟨_, led, stands⟩ := locate_of_find (isDir_iff.mp isDir)
  obtain rfl := place_of_locate led
  have made' : Action.makeDirs p w = (.ok (), w.withDisk d₁) := by
    rw [Action.makeDirs, Action.changeBy_apply, dirs]
    rfl
  refine ⟨d₂, (Action.bind_of_ok made' _).trans written, planted.here, ⟨led, stands, ?_, ?_⟩,
    fun other => at?_planted stops planted⟩
  · rw [planted.here]
    exact file_iff
  · intro names deep dir
    rw [planted.here] at dir
    obtain ⟨file, held, above, -⟩ := (of_dir names dir).resolve_left deep
    exact ⟨file, held, above⟩

end TreeHome
end Patchwork
