import Patchwork.Workspace.Update
import Patchwork.Proofs.Disk.Grown
import Patchwork.Proofs.Workspace.Moved

/-! The releases that are tracked.  A version directory tracks the release that its profile names
(`Workspace.Tracks`), and listing the version directories finds these or fails
(`Workspace.ends_tracked`).  A move takes the origin out of them and brings the target in, with the
release that its written profile names (`Workspace.tracks_moved_iff`). -/

namespace Patchwork
open Path Patchwork.Action

namespace Action.Ends
variable {α β : Type} {f : α → Action β} {w : World} {good : α → β → Prop} {bad : α → Prop}

/-- Readings of the world, one after another. -/
protected theorem mapM (xs : List α)
    (each : ∀ x ∈ xs, Ends (f x) w (fun y w' => w' = w ∧ good x y) (fun _ w' => w' = w ∧ bad x)) :
    Ends (xs.mapM f) w
      (fun ys w' => w' = w ∧ (∀ y ∈ ys, ∃ x ∈ xs, good x y) ∧ ∀ x ∈ xs, ∃ y ∈ ys, good x y)
      (fun _ w' => w' = w ∧ ∃ x ∈ xs, bad x) := by
  induction xs with
  | nil => exact .pure ⟨rfl, nofun, nofun⟩
  | cons x xs ih =>
    obtain ⟨first, others⟩ := List.forall_mem_cons.mp each
    rw [List.mapM_cons]
    refine .bind (first.imp (fun _ _ => id) fun _ _ ⟨same, h⟩ => ⟨same, x, .head _, h⟩) ?_
    rintro y _ ⟨rfl, hy⟩
    refine .bind ((ih others).imp (fun _ _ => id) ?_) ?_
    · exact fun _ _ ⟨same, x', hx', h⟩ => ⟨same, x', .tail _ hx', h⟩
    rintro ys _ ⟨rfl, back, forth⟩
    refine .pure ⟨rfl, ?_, ?_⟩
    · rintro y' (_ | ⟨_, hy'⟩)
      · exact ⟨x, .head _, hy⟩
      · obtain ⟨x', hx', h⟩ := back y' hy'
        exact ⟨x', .tail _ hx', h⟩
    · rintro x' (_ | ⟨_, hx'⟩)
      · exact ⟨y, .head _, hy⟩
      · obtain ⟨y', hy', h⟩ := forth x' hx'
        exact ⟨y', .tail _ hy', h⟩

end Action.Ends

/-! ## Names in a directory -/

theorem Disk.mem_names_iff {d : Disk} {p : Path} {place : Place} (led : d.locate p = .ok place)
    (dir : d.isDir p) :
    ∃ names, d.names p = .ok names ∧ ∀ name, name ∈ names ↔ d.at? (place ++ [name]) ≠ none := by
  have found := isDir_iff.mp dir
  refine ⟨_, by unfold names; rw [led, found]; rfl, fun name => ?_⟩
  rw [List.mem_filterMap]
  constructor
  · rintro ⟨⟨names, node⟩, listed, single⟩
    dsimp only at single
    split at single
    · cases single
      rw [(mem_under_iff.mp listed).2]
      exact Option.some_ne_none _
    · cases single
  · intro there
    obtain ⟨node, there⟩ := Option.ne_none_iff_exists'.mp there
    exact ⟨([name], node), mem_under_iff.mpr ⟨List.cons_ne_nil _ _, there⟩, rfl⟩

namespace Workspace

/-- Whether a directory holds a profile that can be read. -/
def Reads (w : Workspace) (d : Disk) (name : String) (p : Profile) : Prop :=
  ∃ text, d.readText (Profile.fileIn (w.versionDir name)) = .ok text ∧ Profile.parse text = .ok p

/-- **Whether a version directory tracks a release**: its profile names it. -/
def Tracks (w : Workspace) (d : Disk) (t : TrackedVersion) : Prop :=
  IsName t.dir ∧ ∃ p, w.Reads d t.dir p ∧ p.version = t.version

/-- Whether all profiles of version directories can be read. -/
def Readable (w : Workspace) (d : Disk) : Prop :=
  ∀ name, IsName name → d.isFile (Profile.fileIn (w.versionDir name)) → ∃ p, w.Reads d name p

theorem Reads.unique {w : Workspace} {d : Disk} {name : String} {p q : Profile}
    (h : w.Reads d name p) (h' : w.Reads d name q) : p = q := by
  obtain ⟨text, read, parsed⟩ := h
  obtain ⟨text', read', parsed'⟩ := h'
  cases read.symm.trans read'
  exact Except.ok.inj (parsed.symm.trans parsed')

theorem Reads.isFile {w : Workspace} {d : Disk} {name : String} {p : Profile}
    (h : w.Reads d name p) : d.isFile (Profile.fileIn (w.versionDir name)) := by
  obtain ⟨text, read, -⟩ := h
  exact Disk.isFile_iff.mpr ⟨_, Disk.readText_eq_ok_iff.mp read⟩

/-- What holds a profile stands in the directory of versions. -/
theorem stands_of_isFile {w : Workspace} {d : Disk} {name : String} (named : IsName name)
    (h : d.isFile (Profile.fileIn (w.versionDir name))) :
    d.locate w.versions = .ok (w.versions.place d.here) ∧ d.isDir w.versions ∧
      d.at? (w.versions.place d.here ++ [name]) = some .dir := by
  obtain ⟨bytes, found⟩ := Disk.isFile_iff.mp h
  obtain ⟨place, led, -⟩ := Disk.locate_of_find found
  obtain ⟨above, led', dir, -⟩ :=
    Disk.exists_locate_of_join Profile.isName_fileName (text_join_ne_empty named w.versions) led
  obtain ⟨base, led'', dir', rfl⟩ :=
    Disk.exists_locate_of_join named (text_join_ne_empty isName_versionsName w.root) led'
  have place : w.versions.place d.here = base := Disk.place_of_locate led''
  rw [place]
  exact ⟨led'', Disk.isDir_iff.mpr (Disk.find_of_locate led'' dir'), dir⟩

theorem ends_tracked? (w : Workspace) (name : String) (world : World) :
    Ends (w.tracked? name) world
      (fun r w' => w' = world ∧ match r with
        | none => ¬ world.disk.isFile (Profile.fileIn (w.versionDir name))
        | some t => t.dir = name ∧ ∃ p, w.Reads world.disk name p ∧ p.version = t.version)
      (fun _ w' => w' = world ∧ world.disk.isFile (Profile.fileIn (w.versionDir name)) ∧
        ∀ p, ¬ w.Reads world.disk name p) := by
  unfold tracked?
  dsimp only
  refine .bind_of_ok (isFile_apply _ _) ?_
  split
  · rename_i file
    refine .bind ((Profile.ends_load _ world).imp (fun _ _ => id) ?_) ?_
    · exact fun _ _ ⟨same, unread⟩ => ⟨same, file, unread⟩
    · rintro p _ ⟨rfl, read⟩
      exact .pure ⟨rfl, rfl, p, read, rfl⟩
  · rename_i absent
    exact .pure ⟨rfl, absent⟩

/-- **What listing finds**: the version directories that track a release, if all profiles can be
read. -/
theorem ends_tracked (w : Workspace) {world : World} (tree : world.disk.IsTree) :
    Ends w.tracked world
      (fun ts w' => w' = world ∧ w.Readable world.disk ∧ ∀ t, t ∈ ts ↔ w.Tracks world.disk t)
      (fun _ w' => w' = world ∧ ¬ w.Readable world.disk) := by
  unfold tracked
  refine .bind_of_ok (isDir_apply _ _) ?_
  split
  · rename_i isDir
    obtain ⟨place, led, -⟩ := Disk.locate_of_find (Disk.isDir_iff.mp isDir)
    obtain ⟨names, listing, listed⟩ := Disk.mem_names_iff led isDir
    have at_ := Disk.place_of_locate led
    have listed_of_isFile : ∀ {name}, IsName name →
        world.disk.isFile (Profile.fileIn (w.versionDir name)) → name ∈ names := by
      intro name named file
      rw [listed, ← at_, (stands_of_isFile named file).2.2]
      exact Option.some_ne_none _
    refine .bind_of_ok (ask_of_ok listing) ?_
    refine .bind ((Ends.mapM names fun name _ => w.ends_tracked? name world).imp
      (fun _ _ => id) ?_) ?_
    · rintro - _ ⟨rfl, name, hname, file, unread⟩
      have named := tree.named _ ((listed name).mp hname) name (by simp)
      exact ⟨rfl, fun readable => (readable name named file).elim unread⟩
    · rintro found _ ⟨rfl, back, forth⟩
      refine .pure ⟨rfl, fun name named file => ?_, fun t => ?_⟩
      · obtain ⟨y, -, good⟩ := forth name (listed_of_isFile named file)
        match y with
        | none => exact absurd file good
        | some t =>
          obtain ⟨-, p, read, -⟩ := good
          exact ⟨p, read⟩
      · have mem : t ∈ found.filterMap id ↔ some t ∈ found := by simp
        rw [mem]
        constructor
        · intro hfound
          obtain ⟨name, hname, rfl, p, read, version⟩ := back _ hfound
          have named := tree.named _ ((listed t.dir).mp hname) t.dir (by simp)
          exact ⟨named, p, read, version⟩
        · rintro ⟨named, p, read, version⟩
          obtain ⟨y, hy, good⟩ := forth t.dir (listed_of_isFile named read.isFile)
          match y with
          | none => exact absurd read.isFile good
          | some ⟨dir, version'⟩ =>
            obtain ⟨same, p', read', version''⟩ := good
            cases read.unique read'
            dsimp only at same version''
            rw [same, ← version'', version] at hy
            exact hy
  · rename_i absent
    have none : ∀ name, IsName name →
        ¬ world.disk.isFile (Profile.fileIn (w.versionDir name)) :=
      fun name named file => absent (stands_of_isFile named file).2.1
    refine .pure ⟨rfl, fun name named file => absurd file (none name named), fun t => ?_⟩
    constructor
    · exact fun h => nomatch h
    · rintro ⟨named, p, read, -⟩
      exact absurd read.isFile (none t.dir named)

/-! ## After a move -/

section
variable {w : Workspace} {m : Migration} {profile p : Profile} {d d' : Disk} {name : String}
  {t : TrackedVersion}

/-- Where a profile of a version directory stands. -/
def profilePlace (w : Workspace) (d : Disk) (name : String) : Place :=
  w.versions.place d.here ++ [name, Profile.fileName]

/-- The directory of versions, where it is found, is found at its place. -/
theorem locate_of_isDir (h : d.isDir w.versions) :
    d.locate w.versions = .ok (w.versions.place d.here) := by
  obtain ⟨place, led, -⟩ := Disk.locate_of_find (Disk.isDir_iff.mp h)
  exact Disk.place_of_locate led ▸ led

theorem find_profile_iff (tree : d.IsTree)
    (found : d.locate w.versions = .ok (w.versions.place d.here)) (named : IsName name)
    {node : Node} :
    d.find (Profile.fileIn (w.versionDir name)) = .ok node ↔
      w.versions.Open [name, Profile.fileName] ∧ d.at? (w.profilePlace d name) = some node := by
  rw [fileIn_versionDir]
  exact Disk.find_joinAll_iff tree found (by simp [named, Profile.isName_fileName])
    (List.cons_ne_nil _ _)

/-- The profile of a version directory is what its place holds, if the path can be followed. -/
theorem reads_iff (tree : d.IsTree)
    (found : d.locate w.versions = .ok (w.versions.place d.here)) (named : IsName name) :
    w.Reads d name p ↔ w.versions.Open [name, Profile.fileName] ∧
      ∃ text, d.at? (w.profilePlace d name) = some (.file text.toUTF8) ∧
        Profile.parse text = .ok p := by
  simp only [Reads, Disk.readText_eq_ok_iff, find_profile_iff tree found named, and_assoc,
    exists_and_left]

theorem isFile_profile_iff (tree : d.IsTree)
    (found : d.locate w.versions = .ok (w.versions.place d.here)) (named : IsName name) :
    d.isFile (Profile.fileIn (w.versionDir name)) ↔ w.versions.Open [name, Profile.fileName] ∧
      ∃ bytes, d.at? (w.profilePlace d name) = some (.file bytes) := by
  simp only [Disk.isFile_iff, find_profile_iff tree found named, exists_and_left]

/-- A directory whose profile stays tracks what it tracked. -/
theorem Tracks.of_same (h : w.Tracks d t) (tree : d.IsTree) (tree' : d'.IsTree)
    (here : d'.here = d.here) (isDir : d.isDir w.versions) (isDir' : d'.isDir w.versions)
    (same : d'.at? (w.profilePlace d t.dir) = d.at? (w.profilePlace d t.dir)) :
    w.Tracks d' t := by
  obtain ⟨named, p, read, version⟩ := h
  refine ⟨named, p, ?_, version⟩
  rw [reads_iff tree (locate_of_isDir isDir) named, ← same] at read
  rw [reads_iff tree' (locate_of_isDir isDir') named]
  unfold profilePlace at read ⊢
  rwa [here]

theorem at?_profile_of_moved (moved : m.Moved w profile (Migration.IsIgnoreFile w d) d d')
    (out : name ≠ m.origin) (out' : name ≠ m.target) :
    d'.at? (w.profilePlace d name) = d.at? (w.profilePlace d name) := by
  refine moved.others _ (Migration.not_prefix_of_ne out.symm _)
    (Migration.not_prefix_of_ne out'.symm _) ?_
  rintro ⟨-, same⟩
  refine Migration.not_prefix_ignoreFile w d.here [name, Profile.fileName] ?_
  rw [← same]
  exact List.prefix_rfl

/-- **Whether the path of the version directories leads through none of them.** -/
def Outside (w : Workspace) (d : Disk) : Prop :=
  ∀ front, front <+: w.versions.parts → ∀ name,
    ¬ w.versions.place d.here ++ [name] <+: d.stop w.versions front

/-- A path that does not lead back leads through none. -/
theorem outside_of_straight (straight : ".." ∉ w.root.parts) (d : Disk) : w.Outside d := by
  have parts : ".." ∉ w.versions.parts := by
    rw [versions, parts_join isName_versionsName, List.mem_append, List.mem_singleton]
    exact not_or.mpr ⟨straight, by decide⟩
  intro front above name below
  have longer := (below.trans (Disk.stop_prefix_place parts above)).length_le
  rw [List.length_append, List.length_singleton] at longer
  omega

/-- The directory of versions is still found after a move, if its path leads through none of them. -/
theorem isDir_versions_of_moved
    (moved : m.Moved w profile (Migration.IsIgnoreFile w d) d d') (isDir : d.isDir w.versions)
    (outside : w.Outside d) : d'.isDir w.versions := by
  -- the stops of the path are neither moved nor the list of ignored files
  have stay : ∀ front, front <+: w.versions.parts → d.at? (d.stop w.versions front) = some .dir →
      d'.at? (d'.stop w.versions front) = some .dir := by
    intro front above dir
    rw [Disk.stop_eq moved.here,
      moved.others _ (outside front above m.origin) (outside front above m.target), dir]
    rintro ⟨file, same⟩
    obtain ⟨bytes, found⟩ := Disk.isFile_iff.mp file
    obtain ⟨place, led, stands⟩ := Disk.locate_of_find found
    rw [same, Disk.place_of_locate led, stands] at dir
    cases dir
  obtain ⟨place, led, stands⟩ := Disk.locate_of_find (Disk.isDir_iff.mp isDir)
  obtain ⟨takes, rfl, stops⟩ := Disk.locate_iff.mp led
  have led' : d'.locate w.versions = .ok (w.versions.place d'.here) := Disk.locate_iff.mpr
    ⟨takes, rfl, fun front above apart => stay front above (stops front above apart)⟩
  rw [← Disk.stop_parts] at stands
  have stands' := stay _ List.prefix_rfl stands
  rw [Disk.stop_parts] at stands'
  exact Disk.isDir_iff.mpr (Disk.find_of_locate led' stands')

variable (moved : m.Moved w profile (Migration.IsIgnoreFile w d) d d')
  (isDir' : d'.isDir w.versions) (target : IsName m.target)
  (opened : w.versions.Open [m.target, Profile.fileName])
include moved isDir' target opened

/-- After a move, the target holds the profile that the move wrote. -/
theorem reads_target_iff :
    w.Reads d' m.target p ↔ Profile.parse (profile.follow m.target).render = .ok p := by
  have stands : d'.at? (w.profilePlace d' m.target) =
      some (.file (profile.follow m.target).render.toUTF8) := by
    unfold profilePlace
    rw [moved.here]
    exact moved.profile
  rw [reads_iff moved.tree (locate_of_isDir isDir') target, and_iff_right opened, stands]
  constructor
  · rintro ⟨text, same, parsed⟩
    have text_eq : (profile.follow m.target).render = text :=
      String.toByteArray_inj.mp (Node.file.inj (Option.some.inj same))
    rwa [text_eq]
  · exact fun parsed => ⟨_, rfl, parsed⟩

variable (tree : d.IsTree) (isDir : d.isDir w.versions)
include tree isDir

/-- **What a move does to the releases that are tracked**: it takes the origin out of them, and
brings in the target with the release that its profile then names. -/
theorem tracks_moved_iff :
    w.Tracks d' t ↔
      (t.dir = m.target ∧
        ∃ q, Profile.parse (profile.follow m.target).render = .ok q ∧ q.version = t.version) ∨
      (t.dir ≠ m.origin ∧ t.dir ≠ m.target ∧ w.Tracks d t) := by
  have here := moved.here
  by_cases atTarget : t.dir = m.target
  · rw [Tracks, atTarget, and_iff_right target]
    simp only [reads_target_iff moved isDir' target opened, true_and, ne_eq,
      not_true_eq_false, false_and, and_false, or_false]
  · rw [or_iff_right (fun h => atTarget h.1)]
    constructor
    · intro tracks
      have atOrigin : t.dir ≠ m.origin := by
        intro same
        obtain ⟨named, p, read, -⟩ := tracks
        obtain ⟨-, text, stands, -⟩ := (reads_iff moved.tree (locate_of_isDir isDir') named).mp read
        rw [profilePlace, here, same, moved.gone] at stands
        cases stands
      have same := at?_profile_of_moved moved atOrigin atTarget
      refine ⟨atOrigin, atTarget, tracks.of_same moved.tree tree here.symm isDir' isDir ?_⟩
      unfold profilePlace at same ⊢
      rw [here, same]
    · rintro ⟨atOrigin, -, tracks⟩
      exact tracks.of_same tree moved.tree here isDir isDir'
        (at?_profile_of_moved moved atOrigin atTarget)

/-- After a move, all profiles can be read if they could before and the one that was written can. -/
theorem readable_moved (readable : w.Readable d)
    (written : ∃ q, Profile.parse (profile.follow m.target).render = .ok q) : w.Readable d' := by
  intro name named file
  by_cases atTarget : name = m.target
  · obtain ⟨q, parsed⟩ := written
    exact ⟨q, atTarget ▸ (reads_target_iff moved isDir' target opened).mpr parsed⟩
  · obtain ⟨opened', bytes, stands⟩ :=
      (isFile_profile_iff moved.tree (locate_of_isDir isDir') named).mp file
    have atOrigin : name ≠ m.origin := by
      intro same
      rw [profilePlace, moved.here, same, moved.gone] at stands
      cases stands
    have same := at?_profile_of_moved moved atOrigin atTarget
    rw [profilePlace, moved.here, ← profilePlace, same] at stands
    obtain ⟨p, read⟩ := readable name named
      ((isFile_profile_iff tree (locate_of_isDir isDir) named).mpr ⟨opened', bytes, stands⟩)
    obtain ⟨-, text, stands', parsed⟩ := (reads_iff tree (locate_of_isDir isDir) named).mp read
    refine ⟨p, (reads_iff moved.tree (locate_of_isDir isDir') named).mpr ⟨opened', text, ?_, parsed⟩⟩
    rw [profilePlace, moved.here, ← profilePlace, same, stands']

end

end Workspace
end Patchwork
