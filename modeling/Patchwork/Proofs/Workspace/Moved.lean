import Patchwork.Workspace.Migrate
import Patchwork.Proofs.Disk.Copy
import Patchwork.Proofs.Toolchain.Follow

/-! Moving a version directory.  All that can be objected to is looked at before the first
change (`Migration.Admits`): a move that is not admitted leaves the world as it was, and one
that is admitted moves the directory as a whole (`Migration.Moved`) before version control
hears of it, whatever that answers (`Migration.run_allOrNothing`).  Between the two stands only a
target whose paths cannot be followed (`Migration.Reachable`). -/

namespace Patchwork
open Path Patchwork.Action

/-! ## Version directories -/

theorem isName_of_isPlainName {name : String} (plain : isPlainName name) : IsName name := by
  simp only [isPlainName, Bool.and_eq_true, bne_iff_ne, ne_eq, Bool.not_eq_true',
    List.contains_eq_mem, decide_eq_false_iff_not] at plain
  obtain ⟨⟨⟨⟨⟨named, point⟩, points⟩, slashless⟩, -⟩, -⟩ := plain
  exact ⟨named, point, points, slashless⟩

theorem checkName_eq_ok_iff {name : String} : checkName name = .ok () ↔ isPlainName name := by
  unfold checkName
  split
  · rename_i plain
    exact ⟨fun _ => plain, fun _ => rfl⟩
  · rename_i plain
    exact ⟨nofun, fun h => absurd h plain⟩

theorem isName_versionsName : IsName versionsName := by constructor <;> decide

theorem isName_patchesName : IsName patchesName := by constructor <;> decide

theorem Profile.isName_fileName : IsName Profile.fileName := by constructor <;> decide

theorem IgnoreFile.isName_fileName : IsName IgnoreFile.fileName := by constructor <;> decide

namespace Workspace

theorem versionDir_eq (w : Workspace) (name : String) :
    w.versionDir name = w.versions.joinAll [name] := by
  rw [joinAll_singleton, versionDir]

theorem fileIn_versionDir (w : Workspace) (name : String) :
    Profile.fileIn (w.versionDir name) = w.versions.joinAll [name, Profile.fileName] := by
  rw [joinAll_pair, Profile.fileIn, versionDir]

theorem patches_versionDir (w : Workspace) (name : String) :
    (w.versionDir name).join patchesName = w.versions.joinAll [name, patchesName] := by
  rw [joinAll_pair, versionDir]

/-- What is found behind the directory of versions stands behind the place of that directory. -/
theorem locate_versions {d : Disk} {w : Workspace} {name : String} {node : Node}
    (named : IsName name) (h : d.find (w.versionDir name) = .ok node) :
    d.locate w.versions = .ok (w.versions.place d.here) := by
  obtain ⟨place, led, -⟩ := Disk.locate_of_find h
  obtain ⟨above, found, -, -⟩ :=
    Disk.exists_locate_of_join named (text_join_ne_empty isName_versionsName w.root) led
  exact Disk.place_of_locate found ▸ found

end Workspace

/-- How reading the profile in a directory ends. -/
theorem Profile.ends_load (dir : Path) (w : World) :
    Ends (Profile.load dir) w
      (fun p w' => w' = w ∧ ∃ text, w.disk.readText (Profile.fileIn dir) = .ok text ∧
        Profile.parse text = .ok p)
      (fun _ w' => w' = w ∧ ∀ p, ¬ ∃ text, w.disk.readText (Profile.fileIn dir) = .ok text ∧
        Profile.parse text = .ok p) := by
  unfold Profile.load
  rcases known : w.disk.readText (Profile.fileIn dir) with e | text
  · refine .bind_of_error (ask_of_error known) ⟨rfl, ?_⟩
    exact fun _ ⟨_, there, _⟩ => nomatch there
  · refine .bind_of_ok (ask_of_ok known) ?_
    rcases parsed : Profile.parse text with e | profile
    · refine .of_error rfl ⟨rfl, fun p => ?_⟩
      rintro ⟨text, there, good⟩
      cases there
      cases parsed.symm.trans good
    · exact .of_ok rfl ⟨rfl, text, rfl, parsed⟩

namespace Migration

/-! ## What is looked at before the first change -/

/-- What is checked first: the names, the directories and the profile. -/
structure Checked (w : Workspace) (m : Migration) (d : Disk) (profile : Profile) : Prop where
  origin : isPlainName m.origin
  target : isPlainName m.target
  source : d.isDir (w.versionDir m.origin)
  free : d.exists? (w.versionDir m.target) = false
  listed : d.isFile (Profile.fileIn (w.versionDir m.origin))
  profile : ∃ text, d.readText (Profile.fileIn (w.versionDir m.origin)) = .ok text ∧
    Profile.parse text = .ok profile

/-- **Whether a disk admits a move**, and with which profile. -/
structure Admits (w : Workspace) (m : Migration) (d : Disk) (profile : Profile) : Prop extends
    Checked w m d profile where
  ignored : d.isFile (ignoreFile w) → ∃ text, d.readText (ignoreFile w) = .ok text

theorem ends_check (w : Workspace) (m : Migration) (world : World) :
    Ends (m.check w) world (fun profile w' => w' = world ∧ m.Checked w world.disk profile)
      (fun _ w' => w' = world ∧ ∀ profile, ¬ m.Checked w world.disk profile) := by
  have named : ∀ name, Ends (Action.ofOutcome (checkName name)) world
      (fun _ w' => w' = world ∧ isPlainName name)
      (fun _ w' => w' = world ∧ ¬ isPlainName name) := by
    intro name
    rcases h : checkName name with e | _
    · refine .of_error rfl ⟨rfl, fun plain => ?_⟩
      rw [checkName_eq_ok_iff.mpr plain] at h
      cases h
    · exact .of_ok rfl ⟨rfl, checkName_eq_ok_iff.mp h⟩
  unfold check
  refine .bind ((named m.origin).imp (fun _ _ => id) ?_) ?_
  · exact fun _ _ ⟨same, odd⟩ => ⟨same, fun _ c => odd c.origin⟩
  rintro - _ ⟨rfl, origin⟩
  refine .bind ((named m.target).imp (fun _ _ => id) ?_) ?_
  · exact fun _ _ ⟨same, odd⟩ => ⟨same, fun _ c => odd c.target⟩
  rintro - world ⟨rfl, target⟩
  refine .bind_of_ok (isDir_apply _ _) ?_
  split
  · rename_i absent
    exact .throw_bind ⟨rfl, fun _ c => by simp [c.source] at absent⟩
  rename_i source
  dsimp only
  refine .bind_of_ok (exists?_apply _ _) ?_
  split
  · rename_i taken
    exact .throw_bind ⟨rfl, fun _ c => by simp [c.free] at taken⟩
  rename_i free
  refine .bind_of_ok (isFile_apply _ _) ?_
  split
  · rename_i absent
    exact .throw_bind ⟨rfl, fun _ c => by simp [c.listed] at absent⟩
  rename_i listed
  refine (Profile.ends_load (w.versionDir m.origin) world).imp ?_ ?_
  · rintro profile w' ⟨same, loaded⟩
    refine ⟨same, origin, target, ?_, ?_, ?_, loaded⟩
    · simpa using source
    · simpa using free
    · simpa using listed
  · exact fun _ _ ⟨same, fails⟩ => ⟨same, fun profile c => fails profile c.profile⟩

/-! ## The list of ignored files -/

/-- **A disk on which the list of ignored files followed a move**, if there is one. -/
structure Retargeted (w : Workspace) (m : Migration) (d d' : Disk) : Prop where
  tree : d'.IsTree
  here : d'.here = d.here
  dirs : ∀ place, d'.at? place = some .dir ↔ d.at? place = some .dir
  ignored : ∀ text, d.readText (ignoreFile w) = .ok text →
    d'.at? ((ignoreFile w).place d.here) =
      some (.file (IgnoreFile.retarget m.target text).toUTF8)
  others : ∀ place, ¬ (d.isFile (ignoreFile w) ∧ place = (ignoreFile w).place d.here) →
    d'.at? place = d.at? place

theorem ends_retargetIgnored {world : World} (tree : world.disk.IsTree) (w : Workspace)
    (m : Migration) :
    Ends (m.retargetIgnored w) world
      (fun _ w' => ∃ d, w' = world.withDisk d ∧ m.Retargeted w world.disk d ∧
        (world.disk.isFile (ignoreFile w) → ∃ text, world.disk.readText (ignoreFile w) = .ok text))
      (fun _ w' => w' = world ∧ world.disk.isFile (ignoreFile w) ∧
        ∀ text, world.disk.readText (ignoreFile w) ≠ .ok text) := by
  unfold retargetIgnored
  refine .bind_of_ok (isFile_apply _ _) ?_
  split
  · rename_i file
    obtain ⟨bytes, found⟩ := Disk.isFile_iff.mp file
    obtain ⟨place, led, stands, written⟩ := Disk.write_of_find found
    have at_ := Disk.place_of_locate led
    rcases known : world.disk.readText (ignoreFile w) with e | text
    · refine .bind_of_error (ask_of_error known) ⟨rfl, file, fun text there => ?_⟩
      cases there
    refine .bind_of_ok (ask_of_ok known) ?_
    have ne : place ≠ [] := by
      rintro rfl
      rw [Disk.at?_nil] at stands
      cases stands
    have text_file : world.disk.at? place = some (.file text.toUTF8) := by
      cases found.symm.trans (Disk.readText_eq_ok_iff.mp known)
      exact stands
    dsimp only
    split
    · refine .change (fun d made => ?_) fun e refused => ?_
      · rw [written] at made
        cases made
        refine ⟨_, rfl, ⟨tree.put_file stands _, rfl, fun other => ?_, ?_, ?_⟩, fun _ => ⟨_, rfl⟩⟩
        · rw [Disk.at?_put_eq _ ne]
          split
          · rename_i same
            rw [same, stands]
            exact ⟨nofun, nofun⟩
          · exact Iff.rfl
        · intro text' there
          cases known.symm.trans there
          rw [at_, Disk.at?_put_self _ ne]
        · intro other apart
          exact Disk.at?_put _ _ _ fun same => apart ⟨file, same.trans at_.symm⟩
      · rw [written] at refused
        cases refused
    · rename_i unchanged
      refine .pure ⟨world.disk, rfl, ⟨tree, rfl, fun _ => Iff.rfl, ?_, fun _ _ => rfl⟩,
        fun _ => ⟨text, rfl⟩⟩
      intro text' there
      cases known.symm.trans there
      rw [at_, text_file, Decidable.not_not.mp unchanged]
  · rename_i absent
    refine .pure ⟨world.disk, rfl, ⟨tree, rfl, fun _ => Iff.rfl, fun text there => ?_, ?_⟩, ?_⟩
    · exact absurd (Disk.isFile_iff.mpr ⟨_, Disk.readText_eq_ok_iff.mp there⟩) absent
    · exact fun _ _ => rfl
    · exact fun file => absurd file absent

/-! ## The directory -/

/-- **A moved version directory.**  Nothing is left at the origin, and the target holds the patches
and the profile, which follows the new release; elsewhere only some places may have changed. -/
structure Moved (w : Workspace) (m : Migration) (profile : Profile) (changed : Place → Prop)
    (d d' : Disk) : Prop where
  tree : d'.IsTree
  here : d'.here = d.here
  gone : ∀ names, d'.at? (w.versions.place d.here ++ m.origin :: names) = none
  dir : d'.at? (w.versions.place d.here ++ [m.target]) = some .dir
  profile : d'.at? (w.versions.place d.here ++ [m.target, Profile.fileName]) =
    some (.file (profile.follow m.target).render.toUTF8)
  patches : d.isDir ((w.versionDir m.origin).join patchesName) → ∀ names,
    d'.at? (w.versions.place d.here ++ m.target :: patchesName :: names) =
      d.at? (w.versions.place d.here ++ m.origin :: patchesName :: names)
  nothing : ∀ name names, name :: names ≠ [Profile.fileName] →
    (name = patchesName → ¬ d.isDir ((w.versionDir m.origin).join patchesName)) →
    d'.at? (w.versions.place d.here ++ m.target :: name :: names) = none
  others : ∀ place, ¬ w.versions.place d.here ++ [m.origin] <+: place →
    ¬ w.versions.place d.here ++ [m.target] <+: place → ¬ changed place →
    d'.at? place = d.at? place

/-- A version directory that was made for the move, with the patches if there are some. -/
structure Filled (w : Workspace) (m : Migration) (d d' : Disk) : Prop where
  tree : d'.IsTree
  here : d'.here = d.here
  dir : d'.at? (w.versions.place d.here ++ [m.target]) = some .dir
  patches : d.isDir ((w.versionDir m.origin).join patchesName) → ∀ names,
    d'.at? (w.versions.place d.here ++ m.target :: patchesName :: names) =
      d.at? (w.versions.place d.here ++ m.origin :: patchesName :: names)
  nothing : ∀ name names,
    (name = patchesName → ¬ d.isDir ((w.versionDir m.origin).join patchesName)) →
    d'.at? (w.versions.place d.here ++ m.target :: name :: names) = none
  others : ∀ place, ¬ w.versions.place d.here ++ [m.target] <+: place →
    d'.at? place = d.at? place

/-- **Whether what a move makes can be followed**: the profile, and all that is copied. -/
structure Reachable (w : Workspace) (m : Migration) (d : Disk) : Prop where
  profile : w.versions.Open [m.target, Profile.fileName]
  patches : d.isDir ((w.versionDir m.origin).join patchesName) → ∀ names,
    d.at? (w.versions.place d.here ++ m.origin :: patchesName :: names) ≠ none →
    w.versions.Open (m.target :: patchesName :: names)

variable {w : Workspace} {m : Migration} {profile : Profile} {d d' : Disk}

theorem not_prefix_of_ne {base : Place} {name other : String} (apart : name ≠ other)
    (rest : List String) : ¬ base ++ [name] <+: base ++ other :: rest := by
  rw [List.prefix_append_right_inj, List.cons_prefix_cons]
  exact fun h => apart h.1

theorem Filled.isTree_put (h : m.Filled w d d') (bytes : ByteArray) :
    (d'.put (w.versions.place d.here ++ [m.target, Profile.fileName]) (.file bytes)).IsTree := by
  have vacant := h.nothing Profile.fileName [] fun same => absurd same (by decide)
  have written : (d'.put (w.versions.place d.here ++ [m.target] ++ [Profile.fileName])
      (.file bytes)).IsTree := by
    refine h.tree.put h.dir Profile.isName_fileName fun there => ?_
    rw [List.append_assoc] at there
    cases vacant.symm.trans there
  rwa [List.append_assoc] at written

/-- The move is done when the profile is written and the origin erased. -/
theorem Filled.moved (h : m.Filled w d d') (apart : m.origin ≠ m.target) (profile : Profile) :
    m.Moved w profile (fun _ => False) d
      ((d'.put (w.versions.place d.here ++ [m.target, Profile.fileName])
        (.file (profile.follow m.target).render.toUTF8)).erase
          (w.versions.place d.here ++ [m.origin])) := by
  have ne : w.versions.place d.here ++ [m.origin] ≠ [] := by simp
  have ne' : w.versions.place d.here ++ [m.target, Profile.fileName] ≠ [] := by simp
  -- what stands in the target now stood there before, but for the profile
  have inside : ∀ name names, name :: names ≠ [Profile.fileName] →
      ((d'.put (w.versions.place d.here ++ [m.target, Profile.fileName])
        (.file (profile.follow m.target).render.toUTF8)).erase
          (w.versions.place d.here ++ [m.origin])).at?
          (w.versions.place d.here ++ m.target :: name :: names) =
        d'.at? (w.versions.place d.here ++ m.target :: name :: names) := by
    intro name names other
    rw [Disk.at?_erase _ ne, if_neg (not_prefix_of_ne apart _), Disk.at?_put_eq _ ne', if_neg]
    exact fun same => other (List.cons.inj (List.append_cancel_left same)).2
  constructor
  · exact (h.isTree_put _).erase ne
  · exact h.here
  · intro names
    rw [Disk.at?_erase _ ne, if_pos]
    exact ⟨names, by rw [List.append_assoc]; rfl⟩
  · rw [Disk.at?_erase _ ne, if_neg (not_prefix_of_ne apart _), Disk.at?_put_eq _ ne', if_neg, h.dir]
    simp
  · rw [Disk.at?_erase _ ne, if_neg (not_prefix_of_ne apart _), Disk.at?_put_self _ ne']
  · intro isDir names
    rw [inside _ _ fun same => absurd (List.cons.inj same).1 (by decide), h.patches isDir names]
  · intro name names other absent
    rw [inside name names other, h.nothing name names absent]
  · intro place out out' _
    rw [Disk.at?_erase _ ne, if_neg out, Disk.at?_put_eq _ ne', if_neg, h.others place out']
    rintro rfl
    exact out' ⟨[Profile.fileName], by rw [List.append_assoc]; rfl⟩

section
open Disk
variable (started : PartCopy d (w.versions.place d.here ++ [m.target]) [] d')
include started

/-- A target that is just made holds nothing. -/
theorem none_of_started (name : String) (names : List String) :
    d'.at? (w.versions.place d.here ++ m.target :: name :: names) = none := by
  rw [Option.eq_none_iff_forall_ne_some]
  intro node there
  have whole : w.versions.place d.here ++ m.target :: name :: names =
      w.versions.place d.here ++ [m.target] ++ name :: names := by rw [List.append_assoc]; rfl
  rw [whole, started.below _ _ (List.cons_ne_nil _ _)] at there
  cases there

/-- Without patches, a target that is just made is filled. -/
theorem Filled.of_started (without : ¬ d.isDir ((w.versionDir m.origin).join patchesName)) :
    m.Filled w d d' := by
  refine ⟨started.tree, started.here, started.dir, fun isDir => absurd isDir without, ?_,
    started.others⟩
  exact fun name names _ => none_of_started started name names

/-- With the patches copied into it, the target is filled. -/
theorem Filled.of_copied {d'' : Disk} (apart : m.origin ≠ m.target)
    (copied : Copied d' (w.versions.place d.here ++ [m.origin, patchesName])
      (w.versions.place d.here ++ [m.target, patchesName]) d'')
    (isDir : d.isDir ((w.versionDir m.origin).join patchesName)) :
    m.Filled w d d'' := by
  have below : ∀ other rest, w.versions.place d.here ++ other :: patchesName :: rest =
      w.versions.place d.here ++ [other, patchesName] ++ rest := fun other rest => by
    rw [List.append_assoc]
    rfl
  refine ⟨copied.tree, copied.here.trans started.here, ?_, fun _ names => ?_, ?_, ?_⟩
  · rw [copied.others, started.dir]
    rw [List.prefix_append_right_inj, List.cons_prefix_cons]
    exact fun into => absurd into.2 (by simp)
  · rw [below, copied.below, ← below, started.others _ (not_prefix_of_ne apart.symm _)]
  · intro name names absent
    have other : name ≠ patchesName := fun same => absent same isDir
    rw [copied.others, none_of_started started]
    rw [List.prefix_append_right_inj, List.cons_prefix_cons, List.cons_prefix_cons]
    exact fun into => other into.2.1.symm
  · intro place out
    rw [copied.others, started.others place out]
    exact fun into => out (.trans ⟨[patchesName], by rw [List.append_assoc]; rfl⟩ into)

end

/-- **How a move stops**: nothing but the target was begun, and the profile was not written, since a
path could not be followed. -/
def Stopped (w : Workspace) (m : Migration) (world : World) (e : Failure) (w' : World) : Prop :=
  ∃ d, w' = world.withDisk d ∧
    world.disk.Begun (w.versions.place world.disk.here ++ [m.target]) d ∧
    d.at? (w.versions.place world.disk.here ++ [m.target, Profile.fileName]) =
      world.disk.at? (w.versions.place world.disk.here ++ [m.target, Profile.fileName]) ∧
    (∃ step reason, e = .io step reason) ∧ ¬ m.Reachable w world.disk

section
variable {world : World} (tree : world.disk.IsTree) (origin : IsName m.origin)
  (target : IsName m.target) (source : world.disk.isDir (w.versionDir m.origin))
  (free : world.disk.exists? (w.versionDir m.target) = false)
include tree origin target source free

/-- Nothing stands at the target, where its path can be followed. -/
theorem vacant_target (opened : w.versions.Open [m.target]) :
    world.disk.at? (w.versions.place world.disk.here ++ [m.target]) = none := by
  have found := Workspace.locate_versions origin (Disk.isDir_iff.mp source)
  have alone : ∀ name ∈ [m.target], IsName name := by simp [target]
  rw [Option.eq_none_iff_forall_ne_some]
  intro node there
  have led := (Disk.find_joinAll_iff tree found alone (List.cons_ne_nil _ _)).mpr ⟨opened, there⟩
  have taken := Disk.exists?_iff.mpr ⟨node, led⟩
  rw [Bool.eq_false_iff] at free
  exact free taken

theorem ends_finish (filled : m.Filled w world.disk d) (opened : w.versions.Open [m.target])
    (reached : world.disk.isDir ((w.versionDir m.origin).join patchesName) → ∀ names,
      world.disk.at? (w.versions.place world.disk.here ++ m.origin :: patchesName :: names) ≠ none →
      w.versions.Open (m.target :: patchesName :: names)) (profile : Profile) :
    Ends
      (do
        (profile.follow m.target).save (w.versionDir m.target)
        Action.remove (w.versionDir m.origin))
      (world.withDisk d)
      (fun _ w' => ∃ d, w' = world.withDisk d ∧ m.Moved w profile (fun _ => False) world.disk d ∧
        m.Reachable w world.disk)
      (m.Stopped w world) := by
  have found := Workspace.locate_versions origin (Disk.isDir_iff.mp source)
  have alone : ∀ name ∈ [m.origin], IsName name := by simp [origin]
  obtain ⟨opened', stands⟩ := (Disk.find_joinAll_iff tree found alone (List.cons_ne_nil _ _)).mp
    (Disk.isDir_iff.mp source)
  have vacant := vacant_target tree origin target source free opened
  have apart : m.origin ≠ m.target := by
    intro same
    rw [same, vacant] at stands
    cases stands
  have begun : world.disk.Begun (w.versions.place world.disk.here ++ [m.target]) d :=
    ⟨filled.tree, filled.here, filled.others⟩
  have found' := begun.locate tree vacant found
  have unwritten := filled.nothing Profile.fileName [] fun same => absurd same (by decide)
  have names : ∀ name ∈ [m.target, Profile.fileName], IsName name := by
    simp [target, Profile.isName_fileName]
  have vacant' : d.at? (w.versions.place world.disk.here ++ [m.target, Profile.fileName]) ≠
      some .dir := fun there => nomatch unwritten.symm.trans there
  have dir : d.at? (w.versions.place world.disk.here ++ [m.target, Profile.fileName].dropLast) =
      some .dir := filled.dir
  rw [Profile.save, Action.writeFile, Workspace.fileIn_versionDir]
  have ends := @Ends.write (world.withDisk d) w.versions _ [m.target, Profile.fileName]
    (.writing (w.versions.joinAll [m.target, Profile.fileName]).text)
    (profile.follow m.target).render.toUTF8 filled.tree found' names (List.cons_ne_nil _ _) dir
    vacant'
  refine .bind (ends.imp (fun _ _ => id) ?_) ?_
  · rintro e w' ⟨rfl, reason, closed⟩
    refine ⟨d, rfl, begun, ?_, reason, fun reachable => closed reachable.profile⟩
    have before := tree.none_of_append vacant [Profile.fileName]
    rw [List.append_assoc] at before
    exact unwritten.trans before.symm
  · rintro - - ⟨rfl, written⟩
    have tree' := filled.isTree_put (profile.follow m.target).render.toUTF8
    have found'' : (d.put (w.versions.place world.disk.here ++ [m.target, Profile.fileName])
        (.file (profile.follow m.target).render.toUTF8)).locate w.versions =
          .ok (w.versions.place world.disk.here) :=
      Disk.locate_put found' (by simp) fun there => absurd there vacant'
    have stands' : (d.put (w.versions.place world.disk.here ++ [m.target, Profile.fileName])
        (.file (profile.follow m.target).render.toUTF8)).at?
          (w.versions.place world.disk.here ++ [m.origin]) = some .dir := by
      rw [Disk.at?_put _ _ _ (by simp), filled.others _ (not_prefix_of_ne apart.symm []), stands]
    have led := (Disk.find_joinAll_iff tree' found'' alone (List.cons_ne_nil _ _)).mpr
      ⟨opened', stands'⟩
    have place : (w.versionDir m.origin).place d.here =
        w.versions.place world.disk.here ++ [m.origin] := by
      rw [filled.here]
      exact place_join_of_isName origin w.versions world.disk.here
    rw [← Workspace.versionDir_eq] at led
    refine .of_ok (remove_of_find led (endsInName_join origin _)) ⟨_, rfl, ?_, written, reached⟩
    have moved := filled.moved apart profile
    rw [← place] at moved
    exact moved

/-- **How moving the directory ends**: it is moved, or a path into the target cannot be followed. -/
theorem ends_moveDir (profile : Profile) :
    Ends (m.moveDir w profile) world
      (fun _ w' => ∃ d, w' = world.withDisk d ∧ m.Moved w profile (fun _ => False) world.disk d ∧
        m.Reachable w world.disk)
      (m.Stopped w world) := by
  have found := Workspace.locate_versions origin (Disk.isDir_iff.mp source)
  have stands := ((Disk.find_joinAll_iff tree found (by simp [origin])
    (List.cons_ne_nil m.origin [])).mp (Disk.isDir_iff.mp source)).2
  have dir : world.disk.at? (w.versions.place world.disk.here) = some .dir :=
    tree.dir_of_append (stands ▸ Option.some_ne_none _) (List.cons_ne_nil _ _)
  have above : world.disk.at? (w.versions.place world.disk.here ++ [m.target].dropLast) =
      some .dir := by
    rwa [List.dropLast_singleton, List.append_nil]
  have alone : ∀ name ∈ [m.target], IsName name := by simp [target]
  unfold moveDir
  dsimp only
  rw [Workspace.versionDir_eq w m.target]
  refine .bind ((Ends.makeDirs tree found alone (List.cons_ne_nil _ _) above
    (vacant_target tree origin target source free)).imp (fun _ _ => id) ?_) ?_
  · rintro e w' ⟨rfl, reason, closed⟩
    refine ⟨w'.disk, rfl, .refl tree, rfl, reason, fun reachable => closed ?_⟩
    have deep : w.versions.Open ([m.target] ++ [Profile.fileName]) := reachable.profile
    refine deep.front (text_join_ne_empty isName_versionsName w.root) ?_
    simp [target, Profile.isName_fileName]
  rintro - - ⟨rfl, opened⟩
  have vacant := vacant_target tree origin target source free opened
  have apart : m.origin ≠ m.target := by
    intro same
    rw [same, vacant] at stands
    cases stands
  have started := Disk.PartCopy.start tree target dir vacant
  rw [← Workspace.versionDir_eq]
  have found' := started.begun.locate tree vacant found
  have patched : ∀ name ∈ [m.origin, patchesName], IsName name := by
    simp [origin, isName_patchesName]
  have same : (world.disk.put (w.versions.place world.disk.here ++ [m.target]) .dir).isDir
      ((w.versionDir m.origin).join patchesName) =
        world.disk.isDir ((w.versionDir m.origin).join patchesName) := by
    rw [Bool.eq_iff_iff, Disk.isDir_iff, Disk.isDir_iff, Workspace.patches_versionDir,
      Disk.find_joinAll_iff started.tree found' patched (List.cons_ne_nil _ _),
      Disk.find_joinAll_iff tree found patched (List.cons_ne_nil _ _),
      started.others _ (not_prefix_of_ne apart.symm _)]
  refine .bind_of_ok (isDir_apply _ _) ?_
  rw [World.withDisk_disk, same]
  split
  · rename_i isDir
    have led := Disk.isDir_iff.mp (same.trans isDir)
    rw [Workspace.patches_versionDir] at led
    obtain ⟨opened', stands'⟩ := (Disk.find_joinAll_iff started.tree found' patched
      (List.cons_ne_nil _ _)).mp led
    have fresh := none_of_started started patchesName []
    have ends := @Ends.copyTree
      (world.withDisk (world.disk.put (w.versions.place world.disk.here ++ [m.target]) .dir))
      w.versions _ [m.origin, patchesName] [m.target, patchesName] started.tree found' patched
      (List.cons_ne_nil _ _) opened' stands' (by simp [target, isName_patchesName])
      (List.cons_ne_nil _ _) started.dir fresh
      fun into => apart (List.cons_prefix_cons.mp into).1
    rw [Workspace.patches_versionDir, Workspace.patches_versionDir]
    refine .bind (ends.imp (fun _ _ => id) ?_) ?_
    · rintro e - ⟨d, rfl, begun, reason, names, there, closed⟩
      have below : w.versions.place world.disk.here ++ [m.target] <+:
          w.versions.place world.disk.here ++ [m.target, patchesName] :=
        ⟨[patchesName], by rw [List.append_assoc]; rfl⟩
      refine ⟨d, rfl, begun.within below started.begun, ?_, reason, fun reachable => closed ?_⟩
      · rw [begun.others, World.withDisk_disk, none_of_started started]
        · have before := tree.none_of_append vacant [Profile.fileName]
          rw [List.append_assoc] at before
          exact before.symm
        · rw [List.prefix_append_right_inj, List.cons_prefix_cons, List.cons_prefix_cons]
          exact fun into => absurd into.2.1 (by decide)
      · refine reachable.patches isDir names ?_
        have kept := started.others _ (not_prefix_of_ne apart.symm (patchesName :: names))
        rw [← kept]
        rwa [World.withDisk_disk, List.append_assoc] at there
    · rintro - - ⟨d, rfl, copied, reached⟩
      refine ends_finish tree origin target source free
        (.of_copied started apart copied isDir) opened (fun _ names there => ?_) profile
      have kept := started.others _ (not_prefix_of_ne apart.symm (patchesName :: names))
      rw [← kept] at there
      refine reached names ?_
      rwa [World.withDisk_disk, List.append_assoc]
  · rename_i without
    exact ends_finish tree origin target source free (.of_started started without) opened
      (fun isDir => absurd isDir without) profile

end

/-! ## The move as a whole -/

/-- The list of ignored files stands beside the directory of versions. -/
theorem not_prefix_ignoreFile (w : Workspace) (here : Place) (names : List String) :
    ¬ w.versions.place here ++ names <+: (ignoreFile w).place here := by
  have versions : w.versions.place here = w.root.place here ++ [versionsName] :=
    place_join_of_isName isName_versionsName w.root here
  have ignored : (ignoreFile w).place here = w.root.place here ++ [IgnoreFile.fileName] :=
    place_join_of_isName IgnoreFile.isName_fileName w.root here
  rw [versions, ignored, List.append_assoc, List.prefix_append_right_inj, List.singleton_append,
    List.cons_prefix_cons]
  exact fun h => absurd h.1 (by decide)

section
variable (retargeted : m.Retargeted w d d')
  (found : d.locate w.versions = .ok (w.versions.place d.here))
include retargeted

theorem at?_retargeted (names : List String) :
    d'.at? (w.versions.place d.here ++ names) = d.at? (w.versions.place d.here ++ names) :=
  retargeted.others _ fun ⟨_, same⟩ => not_prefix_ignoreFile w d.here names (same ▸ List.prefix_rfl)

include found

theorem find_retargeted {names : List String} (named : ∀ name ∈ names, IsName name)
    (ne : names ≠ []) (tree : d.IsTree) {node : Node} :
    d'.find (w.versions.joinAll names) = .ok node ↔
      d.find (w.versions.joinAll names) = .ok node := by
  have found' := Disk.locate_mono retargeted.here (fun other => (retargeted.dirs other).mpr) found
  rw [Disk.find_joinAll_iff retargeted.tree found' named ne,
    Disk.find_joinAll_iff tree found named ne, at?_retargeted retargeted]

end

/-- **Whether a place is that of the list of ignored files**, if there is one. -/
def IsIgnoreFile (w : Workspace) (d : Disk) (place : Place) : Prop :=
  d.isFile (ignoreFile w) ∧ place = (ignoreFile w).place d.here

/-- What version control is asked to forget. -/
def untracking (m : Migration) : GitCall := .untrack (Workspace.shortPath m.origin)

/-- What version control is asked to keep track of, on the disk after the move. -/
def adding (w : Workspace) (m : Migration) (d : Disk) : GitCall :=
  .add (Workspace.shortPath m.target ::
    if d.isFile (ignoreFile w) then [IgnoreFile.fileName] else [])

/-- What version control is asked: nothing where there is none, and no more once it refuses. -/
def calls (s : Surroundings) (w : Workspace) (m : Migration) (d : Disk) : List GitCall :=
  if s.isRepository w.root then
    match s.git m.untracking with
    | .ok () => [m.untracking, m.adding w d]
    | .error _ => [m.untracking]
  else []

/-- What comes of it. -/
def verdict (s : Surroundings) (w : Workspace) (m : Migration) (d : Disk) : Outcome Unit :=
  if s.isRepository w.root then
    match s.git m.untracking with
    | .ok () => s.git (m.adding w d)
    | .error e => .error e
  else .ok ()

theorem git_apply (s : Surroundings) (call : GitCall) (w : World) :
    Action.git s call w = (s.git call, { w with gitCalls := w.gitCalls ++ [call] }) :=
  ofOutcome_apply (s.git call) _

theorem tell_apply (s : Surroundings) (w : Workspace) (m : Migration) (world : World) :
    m.tell s w world = (m.verdict s w world.disk,
      { world with gitCalls := world.gitCalls ++ m.calls s w world.disk }) := by
  have asked := git_apply s m.untracking world
  unfold tell verdict calls
  split
  · rcases answer : s.git m.untracking with e | _ <;> rw [answer] at asked
    · exact bind_of_error asked _
    · refine (bind_of_ok asked _).trans ?_
      rw [bind_of_ok (isFile_apply _ _)]
      refine (git_apply s _ _).trans ?_
      rw [List.append_assoc]
      rfl
  · rw [List.append_nil]
    rfl

theorem Checked.unique {profile profile' : Profile} (h : m.Checked w d profile)
    (h' : m.Checked w d profile') : profile = profile' := by
  obtain ⟨text, read, parsed⟩ := h.profile
  obtain ⟨text', read', parsed'⟩ := h'.profile
  cases read.symm.trans read'
  exact Except.ok.inj (parsed.symm.trans parsed')

theorem moved_of_retargeted {d₁ d₂ : Disk} (retargeted : m.Retargeted w d d₁)
    (same : d₁.isDir ((w.versionDir m.origin).join patchesName) =
      d.isDir ((w.versionDir m.origin).join patchesName))
    (moved : m.Moved w profile (fun _ => False) d₁ d₂) :
    m.Moved w profile (IsIgnoreFile w d) d d₂ := by
  obtain ⟨tree, here, gone, dir, written, patches, nothing, others⟩ := moved
  rw [retargeted.here] at gone dir written patches nothing others
  rw [same] at patches nothing
  refine ⟨tree, here.trans retargeted.here, gone, dir, written, fun isDir names => ?_, nothing,
    fun place out out' unchanged => ?_⟩
  · rw [patches isDir names, at?_retargeted retargeted]
  · rw [others place out out' id, retargeted.others place unchanged]

theorem reachable_iff_of_retargeted {d₁ : Disk} (retargeted : m.Retargeted w d d₁)
    (same : d₁.isDir ((w.versionDir m.origin).join patchesName) =
      d.isDir ((w.versionDir m.origin).join patchesName)) :
    m.Reachable w d₁ ↔ m.Reachable w d := by
  have at_ := at?_retargeted retargeted
  constructor
  · rintro ⟨profile, patches⟩
    rw [retargeted.here, same] at patches
    exact ⟨profile, fun isDir names there => patches isDir names (by rwa [at_])⟩
  · rintro ⟨profile, patches⟩
    refine ⟨profile, ?_⟩
    rw [retargeted.here, same]
    exact fun isDir names there => patches isDir names (by rwa [at_] at there)

/-- What a move leaves when a path into the target cannot be followed. -/
structure Halted (w : Workspace) (m : Migration) (d d' : Disk) : Prop where
  tree : d'.IsTree
  here : d'.here = d.here
  unwritten : d'.at? (w.versions.place d.here ++ [m.target, Profile.fileName]) =
    d.at? (w.versions.place d.here ++ [m.target, Profile.fileName])
  others : ∀ place, ¬ w.versions.place d.here ++ [m.target] <+: place →
    ¬ IsIgnoreFile w d place → d'.at? place = d.at? place

/-- **The three ways that a move goes.**  It is not admitted, and then nothing happens; it is, and
then it is done, or a path into the target cannot be followed. -/
theorem run_cases (s : Surroundings) (w : Workspace) (m : Migration) {world : World}
    (tree : world.disk.IsTree) :
    ((∀ profile, ¬ m.Admits w world.disk profile) ∧ ∃ e, m.run s w world = (.error e, world)) ∨
    ∃ profile, m.Admits w world.disk profile ∧
      ((m.Reachable w world.disk ∧
        ∃ d, m.Moved w profile (IsIgnoreFile w world.disk) world.disk d ∧
          (∀ text, world.disk.readText (ignoreFile w) = .ok text →
            d.at? ((ignoreFile w).place world.disk.here) =
              some (.file (IgnoreFile.retarget m.target text).toUTF8)) ∧
          m.run s w world = (m.verdict s w d,
            ⟨d, world.gitCalls ++ m.calls s w d, world.launches⟩)) ∨
      (¬ m.Reachable w world.disk ∧
        ∃ step reason d, m.Halted w world.disk d ∧
          m.run s w world = (.error (.io step reason), world.withDisk d))) := by
  have checking := m.ends_check w world
  unfold run
  rcases checked : m.check w world with ⟨e | profile, world'⟩
  · obtain ⟨rfl, refused⟩ := checking.error checked
    refine .inl ⟨fun profile admits => refused profile admits.toChecked, e, ?_⟩
    exact bind_of_error checked _
  obtain ⟨rfl, check⟩ := checking.ok checked
  rw [bind_of_ok checked]
  have retargeting := ends_retargetIgnored tree w m
  rcases changed : m.retargetIgnored w world' with ⟨e | _, world₁⟩
  · obtain ⟨rfl, file, unread⟩ := retargeting.error changed
    refine .inl ⟨fun profile admits => ?_, e, ?_⟩
    · obtain ⟨text, read⟩ := admits.ignored file
      exact unread text read
    · exact bind_of_error changed _
  obtain ⟨d₁, rfl, retargeted, readable⟩ := retargeting.ok changed
  rw [bind_of_ok changed]
  refine .inr ⟨profile, ⟨check, readable⟩, ?_⟩
  have origin := isName_of_isPlainName check.origin
  have target := isName_of_isPlainName check.target
  have found := Workspace.locate_versions origin (Disk.isDir_iff.mp check.source)
  have alone : ∀ {name : String}, IsName name → ∀ name' ∈ [name], IsName name' := by
    intro name named name' hname'
    exact List.mem_singleton.mp hname' ▸ named
  have source₁ : d₁.isDir (w.versionDir m.origin) := by
    rw [Disk.isDir_iff, Workspace.versionDir_eq, find_retargeted retargeted found (alone origin)
      (List.cons_ne_nil _ _) tree, ← Workspace.versionDir_eq]
    exact Disk.isDir_iff.mp check.source
  have free₁ : d₁.exists? (w.versionDir m.target) = false := by
    have free := check.free
    rw [Bool.eq_false_iff, Ne, Disk.exists?_iff, Workspace.versionDir_eq] at free ⊢
    rintro ⟨node, there⟩
    exact free ⟨node, (find_retargeted retargeted found (alone target)
      (List.cons_ne_nil _ _) tree).mp there⟩
  have same : d₁.isDir ((w.versionDir m.origin).join patchesName) =
      world'.disk.isDir ((w.versionDir m.origin).join patchesName) := by
    rw [Bool.eq_iff_iff, Disk.isDir_iff, Disk.isDir_iff, Workspace.patches_versionDir,
      find_retargeted retargeted found (by simp [origin, isName_patchesName])
        (List.cons_ne_nil _ _) tree]
  have reachable := reachable_iff_of_retargeted retargeted same
  have moving := @ends_moveDir w m (world'.withDisk d₁) retargeted.tree origin target source₁ free₁
    profile
  rcases moved : m.moveDir w profile (world'.withDisk d₁) with ⟨e | _, world₂⟩
  · obtain ⟨d₂, rfl, begun, unwritten, ⟨step, reason, rfl⟩, closed⟩ := moving.error moved
    refine .inr ⟨fun opened => closed (reachable.mpr opened), step, reason, d₂, ?_, ?_⟩
    · have at_ := at?_retargeted retargeted
      have here : (world'.withDisk d₁).disk.here = world'.disk.here := retargeted.here
      rw [here] at begun unwritten
      refine ⟨begun.tree, begun.here.trans here, unwritten.trans (at_ _), fun place out kept => ?_⟩
      exact (begun.others place out).trans (retargeted.others place kept)
    · exact bind_of_error moved _
  · obtain ⟨d₂, rfl, done, opened⟩ := moving.ok moved
    refine .inl ⟨reachable.mp opened, d₂, moved_of_retargeted retargeted same done,
      fun text read => ?_, ?_⟩
    · have here : (world'.withDisk d₁).disk.here = world'.disk.here := retargeted.here
      have others := done.others ((ignoreFile w).place world'.disk.here)
      rw [here] at others
      rw [others (not_prefix_ignoreFile w _ _) (not_prefix_ignoreFile w _ _) id]
      exact retargeted.ignored text read
    · rw [bind_of_ok moved, tell_apply]
      rfl

/-- A move that is admitted succeeds where its paths can be followed and version control agrees. -/
theorem run_eq_ok (s : Surroundings) {world : World} (tree : world.disk.IsTree)
    (admits : m.Admits w world.disk profile) (reachable : m.Reachable w world.disk)
    (agrees : ∀ call, s.git call = .ok ()) : (m.run s w world).1 = .ok () := by
  rcases m.run_cases s w tree with ⟨refused, -⟩ | ⟨-, -, ⟨-, d, -, -, done⟩ | ⟨closed, -⟩⟩
  · exact absurd admits (refused profile)
  · rw [done, verdict, agrees, agrees]
    split <;> rfl
  · exact absurd reachable closed

/-! ## A small workspace -/

/-- A workspace at `/ws`. -/
def demoWorkspace : Workspace := ⟨⟨"/ws"⟩⟩

/-- Surroundings with a version control that agrees to everything. -/
def demoSurroundings : Surroundings where
  isRepository _ := true
  git _ := .ok ()
  run _ _ d := (.ok ⟨0, 0⟩, d)
  scratch := ⟨"/tmp"⟩

/-- A move from one release to the next. -/
def demo : Migration := ⟨"1.20", "1.20.1"⟩

/-- The profile of the directory that is moved. -/
def demoProfile : String := "minecraftVersion = \"1.20\"\n"

/-- The disk with the version directory, its profile and a list of ignored files. -/
def demoDisk : Disk :=
  ((((Disk.empty.put ["ws"] .dir).put ["ws", "versions"] .dir).put ["ws", "versions", "1.20"]
    .dir).put ["ws", "versions", "1.20", "remold.toml"] (.file demoProfile.toUTF8)).put
      ["ws", ".gitignore"] (.file "!versions/1.20\n".toUTF8)

theorem isTree_demoDisk : demoDisk.IsTree := by decide +kernel

theorem admits_demo : ∃ profile, demo.Admits demoWorkspace demoDisk profile := by
  refine ⟨_, ⟨?_, ?_, ?_, ?_, ?_, demoProfile, rfl, rfl⟩, fun _ => ⟨_, rfl⟩⟩
  all_goals decide +kernel

theorem reachable_demo : demo.Reachable demoWorkspace demoDisk := by
  constructor
  · constructor
    · constructor <;> decide +kernel
    · decide +kernel
  · exact fun isDir => absurd isDir (by decide +kernel)

theorem run_demo : (demo.run demoSurroundings demoWorkspace ⟨demoDisk, [], []⟩).1 = .ok () := by
  obtain ⟨profile, admits⟩ := admits_demo
  exact run_eq_ok demoSurroundings isTree_demoDisk admits reachable_demo fun _ => rfl

end Migration
end Patchwork
