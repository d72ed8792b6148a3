import Mathlib.Data.List.Nodup
import Mathlib.Data.List.Perm.Subperm
import Patchwork.Proofs.Release.Newest
import Patchwork.Proofs.Workspace.Tracked

/-! Progress by updates.  An update that moves a directory moves one that follows the newest of the
releases, to a release that came out later than all that are followed (`Workspace.Chosen`).  So what
is reached never falls back, whatever comes of an update (`Workspace.Reaches.update`), and
each record of a sequence of updates stands for a later release than those before
(`Workspace.updates_progress`). -/

namespace Patchwork
open Path Patchwork.Action

/-! ## The choice -/

namespace Catalog
variable {c : Catalog} {r : Release}

/-- With ids that are distinct, each release is found by its own. -/
theorem release?_id (distinct : (c.releases.map Release.id).Nodup) (listed : r ∈ c.releases) :
    c.release? r.id = some r := by
  rcases found : c.release? r.id with _ | r'
  · have absent := List.find?_eq_none.mp found r listed
    simp at absent
  · obtain ⟨listed', same⟩ := release?_eq_some found
    rw [List.inj_on_of_nodup_map distinct listed' listed same]

/-- Whether a release is listed and came out at an instant. -/
def CameOut (c : Catalog) (id : String) (i : Instant) : Prop :=
  ∃ r, c.release? id = some r ∧ r.instant = .ok i

theorem CameOut.unique {id : String} {i j : Instant} (h : c.CameOut id i) (h' : c.CameOut id j) :
    i = j := by
  obtain ⟨r, known, instant⟩ := h
  obtain ⟨r', known', instant'⟩ := h'
  cases known.symm.trans known'
  exact Except.ok.inj (instant.symm.trans instant')

/-- Whether a release came out before another one. -/
def Before (c : Catalog) (id id' : String) : Prop :=
  ∃ i j, c.CameOut id i ∧ c.CameOut id' j ∧ i.earlier j

theorem Before.ne {id id' : String} (h : c.Before id id') : id ≠ id' := by
  rintro rfl
  obtain ⟨i, j, out, out', early⟩ := h
  cases out.unique out'
  exact Instant.earlier_irrefl i early

/-- Of listed releases that came out one after another there are no more than are listed. -/
theorem length_le_of_pairwise_before {ids : List String} (one : ids.Pairwise c.Before)
    (listed : ∀ id ∈ ids, ∃ i, c.CameOut id i) : ids.length ≤ c.releases.length := by
  have nodup : ids.Nodup := one.imp Before.ne
  have subset : ids ⊆ c.releases.map Release.id := by
    intro id hid
    obtain ⟨i, r, known, -⟩ := listed id hid
    obtain ⟨there, rfl⟩ := release?_eq_some known
    exact List.mem_map_of_mem there
  have fewer := (nodup.subperm subset).length_le
  rwa [List.length_map] at fewer

end Catalog

/-- **What a policy picks** is listed, of the kind that it asks for, and came out later. -/
theorem UpdatePolicy.target?_eq_some {policy : UpdatePolicy} {c : Catalog} {current r : Release}
    (h : policy.target? c current = .ok (some r)) :
    r ∈ c.releases ∧ r.isOf policy.kind ∧
      ∃ i j, r.instant = .ok i ∧ current.instant = .ok j ∧ j.earlier i := by
  unfold target? at h
  split at h
  · cases h
  · rename_i r' picked
    obtain ⟨i, instant, h⟩ := bind_eq_ok_iff.mp h
    obtain ⟨j, instant', h⟩ := bind_eq_ok_iff.mp h
    split at h
    · rename_i later
      cases h
      have candidate := (Option.filter_eq_some_iff.mp picked).1
      have listed : r ∈ c.releases ∧ r.isOf policy.kind := by
        split at candidate
        · exact ⟨List.mem_of_find?_eq_some candidate, List.find?_some candidate⟩
        · unfold Catalog.successor? at candidate
          split at candidate
          · refine ⟨?_, List.find?_some candidate⟩
            have before := List.mem_reverse.mp (List.mem_of_find?_eq_some candidate)
            exact (List.takeWhile_prefix _).subset before
          · cases candidate
      exact ⟨listed.1, listed.2, i, j, instant, instant', later⟩
    · cases h

section
variable {w : Workspace} {c : Catalog} {ts : List TrackedVersion} {r : Release} {dir : String}

/-- The directory that is picked follows the newest of the releases. -/
theorem newest_of_newestTracked (h : newestTracked w c ts = .ok (r, dir)) :
    (∃ i, c.Newest (ts.map TrackedVersion.version) r i) ∧ ⟨dir, r.id⟩ ∈ ts := by
  unfold newestTracked at h
  split at h
  · cases h
  · obtain ⟨found, newest, h⟩ := bind_eq_ok_iff.mp h
    split at h
    · cases h
    · rename_i current
      cases h
      obtain ⟨i, newest⟩ := Catalog.newest_of_newestAmong newest
      obtain ⟨id, hid, listed⟩ := newest.listed
      obtain ⟨t, ht, rfl⟩ := List.mem_map.mp hid
      have same := (Catalog.release?_eq_some listed).2
      refine ⟨⟨i, newest⟩, ?_⟩
      rcases first : ts.find? (·.version == r.id) with _ | t'
      · have apart := List.find?_eq_none.mp first t ht
        simp [same] at apart
      · have follows : t'.version = r.id := by simpa using List.find?_some first
        have listed' := List.mem_of_find?_eq_some first
        rwa [first, Option.map_some, Option.getD_some, ← follows]

/-- What alone follows a release later than all others is what is picked. -/
theorem newestTracked_eq_ok {i : Instant} (listed : ⟨dir, r.id⟩ ∈ ts)
    (known : c.release? r.id = some r) (instant : r.instant = .ok i)
    (later : ∀ t ∈ ts, t.dir ≠ dir → ∀ r', c.release? t.version = some r' →
      ∃ j, r'.instant = .ok j ∧ j.earlier i)
    (single : ∀ t ∈ ts, t.dir = dir → t.version = r.id) :
    newestTracked w c ts = .ok (r, dir) := by
  have newest : c.newestAmong (ts.map TrackedVersion.version) = .ok (some r) := by
    refine Catalog.newestAmong_eq_some ⟨r.id, List.mem_map.mpr ⟨_, listed, rfl⟩, known⟩ instant ?_
    intro id hid r' known'
    obtain ⟨t, ht, rfl⟩ := List.mem_map.mp hid
    by_cases same : t.dir = dir
    · rw [single t ht same, known] at known'
      exact .inl (Option.some.inj known').symm
    · exact .inr (later t ht same r' known')
  have found : (ts.find? (·.version == r.id)).map TrackedVersion.dir = some dir := by
    rcases first : ts.find? (·.version == r.id) with _ | t
    · have apart := List.find?_eq_none.mp first _ listed
      simp at apart
    · have follows : t.version = r.id := by simpa using List.find?_some first
      have ht := List.mem_of_find?_eq_some first
      by_cases same : t.dir = dir
      · rw [first, Option.map_some, same]
      · obtain ⟨j, instant', early⟩ := later t ht same r (follows ▸ known)
        cases instant.symm.trans instant'
        exact absurd early (Instant.earlier_irrefl i)
  have some_tracked : ts.isEmpty = false := by
    rw [Bool.eq_false_iff, Ne, List.isEmpty_iff]
    exact List.ne_nil_of_mem listed
  unfold newestTracked
  rw [if_neg (by simp [some_tracked]), newest]
  change Except.ok (r, ((ts.find? (·.version == r.id)).map TrackedVersion.dir).getD r.id) = _
  rw [found, Option.getD_some]

end

namespace Workspace
variable {w : Workspace} {c : Catalog} {policy : UpdatePolicy} {d d' : Disk} {m : Migration}
  {r : Release} {i : Instant}

/-- Whether a directory follows a release that is listed and came out at an instant. -/
def Follows (w : Workspace) (c : Catalog) (d : Disk) (t : TrackedVersion) (i : Instant) : Prop :=
  w.Tracks d t ∧ c.CameOut t.version i

/-- **The move that an update makes**: away from a directory that follows one of the newest of the
releases that are listed, to a release of the kind that came out later than all of them. -/
structure Chosen (w : Workspace) (c : Catalog) (policy : UpdatePolicy) (d : Disk) (m : Migration)
    (r : Release) (i : Instant) : Prop where
  listed : r ∈ c.releases
  target : r.id = m.target
  kind : r.isOf policy.kind
  instant : r.instant = .ok i
  known : ∀ t, w.Tracks d t → ∀ r', c.release? t.version = some r' → ∃ j, r'.instant = .ok j
  later : ∀ t j, w.Follows c d t j → j.earlier i
  newest : ∃ t j, t.dir = m.origin ∧ w.Follows c d t j ∧
    ∀ t' j', w.Follows c d t' j' → ¬ j.earlier j'

/-- What the pick among the directories that are listed comes to. -/
theorem chosen_of_target? {ts : List TrackedVersion} {current : Release} {dir : String}
    (listing : ∀ t, t ∈ ts ↔ w.Tracks d t) (picked : newestTracked w c ts = .ok (current, dir))
    (target : policy.target? c current = .ok (some r)) :
    ∃ i, w.Chosen c policy d ⟨dir, r.id⟩ r i := by
  obtain ⟨⟨j, newest⟩, followed⟩ := newest_of_newestTracked picked
  obtain ⟨listed, kind, i, j', instant, instant', later⟩ := UpdatePolicy.target?_eq_some target
  cases newest.instant.symm.trans instant'
  have known : c.release? current.id = some current := by
    obtain ⟨id, -, known⟩ := newest.listed
    rwa [(Catalog.release?_eq_some known).2]
  have latest : ∀ t, w.Tracks d t → ∀ r', c.release? t.version = some r' →
      ∃ k, r'.instant = .ok k ∧ ¬ j.earlier k := fun t tracks r' known' =>
    newest.latest _ (List.mem_map.mpr ⟨t, (listing t).mpr tracks, rfl⟩) r' known'
  have after : ∀ t k, w.Follows c d t k → ¬ j.earlier k := by
    rintro t k ⟨tracks, r', known', instant''⟩
    obtain ⟨k', at_, early⟩ := latest t tracks r' known'
    cases instant''.symm.trans at_
    exact early
  refine ⟨i, listed, rfl, kind, instant, fun t tracks r' known' => ?_, fun t k follows => ?_, ?_⟩
  · obtain ⟨k, at_, -⟩ := latest t tracks r' known'
    exact ⟨k, at_⟩
  · exact Instant.earlier_of_not_earlier (after t k follows) later
  · exact ⟨⟨dir, current.id⟩, j, rfl, ⟨(listing _).mp followed, current, known, newest.instant⟩,
      after⟩

section
variable {ts : List TrackedVersion} {current : Release} {dir : String} {world : World}
  (listing : w.tracked world = (.ok ts, world)) (picked : newestTracked w c ts = .ok (current, dir))
include listing picked

theorem update_of_error (s : Surroundings) {e : Failure}
    (target : policy.target? c current = .error e) : w.update s c policy world = (.error e, world) := by
  unfold update
  rw [bind_of_ok listing, bind_of_outcome picked]
  dsimp only
  rw [target]
  rfl

theorem update_of_none (s : Surroundings) (target : policy.target? c current = .ok none) :
    w.update s c policy world = (.ok none, world) := by
  unfold update
  rw [bind_of_ok listing, bind_of_outcome picked]
  dsimp only
  rw [bind_of_outcome target]
  rfl

/-- Where there is a release to move to, an update is a move. -/
theorem update_of_some (s : Surroundings) (target : policy.target? c current = .ok (some r)) :
    w.update s c policy world =
      (((Migration.mk dir r.id).run s w world).1.map fun _ => some ⟨dir, r.id⟩,
        ((Migration.mk dir r.id).run s w world).2) := by
  unfold update
  rw [bind_of_ok listing, bind_of_outcome picked]
  dsimp only
  rw [bind_of_outcome target]
  dsimp only
  rcases moved : (Migration.mk dir r.id).run s w world with ⟨e | _, world'⟩
  · rw [bind_of_error moved]
    rfl
  · rw [bind_of_ok moved]
    rfl

end

/-- **What an update does**: it returns no record and leaves the world as it was, or it makes the
move that it chose and returns its record where that succeeds. -/
theorem update_cases (s : Surroundings) (w : Workspace) (c : Catalog) (policy : UpdatePolicy)
    {world : World} (tree : world.disk.IsTree) :
    ((w.update s c policy world).2 = world ∧ ∀ m, (w.update s c policy world).1 ≠ .ok (some m)) ∨
    ∃ m r i, w.Readable world.disk ∧ w.Chosen c policy world.disk m r i ∧
      w.update s c policy world = ((m.run s w world).1.map fun _ => some m, (m.run s w world).2) := by
  have listing := w.ends_tracked tree
  rcases ran : w.tracked world with ⟨e | ts, world'⟩
  · obtain ⟨rfl, -⟩ := listing.error ran
    rw [update, bind_of_error ran]
    exact .inl ⟨rfl, nofun⟩
  obtain ⟨rfl, readable, tracked⟩ := listing.ok ran
  rcases picked : newestTracked w c ts with e | ⟨current, dir⟩
  · rw [update, bind_of_ok ran, picked]
    exact .inl ⟨rfl, nofun⟩
  rcases target : policy.target? c current with e | _ | r
  · rw [update_of_error ran picked s target]
    exact .inl ⟨rfl, nofun⟩
  · rw [update_of_none ran picked s target]
    exact .inl ⟨rfl, nofun⟩
  obtain ⟨i, chosen⟩ := chosen_of_target? tracked picked target
  exact .inr ⟨⟨dir, r.id⟩, r, i, readable, chosen, update_of_some ran picked s target⟩

/-! ## What is reached -/

theorem Follows.isDir {t : TrackedVersion} (h : w.Follows c d t i) : d.isDir w.versions := by
  obtain ⟨⟨named, p, read, -⟩, -⟩ := h
  exact (stands_of_isFile named read.isFile).2.1

/-- **Whether an instant is reached**: some directory follows a release no earlier, if the directories
can be listed at all. -/
def Reaches (w : Workspace) (c : Catalog) (d : Disk) (i : Instant) : Prop :=
  d.isDir w.versions → w.Readable d → ∃ t j, w.Follows c d t j ∧ ¬ j.earlier i

theorem Chosen.cameOut (chosen : w.Chosen c policy d m r i)
    (distinct : (c.releases.map Release.id).Nodup) : c.CameOut m.target i :=
  ⟨r, chosen.target ▸ Catalog.release?_id distinct chosen.listed, chosen.instant⟩

/-- What is reached stays reached when a move stops. -/
theorem Reaches.of_halted {j : Instant} (h : w.Reaches c d j) (tree : d.IsTree)
    (readable : w.Readable d) (isDir : d.isDir w.versions) (halted : m.Halted w d d') :
    w.Reaches c d' j := by
  intro isDir' _
  obtain ⟨t, j', ⟨tracks, out⟩, early⟩ := h isDir readable
  refine ⟨t, j', ⟨tracks.of_same tree halted.tree halted.here isDir isDir' ?_, out⟩, early⟩
  by_cases atTarget : t.dir = m.target
  · rw [atTarget]
    exact halted.unwritten
  · refine halted.others _ (Migration.not_prefix_of_ne (Ne.symm atTarget) _) ?_
    rintro ⟨-, same⟩
    refine Migration.not_prefix_ignoreFile w d.here [t.dir, Profile.fileName] ?_
    rw [← same]
    exact List.prefix_rfl

/-- After the move that was chosen, the target follows the release that was chosen. -/
theorem follows_target (chosen : w.Chosen c policy d m r i)
    (distinct : (c.releases.map Release.id).Nodup) {profile : Profile} (admits : m.Admits w d profile)
    (moved : m.Moved w profile (Migration.IsIgnoreFile w d) d d') (isDir' : d'.isDir w.versions)
    (opened : w.versions.Open [m.target, Profile.fileName]) (readable' : w.Readable d') :
    w.Follows c d' ⟨m.target, m.target⟩ i := by
  have target := isName_of_isPlainName admits.target
  have file : d'.isFile (Profile.fileIn (w.versionDir m.target)) := by
    rw [isFile_profile_iff moved.tree (locate_of_isDir isDir') target, profilePlace, moved.here]
    exact ⟨opened, _, moved.profile⟩
  obtain ⟨q, read⟩ := readable' m.target target file
  obtain ⟨text, -, parsed⟩ := admits.profile
  have version := Profile.version_of_parse_follow parsed ((reads_target_iff moved isDir' target opened).mp read)
  exact ⟨⟨target, q, read, version⟩, chosen.cameOut distinct⟩

/-- **What a chosen move leaves** is a tree on which all is reached that was reached before, and if
the move succeeds, the release that was chosen. -/
theorem reaches_run (s : Surroundings) {world : World} (tree : world.disk.IsTree)
    (readable : w.Readable world.disk) (chosen : w.Chosen c policy world.disk m r i)
    (distinct : (c.releases.map Release.id).Nodup) :
    (m.run s w world).2.disk.IsTree ∧
      (∀ j, w.Reaches c world.disk j → w.Reaches c (m.run s w world).2.disk j) ∧
      ((m.run s w world).1 = .ok () → w.Reaches c (m.run s w world).2.disk i) := by
  have isDir : world.disk.isDir w.versions := by
    obtain ⟨t, j, -, follows, -⟩ := chosen.newest
    exact follows.isDir
  rcases m.run_cases s w tree with ⟨-, e, refused⟩ | ⟨profile, admits, done | stopped⟩
  · rw [refused]
    exact ⟨tree, fun _ h => h, nofun⟩
  · obtain ⟨opened, d, moved, -, ran⟩ := done
    rw [ran]
    have reached : w.Reaches c d i := fun isDir' readable' =>
      ⟨_, i, follows_target chosen distinct admits moved isDir' opened.profile readable',
        Instant.earlier_irrefl i⟩
    refine ⟨moved.tree, fun j before isDir' readable' => ?_, fun _ => reached⟩
    obtain ⟨t, i', follows, late⟩ := reached isDir' readable'
    obtain ⟨t', j', follows', early⟩ := before isDir readable
    have later := chosen.later t' j' follows'
    refine ⟨t, i', follows, fun before' => late ?_⟩
    exact Instant.earlier_trans before' (Instant.earlier_of_not_earlier early later)
  · obtain ⟨-, step, reason, d, halted, ran⟩ := stopped
    rw [ran]
    exact ⟨halted.tree, fun j before => before.of_halted tree readable isDir halted, nofun⟩

/-- **An update never falls back**, and a record that it returns stands for a release that is listed
and came out later than all that was reached. -/
theorem reaches_update (s : Surroundings) (policy : UpdatePolicy) {world : World}
    (tree : world.disk.IsTree) (distinct : (c.releases.map Release.id).Nodup) :
    (w.update s c policy world).2.disk.IsTree ∧
      (∀ j, w.Reaches c world.disk j → w.Reaches c (w.update s c policy world).2.disk j) ∧
      ∀ m, (w.update s c policy world).1 = .ok (some m) → ∃ i, c.CameOut m.target i ∧
        (∀ j, w.Reaches c world.disk j → j.earlier i) ∧
        w.Reaches c (w.update s c policy world).2.disk i := by
  rcases update_cases s w c policy tree with ⟨same, none⟩ | ⟨m, r, i, readable, chosen, ran⟩
  · rw [same]
    exact ⟨tree, fun _ h => h, fun m returned => absurd returned (none m)⟩
  · have isDir : world.disk.isDir w.versions := by
      obtain ⟨t, j, -, follows, -⟩ := chosen.newest
      exact follows.isDir
    obtain ⟨tree', kept, reached⟩ := reaches_run s tree readable chosen distinct
    rw [ran]
    refine ⟨tree', kept, fun m' returned => ?_⟩
    rcases answer : (m.run s w world).1 with e | _
    · rw [answer] at returned
      cases returned
    · rw [answer] at returned
      cases returned
      refine ⟨i, chosen.cameOut distinct, fun j before => ?_, reached answer⟩
      obtain ⟨t, j', follows, early⟩ := before isDir readable
      exact Instant.earlier_of_not_earlier early (chosen.later t j' follows)

/-! ## Sequences of updates -/

/-- Updates one after another, each in surroundings and by a policy of its own: the records that
they return, and the world that they leave. -/
def updates (w : Workspace) (c : Catalog) :
    List (Surroundings × UpdatePolicy) → World → List Migration × World
  | [], world => ([], world)
  | (s, policy) :: runs, world =>
    let ran := w.update s c policy world
    let rest := updates w c runs ran.2
    (match ran.1 with
      | .ok (some m) => m :: rest.1
      | _ => rest.1, rest.2)

/-- **Records follow one another**: each stands for a release that came out later than what was
reached at the start and than those of all records before. -/
theorem pairwise_updates (distinct : (c.releases.map Release.id).Nodup)
    (runs : List (Surroundings × UpdatePolicy)) {world : World} (tree : world.disk.IsTree) :
    (∀ m ∈ (w.updates c runs world).1, ∃ i, c.CameOut m.target i ∧
      ∀ j, w.Reaches c world.disk j → j.earlier i) ∧
    (w.updates c runs world).1.Pairwise fun m m' => c.Before m.target m'.target := by
  induction runs generalizing world with
  | nil => exact ⟨nofun, .nil⟩
  | cons run runs ih =>
    obtain ⟨s, policy⟩ := run
    obtain ⟨tree', kept, returned⟩ := reaches_update s policy tree distinct
    obtain ⟨later, ordered⟩ := ih tree'
    have later' : ∀ m ∈ (w.updates c runs (w.update s c policy world).2).1,
        ∃ i, c.CameOut m.target i ∧ ∀ j, w.Reaches c world.disk j → j.earlier i := by
      intro m hm
      obtain ⟨i, out, late⟩ := later m hm
      exact ⟨i, out, fun j before => late j (kept j before)⟩
    unfold updates
    dsimp only
    split
    · rename_i m answer
      obtain ⟨i, out, late, reached⟩ := returned m answer
      refine ⟨?_, List.pairwise_cons.mpr ⟨fun m' hm' => ?_, ordered⟩⟩
      · rintro m' (_ | ⟨_, hm'⟩)
        · exact ⟨i, out, late⟩
        · exact later' m' hm'
      · obtain ⟨i', out', late'⟩ := later m' hm'
        exact ⟨i, i', out, out', late' i reached⟩
    · exact ⟨later', ordered⟩

end Workspace
end Patchwork
