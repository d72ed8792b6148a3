import Patchwork.Proofs.Workspace.Updated

/-! Updates keep up.  Where the catalog is listed newest first and some release of the kind that is
asked for came out later than the newest one that is tracked, an update moves the directory that
tracks it to the release that the policy wants: the last one, or else the first one afterwards
(`Workspace.update_keepsUp`).  Without `latest` this holds as long as no release of the kind that
is listed before the one that is tracked came out together with it: the closest one listed is then
the one that is tried, and it is no later.

Updates make progress.  A record that an update returns stands for a move that was done
(`Workspace.moved_of_update`), away from a directory that followed a newest release and to a release
that came out later than all that are known; so what it moved is the newest one afterwards, and over a
sequence of updates the records stand for ever later releases (`Workspace.update_progress`). -/

namespace Patchwork

/-- Whether two instants are the same time, whatever clocks show it. -/
def Instant.Together (i j : Instant) : Prop := ¬ i.earlier j ∧ ¬ j.earlier i

/-- **The release that a policy wants** after an instant: one of its kind that came out later.  It
is the last of them where the latest is asked for, and else the first of them. -/
structure UpdatePolicy.Wants (policy : UpdatePolicy) (c : Catalog) (i : Instant) (r : Release) :
    Prop where
  listed : r ∈ c.releases
  kind : r.isOf policy.kind
  later : ∃ j, r.instant = .ok j ∧ i.earlier j
  last : policy.latest → ∀ r' ∈ c.releases, r'.isOf policy.kind → ∀ j j',
    r.instant = .ok j → r'.instant = .ok j' → ¬ j.earlier j'
  next : ¬ policy.latest → ∀ r' ∈ c.releases, r'.isOf policy.kind → ∀ j j',
    r.instant = .ok j → r'.instant = .ok j' → i.earlier j' → ¬ j'.earlier j

section
variable {policy : UpdatePolicy} {c : Catalog} {current r : Release} {i j : Instant}

theorem UpdatePolicy.target?_of_candidate? (candidate : policy.candidate? c current = some r)
    (at_ : current.instant = .ok i) (at_' : r.instant = .ok j) (later : i.earlier j) :
    policy.target? c current = .ok (some r) := by
  unfold target?
  rw [candidate]
  dsimp only
  rw [at_, at_', ok_bind, ok_bind, if_pos later]
  rfl

/-- **What a policy wants is what it picks**, unless a release of the kind that is listed before the
current one came out together with it. -/
theorem UpdatePolicy.exists_target?_of_later (distinct : (c.releases.map Release.id).Nodup)
    (order : c.NewestFirst) (known : c.release? current.id = some current)
    (at_ : current.instant = .ok i) (listed : r ∈ c.releases) (of_kind : r.isOf policy.kind)
    (at_' : r.instant = .ok j) (later : i.earlier j)
    (apart : policy.latest ∨ ∀ r', c.ListedBefore r' current → r'.isOf policy.kind →
      ∀ k, r'.instant = .ok k → ¬ i.Together k) :
    ∃ r', policy.target? c current = .ok (some r') ∧ policy.Wants c i r' := by
  -- a release that came out later is another one, so that it passes the filter
  have other : ∀ {r' : Release} {k : Instant}, r' ∈ c.releases → r'.instant = .ok k →
      i.earlier k → (r'.id != current.id) = true := by
    intro r' k listed' at_'' later'
    rw [bne_iff_ne]
    intro same
    have found := Catalog.release?_id distinct listed'
    rw [same, known] at found
    cases found
    cases at_.symm.trans at_''
    exact Instant.earlier_irrefl i later'
  by_cases latest : policy.latest = true
  · obtain ⟨r', k, first, at_'', newest⟩ := order.first? listed of_kind
    have later' : i.earlier k :=
      Instant.earlier_of_earlier_of_not later (newest r listed of_kind j at_')
    have listed' : r' ∈ c.releases := List.mem_of_find?_eq_some first
    have candidate : policy.candidate? c current = some r' := by
      rw [candidate?, if_pos latest, first, Option.filter_some, if_pos (other listed' at_'' later')]
    refine ⟨r', target?_of_candidate? candidate at_ at_'' later',
      listed', List.find?_some first, ⟨k, at_'', later'⟩, ?_, fun h => absurd latest h⟩
    intro _ r'' listed'' of_kind'' k' k'' at₁ at₂
    cases at_''.symm.trans at₁
    exact newest r'' listed'' of_kind'' k'' at₂
  · have apart := apart.resolve_left latest
    have front := order.before_of_later known at_ listed at_' later
    obtain ⟨r', k, found, before, at_'', of_kind', closest⟩ :=
      order.successor? known front of_kind
    have later' : i.earlier k := by
      have no_earlier := order.not_earlier before at_'' at_
      have not_together := apart r' before of_kind' k at_''
      by_contra early
      exact not_together ⟨early, no_earlier⟩
    have listed' : r' ∈ c.releases := before.subset List.mem_cons_self
    have candidate : policy.candidate? c current = some r' := by
      rw [candidate?, if_neg latest, found, Option.filter_some, if_pos (other listed' at_'' later')]
    refine ⟨r', target?_of_candidate? candidate at_ at_'' later',
      listed', of_kind', ⟨k, at_'', later'⟩, fun h => absurd h latest, ?_⟩
    intro _ r'' listed'' of_kind'' k' k'' at₁ at₂ late
    cases at_''.symm.trans at₁
    exact closest r'' (order.before_of_later known at_ listed'' at₂ late) of_kind'' k'' at₂

/-- What keeps an update back: where the closest release of the kind that is listed before the
current one came out together with it, no release is picked, whatever is listed further on. -/
theorem UpdatePolicy.target?_of_together (plain : policy.latest = false)
    (closest : c.successor? current.id policy.kind = some r) (at_ : current.instant = .ok i)
    (at_' : r.instant = .ok j) (together : i.Together j) :
    policy.target? c current = .ok none := by
  unfold target?
  rcases candidate : policy.candidate? c current with _ | r'
  · rfl
  · rw [candidate?, plain, if_neg Bool.false_ne_true, closest] at candidate
    cases (Option.filter_eq_some_iff.mp candidate).1
    dsimp only
    rw [at_, at_', ok_bind, ok_bind, if_neg together.1]
    rfl

/-- With a release that is listed among those that are tracked, one of them is picked. -/
theorem exists_newestTracked (w : Workspace) {ts : List TrackedVersion} {t : TrackedVersion}
    (order : c.NewestFirst) (tracked : t ∈ ts) (known : c.release? t.version = some r) :
    ∃ current dir, newestTracked w c ts = .ok (current, dir) := by
  have dated : ∀ id ∈ ts.map TrackedVersion.version, ∀ r', c.release? id = some r' →
      ∃ i, r'.instant = .ok i :=
    fun _ _ r' known' => order.dated r' (Catalog.release?_eq_some known').1
  obtain ⟨result, found⟩ := Catalog.exists_newestOver none dated
  have some_tracked : ts.isEmpty = false := by
    rw [Bool.eq_false_iff, Ne, List.isEmpty_iff]
    exact List.ne_nil_of_mem tracked
  have whole := Catalog.found_newestOver c.found_nil found
  rcases result with _ | ⟨current, i⟩
  · have absent := whole t.version (List.mem_map.mpr ⟨t, tracked, rfl⟩)
    rw [known] at absent
    cases absent
  · refine ⟨current, ((ts.find? (·.version == current.id)).map TrackedVersion.dir).getD current.id, ?_⟩
    unfold newestTracked Catalog.newestAmong
    rw [if_neg (by simp [some_tracked]), found]
    rfl

end

namespace Workspace
variable {w : Workspace} {c : Catalog} {policy : UpdatePolicy} {d : Disk} {r r' : Release}
  {i j : Instant} {dir dir' : String}

/-- **Whether a directory follows a newest one** of the releases that are tracked. -/
structure Newest (w : Workspace) (c : Catalog) (d : Disk) (dir : String) (r : Release) (i : Instant) :
    Prop where
  tracks : w.Tracks d ⟨dir, r.id⟩
  known : c.release? r.id = some r
  instant : r.instant = .ok i
  latest : ∀ t j, w.Follows c d t j → ¬ i.earlier j

/-- The directory that is picked follows a newest release. -/
theorem newest_of_picked {ts : List TrackedVersion} (listing : ∀ t, t ∈ ts ↔ w.Tracks d t)
    (picked : newestTracked w c ts = .ok (r, dir)) : ∃ i, w.Newest c d dir r i := by
  obtain ⟨⟨i, newest⟩, followed⟩ := newest_of_newestTracked picked
  have known : c.release? r.id = some r := by
    obtain ⟨id, -, known⟩ := newest.listed
    rwa [(Catalog.release?_eq_some known).2]
  refine ⟨i, (listing _).mp followed, known, newest.instant, ?_⟩
  rintro t k ⟨tracks, r', known', at_⟩
  obtain ⟨k', at_', early⟩ :=
    newest.latest _ (List.mem_map.mpr ⟨t, (listing t).mpr tracks, rfl⟩) r' known'
  cases at_.symm.trans at_'
  exact early

theorem Newest.together (h : w.Newest c d dir r i) (h' : w.Newest c d dir' r' j) : i.Together j :=
  ⟨h.latest _ j ⟨h'.tracks, r', h'.known, h'.instant⟩,
    h'.latest _ i ⟨h.tracks, r, h.known, h.instant⟩⟩

/-- **Updates keep up.**  Where some release of the kind came out later than the newest one that is
tracked, an update does not find that all is up to date.  If the profiles can be read, it moves a
directory that follows a newest release to the release that the policy wants. -/
theorem update_keepsUp (s : Surroundings) (w : Workspace) (policy : UpdatePolicy) {world : World}
    (tree : world.disk.IsTree) (distinct : (c.releases.map Release.id).Nodup)
    (order : c.NewestFirst) (newest : w.Newest c world.disk dir r i)
    (later : ∃ r' ∈ c.releases, r'.isOf policy.kind ∧ ∃ j, r'.instant = .ok j ∧ i.earlier j)
    (apart : policy.latest ∨ ∀ dir r j, w.Newest c world.disk dir r j →
      ∀ r', c.ListedBefore r' r → r'.isOf policy.kind → ∀ k, r'.instant = .ok k → ¬ j.Together k) :
    (w.update s c policy world).1 ≠ .ok none ∧
    (w.Readable world.disk → ∃ (m : Migration) (r₀ : Release) (i₀ : Instant) (r' : Release),
      w.Newest c world.disk m.origin r₀ i₀ ∧
      r'.id = m.target ∧ policy.Wants c i₀ r' ∧
      w.update s c policy world =
        ((m.run s w world).1.map fun _ => some m, (m.run s w world).2)) := by
  have listing := w.ends_tracked tree
  rcases ran : w.tracked world with ⟨e | ts, world'⟩
  · obtain ⟨-, unreadable⟩ := listing.error ran
    rw [update, Action.bind_of_error ran]
    exact ⟨by rintro ⟨⟩, fun readable => absurd readable unreadable⟩
  obtain ⟨rfl, -, tracked⟩ := listing.ok ran
  obtain ⟨current, dir₀, picked⟩ :=
    exists_newestTracked w order ((tracked _).mpr newest.tracks) newest.known
  obtain ⟨i₀, newest₀⟩ := newest_of_picked tracked picked
  obtain ⟨r', listed, of_kind, j, at_, late⟩ := later
  have late₀ : i₀.earlier j := Instant.earlier_of_not_earlier (newest.together newest₀).1 late
  obtain ⟨r'', target, wanted⟩ := policy.exists_target?_of_later distinct order newest₀.known
    newest₀.instant listed of_kind at_ late₀ (apart.imp_right fun all => all dir₀ current i₀ newest₀)
  have moved := update_of_some ran picked s target
  refine ⟨?_, fun _ => ⟨⟨dir₀, r''.id⟩, current, i₀, r'', newest₀, rfl, wanted, moved⟩⟩
  rw [moved]
  cases ((Migration.mk dir₀ r''.id).run s w world').1 <;> rintro ⟨⟩

/-! ## A small catalog -/

open Migration

/-- The release that is tracked. -/
def demoRelease : Release := ⟨"1.20", "release", "", "2023-06-02T08:36:17+00:00", "", ""⟩

/-- The release after it. -/
def demoSuccessor : Release := ⟨"1.20.1", "release", "", "2023-06-12T13:25:51+00:00", "", ""⟩

/-- A release and the one before it. -/
def demoCatalog : Catalog := ⟨∅, [demoSuccessor, demoRelease]⟩

theorem instant_demoRelease : demoRelease.instant = .ok ⟨1685694977, 0, 0⟩ := by
  have read : Instant.ofText? demoRelease.releaseTime = some ⟨1685694977, 0, 0⟩ := by decide +kernel
  rw [Release.instant, read]

theorem instant_demoSuccessor : demoSuccessor.instant = .ok ⟨1686576351, 0, 0⟩ := by
  have read : Instant.ofText? demoSuccessor.releaseTime = some ⟨1686576351, 0, 0⟩ := by decide +kernel
  rw [Release.instant, read]

theorem newestFirst_demoCatalog : demoCatalog.NewestFirst := by
  constructor
  · simp [demoCatalog, instant_demoRelease, instant_demoSuccessor]
  · simp [demoCatalog, instant_demoRelease, instant_demoSuccessor]
    decide

/-- The small workspace tracks the first release of the catalog. -/
theorem exists_newest_demo : ∃ i,
    demoWorkspace.Newest demoCatalog demoDisk "1.20" demoRelease i := by
  have ran : demoWorkspace.tracked ⟨demoDisk, [], []⟩ = (.ok [⟨"1.20", "1.20"⟩], ⟨demoDisk, [], []⟩) := by
    rfl
  obtain ⟨-, -, tracked⟩ := (demoWorkspace.ends_tracked isTree_demoDisk).ok ran
  exact newest_of_picked tracked rfl

theorem update_keepsUp_demo :
    (demoWorkspace.update demoSurroundings demoCatalog ⟨none, false⟩ ⟨demoDisk, [], []⟩).1 ≠
      .ok none := by
  obtain ⟨i, newest⟩ := exists_newest_demo
  have at_ : i = ⟨1685694977, 0, 0⟩ := Except.ok.inj (newest.instant.symm.trans instant_demoRelease)
  -- the only release that is listed before another one came out later than it
  have apart : ∀ (dir : String) (r : Release) (j : Instant),
      demoWorkspace.Newest demoCatalog demoDisk dir r j → ∀ r' : Release,
      demoCatalog.ListedBefore r' r → r'.isOf none → ∀ k, r'.instant = .ok k → ¬ j.Together k := by
    intro dir r j newest' r' before _ k at_' together
    cases before.eq_of_length rfl
    cases newest'.instant.symm.trans instant_demoRelease
    cases at_'.symm.trans instant_demoSuccessor
    exact together.1 (by decide)
  refine (update_keepsUp demoSurroundings demoWorkspace ⟨none, false⟩ isTree_demoDisk (by decide)
    newestFirst_demoCatalog newest ?_ (.inr apart)).1
  refine ⟨demoSuccessor, .head _, rfl, _, instant_demoSuccessor, ?_⟩
  rw [at_]
  decide

end Workspace
end Patchwork

namespace Patchwork.Workspace
open Path Patchwork.Action
variable {w : Workspace} {c : Catalog} {policy : UpdatePolicy} {m : Migration} {s : Surroundings}
  {world world' : World} {r : Release} {i : Instant}

/-- **A record stands for a move that was chosen and done.** -/
theorem moved_of_update (tree : world.disk.IsTree)
    (h : w.update s c policy world = (.ok (some m), world')) :
    ∃ r i profile, w.Readable world.disk ∧ w.Chosen c policy world.disk m r i ∧
      m.Admits w world.disk profile ∧ m.Reachable w world.disk ∧
      m.Moved w profile (Migration.IsIgnoreFile w world.disk) world.disk world'.disk := by
  rcases update_cases s w c policy tree with ⟨-, none⟩ | ⟨m', r, i, readable, chosen, ran⟩
  · exact absurd (by rw [h]) (none m)
  rw [ran] at h
  rcases m'.run_cases s w tree with ⟨-, e, refused⟩ | ⟨profile, admits, done | stopped⟩
  · rw [refused] at h
    cases h
  · obtain ⟨reachable, d, moved, -, ran'⟩ := done
    obtain ⟨answer, rfl⟩ := Prod.mk.inj h
    obtain rfl : m' = m := by
      rcases result : (m'.run s w world).1 with e | _ <;> rw [result] at answer <;> cases answer
      rfl
    rw [ran']
    exact ⟨r, i, profile, readable, chosen, admits, reachable, moved⟩
  · obtain ⟨-, step, reason, d, -, ran'⟩ := stopped
    rw [ran'] at h
    cases h

/-- A move leaves the other version directories as they are. -/
theorem at?_other_of_moved {profile : Profile} {d d' : Disk}
    (moved : m.Moved w profile (Migration.IsIgnoreFile w d) d d') {name : String}
    (out : name ≠ m.origin) (out' : name ≠ m.target) (names : List String) :
    d'.at? (w.versions.place d.here ++ name :: names) =
      d.at? (w.versions.place d.here ++ name :: names) := by
  refine moved.others _ (Migration.not_prefix_of_ne out.symm _)
    (Migration.not_prefix_of_ne out'.symm _) ?_
  rintro ⟨-, same⟩
  exact Migration.not_prefix_ignoreFile w d.here (name :: names) (same ▸ List.prefix_rfl)

/-- **After a chosen move its target is the newest**, if the profile that was written can be read: it is
what the next update would move, and all others that are known came out earlier. -/
theorem newest_of_moved {profile : Profile} {d : Disk} (tree : d.IsTree)
    (distinct : (c.releases.map Release.id).Nodup) (readable : w.Readable d)
    (chosen : w.Chosen c policy d m r i) (admits : m.Admits w d profile)
    (reachable : m.Reachable w d)
    (moved : m.Moved w profile (Migration.IsIgnoreFile w d) d world'.disk) (outside : w.Outside d)
    (written : ∃ q, w.Reads world'.disk m.target q) :
    (∃ ts, w.tracked world' = (.ok ts, world') ∧ newestTracked w c ts = .ok (r, m.target)) ∧
      ∀ t j, w.Follows c world'.disk t j → t.dir ≠ m.target → j.earlier i := by
  have isDir : d.isDir w.versions := by
    obtain ⟨t, j, -, follows, -⟩ := chosen.newest
    exact follows.isDir
  have isDir' := isDir_versions_of_moved moved isDir outside
  have target := isName_of_isPlainName admits.target
  have parses : ∃ q, Profile.parse (profile.follow m.target).render = .ok q := by
    obtain ⟨q, read⟩ := written
    exact ⟨q, (reads_target_iff moved isDir' target reachable.profile).mp read⟩
  have readable' := readable_moved moved isDir' target reachable.profile tree isDir readable parses
  have tracks : ∀ {t}, w.Tracks world'.disk t → t.dir ≠ m.target → w.Tracks d t := by
    intro t tracks out
    rcases (tracks_moved_iff moved isDir' target reachable.profile tree isDir).mp tracks with
      ⟨same, -⟩ | ⟨-, -, before⟩
    · exact absurd same out
    · exact before
  have at_target : ∀ {t}, w.Tracks world'.disk t → t.dir = m.target → t.version = r.id := by
    rintro t ⟨-, q, read, version⟩ same
    obtain ⟨text, -, parsed⟩ := admits.profile
    rw [same, reads_target_iff moved isDir' target reachable.profile] at read
    rw [← version, Profile.version_of_parse_follow parsed read, chosen.target]
  have listed : w.Tracks world'.disk ⟨m.target, r.id⟩ := by
    have follows := follows_target chosen distinct admits moved isDir' reachable.profile readable'
    rw [chosen.target]
    exact follows.1
  have known : c.release? r.id = some r := Catalog.release?_id distinct chosen.listed
  have later : ∀ t j, w.Follows c world'.disk t j → t.dir ≠ m.target → j.earlier i :=
    fun t j ⟨tracked, out⟩ apart => chosen.later t j ⟨tracks tracked apart, out⟩
  refine ⟨?_, later⟩
  have listing := w.ends_tracked moved.tree
  rcases ran : w.tracked world' with ⟨e | ts, world''⟩
  · obtain ⟨-, unreadable⟩ := listing.error ran
    exact absurd readable' unreadable
  obtain ⟨rfl, -, tracked⟩ := listing.ok ran
  refine ⟨ts, rfl, newestTracked_eq_ok ((tracked _).mpr listed) known chosen.instant ?_ ?_⟩
  · intro t ht apart r' known'
    obtain ⟨j, instant⟩ := chosen.known t (tracks ((tracked t).mp ht) apart) r' known'
    exact ⟨j, instant, later t j ⟨(tracked t).mp ht, r', known', instant⟩ apart⟩
  · exact fun t ht same => at_target ((tracked t).mp ht) same

/-- **Updates make progress.**  A record stands for a move from a directory that followed a newest
release to a release of the kind that is listed and came out later than all that are known.  The other
version directories stay as they are, and if the profile that was written can be read, the target is
the newest one afterwards.  Over a sequence of updates, whatever comes of each, the records stand for
ever later releases, so that there are no more of them than releases are listed. -/
theorem update_progress (w : Workspace) (distinct : (c.releases.map Release.id).Nodup)
    (tree : world.disk.IsTree) :
    (∀ s policy m world', w.update s c policy world = (.ok (some m), world') →
      ∃ r i, w.Chosen c policy world.disk m r i ∧
        (∀ name, name ≠ m.origin → name ≠ m.target → ∀ names,
          world'.disk.at? (w.versions.place world.disk.here ++ name :: names) =
            world.disk.at? (w.versions.place world.disk.here ++ name :: names)) ∧
        (w.Outside world.disk → (∃ q, w.Reads world'.disk m.target q) →
          (∃ ts, w.tracked world' = (.ok ts, world') ∧
            newestTracked w c ts = .ok (r, m.target)) ∧
          ∀ t j, w.Follows c world'.disk t j → t.dir ≠ m.target → j.earlier i)) ∧
    ∀ runs : List (Surroundings × UpdatePolicy),
      (∀ m ∈ (w.updates c runs world).1, ∃ i, c.CameOut m.target i ∧
        ∀ j, w.Reaches c world.disk j → j.earlier i) ∧
      ((w.updates c runs world).1.Pairwise fun m m' => c.Before m.target m'.target) ∧
      (w.updates c runs world).1.length ≤ c.releases.length := by
  constructor
  · intro s policy m world' ran
    obtain ⟨r, i, profile, readable, chosen, admits, reachable, moved⟩ := moved_of_update tree ran
    exact ⟨r, i, chosen, fun name out out' names => at?_other_of_moved moved out out' names,
      fun outside written =>
        newest_of_moved tree distinct readable chosen admits reachable moved outside written⟩
  · intro runs
    obtain ⟨later, ordered⟩ := pairwise_updates distinct runs tree
    refine ⟨later, ordered, ?_⟩
    have one : ((w.updates c runs world).1.map Migration.target).Pairwise c.Before :=
      List.pairwise_map.mpr ordered
    have fewer := Catalog.length_le_of_pairwise_before one fun id hid => by
      obtain ⟨m, hm, rfl⟩ := List.mem_map.mp hid
      obtain ⟨i, out, -⟩ := later m hm
      exact ⟨i, out⟩
    rwa [List.length_map] at fewer

/-! ## The small catalog -/

open Migration

/-- The world that the small workspace stands in. -/
def demoWorld : World := ⟨demoDisk, [], []⟩

/-- In the small workspace an update moves the one directory, and what it moved is the newest. -/
theorem update_progress_demo :
    ∃ world', demoWorkspace.update demoSurroundings demoCatalog ⟨none, false⟩ demoWorld =
        (.ok (some demo), world') ∧
      ∃ ts, demoWorkspace.tracked world' = (.ok ts, world') ∧
        newestTracked demoWorkspace demoCatalog ts = .ok (demoSuccessor, demo.target) := by
  obtain ⟨answer, world', ran⟩ : ∃ answer world', demoWorkspace.update demoSurroundings demoCatalog
      ⟨none, false⟩ demoWorld = (answer, world') := ⟨_, _, rfl⟩
  have moved : (demoWorkspace.update demoSurroundings demoCatalog ⟨none, false⟩ demoWorld).1.toOption =
      some (some demo) := by decide +kernel
  have written : ((demoWorkspace.update demoSurroundings demoCatalog ⟨none, false⟩
      demoWorld).2.disk.readText (Profile.fileIn (demoWorkspace.versionDir demo.target))).toOption =
      some "minecraftVersion = \"1.20.1\"\n" := by decide +kernel
  rw [ran] at moved written
  obtain rfl : answer = .ok (some demo) := eq_ok_of_toOption moved
  have reads : (Profile.parse "minecraftVersion = \"1.20.1\"\n").toOption.isSome := by decide +kernel
  obtain ⟨q, parsed⟩ := Option.isSome_iff_exists.mp reads
  have distinct : (demoCatalog.releases.map Release.id).Nodup := by decide
  have tree : demoWorld.disk.IsTree := isTree_demoDisk
  obtain ⟨r, i, chosen, -, newest⟩ := (update_progress demoWorkspace distinct tree).1
    demoSurroundings ⟨none, false⟩ demo world' ran
  obtain ⟨⟨ts, listing, picked⟩, -⟩ := newest (outside_of_straight (by decide +kernel) _)
    ⟨q, _, eq_ok_of_toOption written, eq_ok_of_toOption parsed⟩
  obtain rfl : r = demoSuccessor := by
    have known := Catalog.release?_id distinct chosen.listed
    rw [chosen.target] at known
    exact Option.some.inj known.symm
  exact ⟨world', ran, ts, listing, picked⟩

end Patchwork.Workspace
