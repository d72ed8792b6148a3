import Patchwork.Proofs.Build.Stages
import Patchwork.Proofs.Patch.Refined

/-! What a failed setup spares.  Until the patches are applied, the stages of a setup write below
the build directory and the directories of the cache, with names that lead inward
(`SetupRequest.sameBut_prepare`); and applying the patches reads all that it needs before it
changes anything, so that it fails with the disk as it was unless the file system refuses a change
(`PatchApplication.ends_run`).  Together they are `SetupRequest.run_spares`. -/

namespace Patchwork
open Patchwork.Action

/-! ## Refusals of changes -/

/-- Whether a step changes the disk, or looks at what is about to be removed. -/
def Step.IsChange : Step → Prop
  | .writing _ | .creating _ | .removing _ | .inspecting _ | .copying .. => True
  | _ => False

/-- **Whether the file system refused a change.** -/
def Failure.RefusesChange (e : Failure) : Prop :=
  ∃ step fault, e = .io step fault ∧ step.IsChange

namespace Action
variable {α β : Type}

/-- An action that fails only where a change is refused. -/
def Changes (action : Action α) : Prop :=
  ∀ w e w', action w = (.error e, w') → e.RefusesChange

namespace Changes

theorem bind {action : Action α} {f : α → Action β} (first : action.Changes)
    (next : ∀ a, (f a).Changes) : (action >>= f).Changes := by
  intro w e w' ran
  rw [bind_apply] at ran
  rcases step : action w with ⟨e' | a, w₁⟩ <;> rw [step] at ran
  · cases ran
    exact first _ _ _ step
  · exact next a _ _ _ ran

theorem pure (a : α) : Changes (Pure.pure a : Action α) := fun _ _ _ ran => nomatch ran

theorem forM {f : α → Action PUnit} (each : ∀ x, (f x).Changes) (xs : List α) :
    Changes (xs.forM f) := by
  induction xs with
  | nil => exact .pure _
  | cons x xs ih => exact .bind (each x) fun _ => ih

theorem change (step : Step) (changes : step.IsChange) (act : Disk → Except IoError Disk) :
    (Action.change step act).Changes := by
  intro w e w' ran
  rw [change_apply] at ran
  split at ran <;> cases ran
  exact ⟨_, _, rfl, changes⟩

theorem changeBy (step : Step) (changes : step.IsChange)
    (act : Disk → Except IoError Unit × Disk) : (Action.changeBy step act).Changes := by
  intro w e w' ran
  rw [changeBy_apply] at ran
  rcases known : (act w.disk).1 with fault | _ <;> rw [known] at ran <;> cases ran
  exact ⟨_, _, rfl, changes⟩

theorem makeDirs (p : Path) : (Action.makeDirs p).Changes := changeBy (.creating _) trivial _

theorem makeParent (p : Path) : (Action.makeParent p).Changes := by
  unfold Action.makeParent
  split
  · exact makeDirs _
  · exact .pure _

theorem remove (p : Path) : (Action.remove p).Changes := by
  refine .bind (fun _ _ _ ran => nomatch ran) fun d => ?_
  split
  · exact .pure _
  · intro w e w' ran
    cases ran
    exact ⟨_, _, rfl, trivial⟩
  · exact changeBy (.removing _) trivial _

theorem clear (p : Path) : (Action.clear p).Changes := .bind (remove p) fun _ => makeParent p

end Changes

/-- A change that fails is refused. -/
theorem Changes.ends {action : Action α} (changes : action.Changes) (w : World) :
    Ends action w (fun _ _ => True) fun e w' => w' = w ∨ e.RefusesChange :=
  ⟨fun _ => trivial, fun ran => .inr (changes _ _ _ ran)⟩

end Action

/-! ## Applying the patches -/

theorem Archive.changes_write (p : Path) (files : List (String × ByteArray)) :
    (Archive.write p files).Changes :=
  .bind (.clear p) fun _ => .change (.creating _) trivial _

namespace TreeHome

theorem changes_write (home : TreeHome) (files : FileMap) : (home.write files).Changes := by
  cases home with
  | folder p =>
    exact .bind (.clear p) fun _ => .bind (.makeDirs p) fun _ =>
      .forM (fun _ => .bind (.makeParent _) fun _ => .change (.writing _) trivial _) _
  | archive p => exact Archive.changes_write p _

end TreeHome

namespace PatchApplication

theorem ends_copyBaseline (baseline output : TreeHome) (w : World) :
    Ends (copyBaseline baseline output) w (fun _ _ => True)
      fun e w' => w' = w ∨ e.RefusesChange := by
  unfold copyBaseline
  split
  · have copying : ∀ {source target : Path}, Action.Changes
        (Action.ask (.copying source.text target.text) (·.read source)) := by
      intro source target w₁ e w' ran
      rw [ask_apply] at ran
      rcases known : w₁.disk.read source with fault | _ <;> rw [known] at ran <;> cases ran
      exact ⟨_, _, rfl, trivial⟩
    exact Changes.ends (.bind (.clear _) fun _ => .bind copying fun _ =>
      .change (.copying ..) trivial _) w
  · exact Asks.ends_bind (TreeHome.asks_read _) (fun _ _ => .inl rfl) fun files _ =>
      (TreeHome.changes_write _ files).ends w

/-- **Applying patches fails with the disk as it was**, or where the file system refuses a change. -/
theorem ends_run (r : PatchApplication) (w : World) :
    Ends r.run w (fun _ _ => True) fun e w' => w' = w ∨ e.RefusesChange := by
  have written : ∀ (reports : List PatchReport) (files : List (String × ByteArray)),
      Action.Changes do
        Archive.write r.rejects files
        return PatchSummary.of reports r.rejects :=
    fun _ files => .bind (Archive.changes_write _ files) fun _ => .pure _
  refine Asks.ends_bind (fun _ => rfl) (fun _ _ => .inl rfl) fun d _ => ?_
  dsimp only
  split
  · exact .throw_bind (.inl rfl)
  refine Asks.ends_bind (PatchSet.asks_load _) (fun _ _ => .inl rfl) fun set _ => ?_
  split
  · exact .bind (ends_copyBaseline _ _ w) fun _ w' _ =>
      ⟨fun _ => trivial, fun ran => .inr (written _ _ _ _ _ ran)⟩
  · refine Asks.ends_bind (TreeHome.asks_read _) (fun _ _ => .inl rfl) fun files _ => ?_
    exact Changes.ends (.bind (TreeHome.changes_write _ _) fun _ => written _ _) w

end PatchApplication

/-! ## The stages of a setup -/

/-- The directories of the cache that files are kept in. -/
def Settings.cacheDirs (s : Settings) : List Path :=
  [s.assetsDir, s.jsonsDir, s.toolsDir, s.librariesDir]

namespace SetupRequest
variable {s : Surroundings} {r : SetupRequest} {w w₁ w' : World} {here : Place}
  {plan : SetupPlan} {release : Release} {m : Manifest}

/-- Where a setup may leave what it likes: below the build directory, and in the cache. -/
def Scratch (r : SetupRequest) (here : Place) (place : Place) : Prop :=
  r.layout.work.place here <+: place ∨ ∃ dir ∈ r.settings.cacheDirs, dir.place here <+: place

/-- **Whether the names that a setup takes from elsewhere lead inward**: the release's id, the paths
of libraries and the tag of assets in its manifest, and the entries of a downloaded bundle. -/
structure PlainNames (r : SetupRequest) (w : World) : Prop where
  release : ∀ {plan release w₁}, r.choose w = (.ok (plan, release), w₁) → Path.Inward release.id
  library : ∀ {plan release m w₁}, r.consult w = (.ok (plan, release, m), w₁) →
    ∀ l ∈ m.libraryJars, Path.Inward l.path
  tag : ∀ {plan release m w₁}, r.consult w = (.ok (plan, release, m), w₁) →
    ∀ tag, m.assetTag? = some tag → Path.Inward tag
  bundle : ∀ {plan release m w₁ list w₂}, r.consult w = (.ok (plan, release, m), w₁) →
    (do r.downloadInputs plan m; r.openServer) w₁ = (.ok list, w₂) →
    ∀ names, (Archive.names (r.layout.download .server) Bundle.librariesDir w₂).1 = .ok names →
      ∀ path ∈ Bundle.libraryPaths names, Path.Inward path

theorem work_inside : r.layout.work.Inside here (r.Scratch here) := fun _ below => .inl below

theorem cache_inside {dir : Path} (listed : dir ∈ r.settings.cacheDirs) :
    dir.Inside here (r.Scratch here) := fun _ below => .inr ⟨dir, listed, below⟩

theorem releases_inside : r.releases.root.Inside here (r.Scratch here) :=
  cache_inside (List.mem_of_getElem? (show r.settings.cacheDirs[1]? = _ from rfl))

theorem within_choose : Within here (r.Scratch here) r.choose fun _ => True := by
  refine .bind (Profile.within_require _) fun _ _ => .bind (.ofOutcome _) fun _ _ => ?_
  refine .bind (ReleaseCache.within_catalog releases_inside _) fun _ _ => ?_
  exact .bind (.ofOutcome _) fun _ _ => .pure trivial

theorem sameBut_consult (names : r.PlainNames w) :
    w.disk.SameBut (r.Scratch w.disk.here) (r.consult w).2.disk := by
  unfold consult
  refine sameBut_bind (within_choose.sameBut rfl) fun (plan, release) w₁ chosen here₁ => ?_
  dsimp only
  have manifest : Within w.disk.here (r.Scratch w.disk.here) (r.releases.manifest release)
      fun _ => True := ReleaseCache.within_manifest releases_inside (names.release chosen)
  exact Within.sameBut (.bind manifest fun _ _ => .pure trivial) here₁

theorem isName_side (side : Side) (ending : String) (h : ending = ".jar" ∨ ending = "-mappings.txt") :
    Path.IsName (side.name ++ ending) := by
  rcases h with rfl | rfl <;> cases side <;> decide

theorem within_downloadInputs (plan : SetupPlan) (m : Manifest) :
    Within here (r.Scratch here) (r.downloadInputs plan m) fun _ => True := by
  have dir : (r.layout.work.join "download").Inside here (r.Scratch here) :=
    work_inside.join_name (by decide)
  unfold downloadInputs
  split
  · exact .throw _
  · have jar : (r.layout.download plan.side).Inside here (r.Scratch here) :=
      dir.join_name (isName_side _ _ (.inl rfl))
    have mappings : (r.layout.mappings plan.side).Inside here (r.Scratch here) :=
      dir.join_name (isName_side _ _ (.inr rfl))
    refine .bind (Batch.within_fetchBy _ ?_) fun _ _ => .pure trivial
    rw [List.forall_mem_cons, List.forall_mem_singleton]
    dsimp only [RemoteFile.download]
    exact ⟨jar, mappings⟩

theorem within_openServer : Within here (r.Scratch here) r.openServer fun _ => True := by
  have input : (r.layout.inputJar .server).Inside here (r.Scratch here) :=
    work_inside.join_name (isName_side _ _ (.inl rfl))
  have list : r.layout.librariesList.Inside here (r.Scratch here) :=
    work_inside.join_name (by decide)
  have libraries : r.layout.librariesDir.Inside here (r.Scratch here) :=
    work_inside.join_name (by decide)
  unfold openServer
  refine .bind (Bundle.within_extractServer _ input) fun _ _ => ?_
  refine .bind (Bundle.within_libraries _ list) fun _ _ => ?_
  exact .bind (.clear libraries) fun _ _ => .pure trivial

/-- The libraries of a bundle with plain names are put below the build directory. -/
theorem sameBut_unpackServer
    (plain : ∀ {list w₂}, r.openServer w = (.ok list, w₂) →
      ∀ names, (Archive.names (r.layout.download .server) Bundle.librariesDir w₂).1 = .ok names →
        ∀ path ∈ Bundle.libraryPaths names, Path.Inward path) :
    w.disk.SameBut (r.Scratch w.disk.here) (r.unpackServer w).2.disk := by
  have libraries : r.layout.librariesDir.Inside w.disk.here (r.Scratch w.disk.here) :=
    work_inside.join_name (by decide)
  unfold unpackServer
  refine sameBut_bind (within_openServer.sameBut rfl) fun list w₂ opened here₂ => ?_
  refine sameBut_bind ?_ fun files w₃ _ _ => .refl _ _
  have extracted := Bundle.sameBut_extractLibraries (r.layout.download .server)
    r.layout.librariesDir w₂
  refine extracted.mono fun place at_ => ?_
  rw [here₂] at at_
  rcases at_ with below | ⟨names, read, path, listed, -, below⟩
  · exact libraries place below
  · exact libraries.join (plain opened names read path listed) place below

theorem within_provideClient (inward : ∀ l ∈ m.libraryJars, Path.Inward l.path) :
    Within here (r.Scratch here) (r.provideClient m) fun _ => True := by
  have input : (r.layout.inputJar .client).Inside here (r.Scratch here) :=
    work_inside.join_name (isName_side _ _ (.inl rfl))
  have cache : r.settings.librariesDir.Inside here (r.Scratch here) :=
    cache_inside (List.mem_of_getElem? (show r.settings.cacheDirs[3]? = _ from rfl))
  refine .bind (.clear input) fun _ _ => .bind (.ask _ _) fun _ _ => ?_
  refine .bind (.change _ fun d d' hd made => ?_) fun _ _ => ?_
  · refine (Disk.sameBut_write made).mono fun place same => ?_
    rw [same, hd]
    exact input.self
  · refine .bind (Batch.within_ensure ?_) fun _ _ => .pure trivial
    intro download listed
    obtain ⟨l, named, rfl⟩ := List.mem_map.mp listed
    dsimp only [LibraryJar.download]
    exact cache.join (inward l named)

theorem within_provideTools (plan : SetupPlan) :
    Within here (r.Scratch here) (r.provideTools plan) fun _ => True := by
  have cache : r.settings.toolsDir.Inside here (r.Scratch here) :=
    cache_inside (List.mem_of_getElem? (show r.settings.cacheDirs[2]? = _ from rfl))
  have kept (jar : ToolJar) :
      (r.settings.toolsDir.join jar.fileName).Inside here (r.Scratch here) :=
    cache.join jar.inward_fileName
  refine .bind (Batch.within_ensure ?_) fun _ _ => .pure trivial
  rw [List.forall_mem_cons, List.forall_mem_singleton]
  dsimp only [ToolJar.download]
  exact ⟨kept plan.remapper.jar, kept plan.decompiler.jar⟩

theorem within_runTools (tools : s.Confined here (r.layout.work.place here <+: ·))
    (plan : SetupPlan) (classpath : List Path) :
    Within here (r.Scratch here) (runTools s r plan classpath) fun _ => True := by
  have inside : r.layout.work.Inside here (r.layout.work.place here <+: ·) := fun _ below => below
  have remapped := ToolRun.within_run tools (r := r.remapperRun plan classpath)
    (inside.join_name (by decide)) r.settings.java
  have decompiled := ToolRun.within_run tools (r := r.decompilerRun plan classpath)
    (inside.join_name (by decide)) r.settings.java
  refine Within.mono ?_ fun place below => .inl below
  exact .bind remapped fun _ _ => .bind decompiled fun _ _ => .pure trivial

theorem within_provideAssets (plan : SetupPlan) (inward : Path.Inward release.id)
    (inward' : ∀ tag, m.assetTag? = some tag → Path.Inward tag) :
    Within here (r.Scratch here) (r.provideAssets plan release m) fun _ => True := by
  have store : r.settings.assetsDir.Inside here (r.Scratch here) :=
    cache_inside (List.mem_of_getElem? (show r.settings.cacheDirs[0]? = _ from rfl))
  have info : r.layout.assetsInfo.Inside here (r.Scratch here) :=
    work_inside.join_name (by decide)
  have id : Path.Inward (m.assetTag?.getD release.id) := by
    cases named : m.assetTag? with
    | none => exact inward
    | some tag => exact inward' tag named
  unfold provideAssets
  split
  · refine .bind (ReleaseCache.within_assetIndex releases_inside id m) fun _ _ => ?_
    exact .bind (AssetsRequest.within_run store info inward') fun _ _ => .pure trivial
  · exact .pure trivial

/-- **Until the patches are applied, a setup writes to its scratch places only.** -/
theorem sameBut_prepare (names : r.PlainNames w)
    (tools : s.Confined w.disk.here (r.layout.work.place w.disk.here <+: ·))
    (consulted : r.consult w = (.ok (plan, release, m), w₁)) (here₁ : w₁.disk.here = w.disk.here) :
    w₁.disk.SameBut (r.Scratch w.disk.here) (prepare s r plan release m w₁).2.disk := by
  unfold prepare
  refine sameBut_bind ((within_downloadInputs plan m).sameBut here₁) fun _ w₂ fetched here₂ => ?_
  have here₂ : w₂.disk.here = w.disk.here := here₂.trans here₁
  have provided : w₂.disk.SameBut (r.Scratch w.disk.here) (r.provideInput plan.side m w₂).2.disk := by
    unfold provideInput
    cases plan.side with
    | server =>
      dsimp only
      rw [← here₂]
      refine sameBut_unpackServer fun {list w₃} opened => ?_
      exact names.bundle consulted ((bind_of_ok fetched _).trans opened)
    | client =>
      dsimp only
      exact (within_provideClient (names.library consulted)).sameBut here₂
  refine sameBut_bind provided fun libraries w₃ _ here₃ => ?_
  obtain ⟨chosen, w', chose, read⟩ := bind_ran_iff.mp consulted
  have same : chosen = (plan, release) := by
    obtain ⟨m', w'', -, ended⟩ := bind_ran_iff.mp read
    cases ended
    rfl
  have inward := names.release (same ▸ chose)
  refine Within.sameBut ?_ (here₃.trans here₂)
  exact .bind (within_provideTools plan) fun _ _ => .bind (within_runTools tools plan _) fun _ _ =>
    .bind (within_provideAssets plan inward (names.tag consulted)) fun _ _ => .pure trivial

/-! ## What is spared -/

/-- Whether a version directory has some name, and the cache lies apart from all versions. -/
structure InVersions (r : SetupRequest) (here : Place) (versions : Path) (name : String) :
    Prop where
  dir : r.dir = versions.join name
  named : Path.IsName name
  apart : ∀ dir ∈ r.settings.cacheDirs,
    ¬ dir.place here <+: versions.place here ∧ ¬ versions.place here <+: dir.place here

/-- The developer's own parts of a version directory: the sources, the patches and the profile. -/
def ownParts (r : SetupRequest) : List Path :=
  [r.layout.workingTree, r.layout.patches, Profile.fileIn r.dir]

theorem place_work : r.layout.work.place here = r.dir.place here ++ ["build", "remold"] := by
  rw [layout, BuildLayout.work, Path.place_join_of_isName (by decide),
    Path.place_join_of_isName (by decide), List.append_assoc]
  rfl

/-- Each part begins otherwise than the build directory does. -/
theorem exists_place_ownPart {p : Path} (own : p ∈ r.ownParts) :
    ∃ first rest, first ≠ "build" ∧ p.place here = r.dir.place here ++ first :: rest := by
  rw [ownParts, List.mem_cons, List.mem_cons, List.mem_singleton] at own
  rcases own with rfl | rfl | rfl
  · refine ⟨"src", ["main", "java"], by decide, ?_⟩
    rw [layout, BuildLayout.workingTree, Path.place_join_of_isName (by decide),
      Path.place_join_of_isName (by decide), Path.place_join_of_isName (by decide),
      List.append_assoc, List.append_assoc]
    rfl
  · exact ⟨"patches", [], by decide, Path.place_join_of_isName (by decide) _ _⟩
  · exact ⟨"remold.toml", [], by decide, Path.place_join_of_isName (by decide) _ _⟩

variable {versions : Path} {name : String}

/-- **Among the versions, only what is below the build directory is scratch.** -/
theorem InVersions.not_scratch (inv : r.InVersions here versions name) {place : Place}
    (below : versions.place here <+: place) (apart : ¬ r.layout.work.place here <+: place) :
    ¬ r.Scratch here place := by
  rintro (work | ⟨dir, listed, kept⟩)
  · exact apart work
  · rcases List.prefix_or_prefix_of_prefix below kept with above | above
    · exact (inv.apart dir listed).2 above
    · exact (inv.apart dir listed).1 above

/-- **A setup that fails changes scratch places only**, unless the file system refused a change while
the patches were applied. -/
theorem sameBut_run (names : r.PlainNames w)
    (tools : s.Confined w.disk.here (r.layout.work.place w.disk.here <+: ·)) {e : Failure}
    (ran : r.run s w = (.error e, w')) (sound : ¬ e.RefusesChange) :
    w.disk.SameBut (r.Scratch w.disk.here) w'.disk := by
  have consulting := sameBut_consult names
  unfold run at ran
  rcases consulted : r.consult w with ⟨e' | ⟨plan, release, m⟩, w₁⟩ <;> rw [consulted] at consulting
  · rw [bind_of_error consulted] at ran
    cases ran
    exact consulting
  have preparing := sameBut_prepare names tools consulted consulting.here
  rw [bind_of_ok consulted] at ran
  dsimp only at ran
  rcases prepared : prepare s r plan release m w₁ with ⟨e' | libraries, w₂⟩ <;>
    rw [prepared] at preparing
  · rw [bind_of_error prepared] at ran
    cases ran
    exact consulting.trans preparing
  rw [bind_of_ok prepared] at ran
  rcases patched : r.applyPatches w₂ with ⟨e' | patches, w₃⟩
  · rw [bind_of_error patched] at ran
    cases ran
    rcases (PatchApplication.ends_run _ w₂).error patched with rfl | refused
    · exact consulting.trans preparing
    · exact absurd refused sound
  · rw [bind_of_ok patched] at ran
    cases ran

/-- The profile of a version directory. -/
def demoProfile : String :=
  "minecraftVersion = \"1.20\"\n[remapper]\ncoordinate = \"a:r:1\"\nurl = \"file:///r.jar\"\n" ++
  "sha256 = \"00\"\n[decompiler]\ncoordinate = \"a:d:1\"\nurl = \"file:///d.jar\"\nsha256 = \"00\"\n"

/-- The release, whose manifest has another digest. -/
def demoRelease : Release := ⟨"1.20", "release", "", "", "file:///1.20.json", "00"⟩

/-- A disk with the version directory, the catalog and the manifest. -/
def demoWorld : World where
  disk := (((((Disk.empty.put ["ws"] .dir).put ["ws", "versions"] .dir).put
    ["ws", "versions", "1.20"] .dir).put ["ws", "versions", "1.20", "remold.toml"]
      (.file demoProfile.toUTF8)).put ["catalog.json"]
        (.file (Catalog.toJson ⟨∅, [demoRelease]⟩).compact.toUTF8)).put ["1.20.json"]
          (.file "damaged".toUTF8)
  gitCalls := []
  launches := []

/-- A setup of the version. -/
def demo : SetupRequest where
  dir := ⟨"/ws/versions/1.20"⟩
  settings := {
    cache := ⟨"/cache"⟩
    cacheSource := "REMOLD_CACHE_PATH"
    catalogUrl := "file:///catalog.json"
    assetsUrl := Settings.usualAssetsUrl
    jobs := 1
    keepProxies := false
    java := "java" }
  environment := ⟨[]⟩
  tolerance := .shifted
  assets := .auto
  strict := false

/-- Surroundings whose tools do nothing. -/
def demoSurroundings : Surroundings where
  isRepository _ := true
  git _ := .ok ()
  run _ _ d := (.ok ⟨0, 0⟩, d)
  scratch := ⟨"/tmp"⟩

/-- Whether an outcome is a digest that differs. -/
def isMismatch {α : Type} : Outcome α → Bool
  | .error (.mismatch ..) => true
  | _ => false

/-- The release of the world is chosen, and its bundle is refused. -/
theorem refused_demo : (demo.choose demoWorld).1.toOption.map (fun found => (found.1.side, found.2)) =
    some (.server, demoRelease) ∧ isMismatch (demo.consult demoWorld).1 = true := by
  -- in one evaluation, because the choice is most of it
  decide +kernel

theorem plainNames_demo : demo.PlainNames demoWorld := by
  have refused : ∀ {found w₁}, demo.consult demoWorld ≠ (.ok found, w₁) := by
    intro found w₁ consulted
    have mismatch := refused_demo.2
    rw [consulted] at mismatch
    cases mismatch
  refine ⟨fun chosen => ?_, fun consulted => absurd consulted refused,
    fun consulted => absurd consulted refused, fun consulted => absurd consulted refused⟩
  have listed := refused_demo.1
  rw [chosen] at listed
  obtain ⟨-, rfl⟩ := Prod.mk.inj (Option.some.inj listed)
  exact Path.inward_of_slashless (by decide) (by decide)

end SetupRequest
end Patchwork
