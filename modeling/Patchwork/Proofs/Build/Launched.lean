import Patchwork.Command.Basic
import Patchwork.Proofs.Build.Provided
import Patchwork.Proofs.Build.Tools
import Patchwork.Proofs.Workspace.Moved

/-! What a setup starts.  No stage but the tools starts a program (`Action.Silent`), so all programs that a
setup starts are runs of its two tools, made of its plan and of the class path that it provided
(`SetupRequest.ends_run`).  What such a run names is put together from two directories, the one of the
version and the cache, and joining keeps a path absolute and makes none so.  So the paths that a run names
are absolute just where these two are (`SetupRequest.absolute_iff`).  The directory of the version is as
the root of the workspace is given, and the cache as the environment gives it, which is made absolute for
one of the variables only (`Settings.isAbsolute_cache_iff`). -/

namespace Patchwork
open Patchwork.Action

/-! ## Actions that start no program -/

namespace Action
variable {α β : Type} {action : Action α} {p : Path}

/-- **An action that starts no program.** -/
def Silent (action : Action α) : Prop := ∀ w, (action w).2.launches = w.launches

theorem Asks.silent (asks : action.Asks) : Silent action := fun w => by rw [asks w]

namespace Silent

theorem bind {f : α → Action β} (first : Silent action) (next : ∀ a, Silent (f a)) :
    Silent (action >>= f) := by
  intro w
  have first := first w
  rw [bind_apply]
  rcases ran : action w with ⟨e | a, w'⟩ <;> rw [ran] at first
  · exact first
  · exact (next a w').trans first

theorem tryCatch {f : Failure → Action α} (first : Silent action) (next : ∀ e, Silent (f e)) :
    Silent (tryCatch action f) := by
  intro w
  have first := first w
  rw [tryCatch_apply]
  rcases ran : action w with ⟨e | a, w'⟩ <;> rw [ran] at first
  · exact (next e w').trans first
  · exact first

theorem pure (a : α) : Silent (Pure.pure a : Action α) := (Asks.pure a).silent

theorem throw (e : Failure) : Silent (MonadExcept.throw e : Action α) := (Asks.throw e).silent

/-- Nothing follows a failure. -/
theorem throw_bind (e : Failure) (f : α → Action β) : Silent (MonadExcept.throw e >>= f) := fun _ => rfl

theorem ask (step : Step) (question : Disk → Except IoError α) : Silent (Action.ask step question) :=
  (Asks.ask step question).silent

theorem ofOutcome (outcome : Outcome α) : Silent (Action.ofOutcome outcome) :=
  (Asks.ofOutcome outcome).silent

/-- What is done with the disk as it is. -/
theorem bind_disk {f : Disk → Action β} (next : ∀ d, Silent (f d)) : Silent (disk >>= f) :=
  .bind (fun _ => rfl) next

theorem forM {f : α → Action PUnit} (xs : List α) (each : ∀ x, Silent (f x)) : Silent (xs.forM f) := by
  induction xs with
  | nil => exact .pure _
  | cons x xs ih => exact .bind (each x) fun _ => ih

theorem mapM {f : α → Action β} (xs : List α) (each : ∀ x, Silent (f x)) : Silent (xs.mapM f) := by
  induction xs with
  | nil => exact .pure _
  | cons x xs ih =>
    rw [List.mapM_cons]
    exact .bind (each x) fun _ => .bind ih fun _ => .pure _

theorem foldlM {f : β → α → Action β} (xs : List α) (each : ∀ b x, Silent (f b x)) (b : β) :
    Silent (xs.foldlM f b) := by
  induction xs generalizing b with
  | nil => exact .pure _
  | cons x xs ih =>
    rw [List.foldlM_cons]
    exact .bind (each b x) fun b => ih b

/-! ### Changes to the disk -/

theorem change (step : Step) (act : Disk → Except IoError Disk) : Silent (Action.change step act) :=
  .bind (.ask step act) fun _ _ => rfl

theorem changeBy (step : Step) (act : Disk → Except IoError Unit × Disk) :
    Silent (Action.changeBy step act) := fun w => by rw [changeBy_apply]

theorem makeParent (p : Path) : Silent (Action.makeParent p) := by
  unfold Action.makeParent
  split
  · exact .changeBy _ _
  · exact .pure _

theorem remove (p : Path) : Silent (Action.remove p) := by
  refine .bind_disk fun d => ?_
  split
  · exact .pure _
  · exact .throw _
  · exact .changeBy _ _

theorem discard (p : Path) : Silent (Action.discard p) := .tryCatch (.remove p) fun _ => .pure _

theorem clear (p : Path) : Silent (Action.clear p) := .bind (.remove p) fun _ => .makeParent p

theorem writeFile (p : Path) (bytes : ByteArray) : Silent (Action.writeFile p bytes) := .change _ _

end Silent
end Action

/-! ## Stages of a setup -/

namespace Download
variable (r : Download)

theorem silent_install (bytes : ByteArray) : (r.install bytes).Silent := by
  refine .bind_disk fun d => ?_
  split
  · exact fun _ => rfl
  · exact .throw _

theorem silent_obtain : r.obtain.Silent := Asks.silent (Batch.snd_obtain r)

theorem silent_fetch : r.fetch.Silent :=
  .tryCatch (.bind (.clear _) fun _ => .bind r.silent_obtain fun got =>
    .bind (r.silent_install got.1) fun _ => .pure _) fun e => .bind (.discard _) fun _ => .throw e

theorem silent_reusable? : r.reusable?.Silent := by
  unfold reusable?
  split
  · exact .pure _
  · refine .bind (fun _ => rfl) fun isFile => ?_
    split
    · refine .bind (.bind (.ask _ _) fun _ => .ask _ _) fun bytes => ?_
      split
      · exact .pure _
      · exact .pure _
    · exact .pure _

theorem silent_ensure : r.ensure.Silent := by
  refine .bind r.silent_reusable? fun kept => ?_
  split
  · exact .pure _
  · exact r.silent_fetch

end Download

namespace Batch

theorem silent_nextStage (m : BatchMember) : (nextStage m).Silent := by
  unfold nextStage
  split
  · exact .bind (.clear _) fun _ => .pure _
  · exact .bind m.download.silent_obtain fun _ => .pure _
  · exact .bind (m.download.silent_install _) fun _ => .pure _
  · exact .pure _

theorem silent_turn (b : Batch) (index : Nat) : (b.turn index).Silent := by
  unfold turn
  split
  · exact .pure _
  · exact .tryCatch (.bind (silent_nextStage _) fun _ => .pure _) fun _ => .pure _

theorem silent_fetchBy (schedule : List Nat) (rs : List Download) : (fetchBy schedule rs).Silent := by
  refine .bind (.foldlM _ silent_turn _) fun b => ?_
  split
  · exact .pure _
  · exact .bind (.forM _ fun r => .discard _) fun _ => .throw _

theorem silent_sortOut (rs : List Download) : (sortOut rs).Silent := by
  induction rs with
  | nil => exact .pure _
  | cons r rs ih =>
    refine .bind r.silent_reusable? fun kept => ?_
    split
    · exact .bind ih fun _ => .pure _
    · exact .bind ih fun _ => .pure _

theorem silent_ensure (rs : List Download) : (ensure rs).Silent :=
  .bind (silent_sortOut rs) fun _ => .bind (silent_fetchBy _ _) fun _ => .pure _

end Batch

namespace ReleaseCache
variable (c : ReleaseCache)

theorem silent_catalog (url : String) : (c.catalog url).Silent :=
  .bind (Download.silent_fetch _) fun _ => .bind (.ask _ _) fun _ => .ofOutcome _

theorem silent_manifest (r : Release) : (c.manifest r).Silent :=
  .bind (Download.silent_ensure _) fun _ => .bind (.ask _ _) fun _ => .ofOutcome _

theorem silent_assetIndex (id : String) (m : Manifest) : (c.assetIndex id m).Silent :=
  .bind (Download.silent_ensure _) fun _ => .ask _ _

end ReleaseCache

namespace Archive

theorem silent_opened (p : Path) : (opened p).Silent := (asks_opened p).silent

theorem silent_extract (p : Path) (name : String) (target : Path) : (extract p name target).Silent :=
  .bind (silent_opened p) fun _ => .bind (.ofOutcome _) fun _ => .bind (.clear _) fun _ =>
    .bind (.change _ _) fun _ => .bind (.ofOutcome _) fun _ => .pure _

theorem silent_write (p : Path) (files : List (String × ByteArray)) : (write p files).Silent :=
  .bind (.clear p) fun _ => .change _ _

end Archive

theorem TreeHome.silent_write (home : TreeHome) (files : FileMap) : (home.write files).Silent := by
  cases home with
  | folder p =>
    refine .bind (.clear p) fun _ => .bind (.changeBy _ _) fun _ => .forM _ fun file => ?_
    exact .bind (.makeParent _) fun _ => .writeFile _ _
  | archive p => exact Archive.silent_write p _

namespace Bundle

theorem silent_readList (bundle : Path) (name : String) : (readList bundle name).Silent := by
  have member : (Archive.readMember bundle name).Silent := by
    refine .bind (Archive.silent_opened bundle) fun _ => ?_
    dsimp only
    split
    · exact .pure _
    · exact .bind (.ofOutcome _) fun _ => .pure _
  refine .bind member fun _ => ?_
  split
  · exact .throw _
  · split
    · exact .pure _
    · exact .throw _

theorem silent_extractServer (bundle target : Path) : (extractServer bundle target).Silent :=
  .bind (silent_readList _ _) fun _ => .bind (.ofOutcome _) fun _ => Archive.silent_extract _ _ _

theorem silent_libraries (bundle file : Path) : (libraries bundle file).Silent := by
  have kept : ∀ digest, (kept? file digest).Silent := by
    refine fun digest => .bind (fun _ => rfl) fun isFile => ?_
    split
    · exact .bind (.ask _ _) fun _ => .pure _
    · exact .pure _
  have listed : ∀ digest, (list bundle digest).Silent := fun digest =>
    .bind (silent_readList _ _) fun _ => .bind (.ofOutcome _) fun _ => .pure _
  refine .bind (.bind (.bind (.ask _ _) fun _ => .ask _ _) fun _ => .pure _) fun digest =>
    .bind (kept digest) fun found => ?_
  split
  · exact .pure _
  · exact .bind (listed digest) fun _ => .bind (.bind (.makeParent _) fun _ => .writeFile _ _) fun _ =>
      .pure _

theorem silent_extractLibraries (bundle target : Path) : (extractLibraries bundle target).Silent :=
  .bind (.bind (Archive.silent_opened bundle) fun _ => .pure _) fun names =>
    .mapM names fun _ => .bind (Archive.silent_extract _ _ _) fun _ => .pure _

end Bundle

theorem AssetsRequest.silent_run (r : AssetsRequest) : r.run.Silent := by
  have filled : ∀ tag, (r.fillStore tag).Silent := by
    refine fun tag => .bind (.bind (.bind (.ofOutcome _) fun _ => ?_) fun got => ?_) fun _ => .pure _
    · exact .bind (.bind (.makeParent _) fun _ => .writeFile _ _) fun _ => .bind_disk fun _ =>
        .bind (.ofOutcome _) fun _ => .pure _
    · exact .bind (Batch.silent_fetchBy _ _) fun _ => .pure _
  have provided : ∀ tag, (r.provide tag).Silent := by
    intro tag
    unfold provide
    split
    · exact .pure _
    · exact filled tag
    · refine .bind_disk fun d => ?_
      split
      · exact .pure _
      · exact filled tag
  unfold run
  split
  · exact .throw _
  · exact .bind (provided _) fun _ => .bind (.makeParent _) fun _ => .bind (.writeFile _ _) fun _ => .pure _

theorem PatchSet.silent_load (dir : Path) : (load dir).Silent := by
  refine .bind (fun _ => rfl) fun there => ?_
  split
  · exact .bind (Asks.filesBelow _).silent fun _ => .ofOutcome _
  · exact .pure _

namespace PatchApplication

theorem silent_copyBaseline (baseline output : TreeHome) : (copyBaseline baseline output).Silent := by
  unfold copyBaseline
  split
  · exact .bind (.clear _) fun _ => .bind (.ask _ _) fun _ => .change _ _
  · exact .bind (TreeHome.asks_read _).silent fun _ => TreeHome.silent_write _ _

theorem silent_run (r : PatchApplication) : r.run.Silent := by
  refine .bind_disk fun d => ?_
  dsimp only
  split
  · exact .throw_bind _ _
  · refine .bind (PatchSet.silent_load _) fun set => ?_
    split
    · exact .bind (silent_copyBaseline _ _) fun _ => .bind (Archive.silent_write _ _) fun _ => .pure _
    · exact .bind (TreeHome.asks_read _).silent fun _ => .bind (TreeHome.silent_write _ _) fun _ =>
        .bind (Archive.silent_write _ _) fun _ => .pure _

end PatchApplication

namespace SetupRequest
variable (r : SetupRequest)

theorem silent_downloadInputs (plan : SetupPlan) (m : Manifest) : (r.downloadInputs plan m).Silent := by
  unfold downloadInputs
  split
  · exact .throw _
  · exact .bind (Batch.silent_fetchBy _ _) fun _ => .pure _

theorem silent_provideInput (side : Side) (m : Manifest) : (r.provideInput side m).Silent := by
  cases side with
  | server =>
    refine .bind (.bind (Bundle.silent_extractServer _ _) fun _ => ?_) fun _ =>
      .bind (Bundle.silent_extractLibraries _ _) fun _ => .pure _
    exact .bind (Bundle.silent_libraries _ _) fun _ => .bind (.clear _) fun _ => .pure _
  | client =>
    exact .bind (.clear _) fun _ => .bind (.ask _ _) fun _ => .bind (.change _ _) fun _ =>
      .bind (Batch.silent_ensure _) fun _ => .pure _

theorem silent_provideTools (plan : SetupPlan) : (r.provideTools plan).Silent :=
  .bind (Batch.silent_ensure _) fun _ => .pure _

theorem silent_provideAssets (plan : SetupPlan) (release : Release) (m : Manifest) :
    (r.provideAssets plan release m).Silent := by
  unfold provideAssets
  split
  · exact .bind (r.releases.silent_assetIndex _ _) fun _ => .bind (AssetsRequest.silent_run _) fun _ =>
      .pure _
  · exact .pure _

theorem silent_consult : r.consult.Silent := by
  have required : (Profile.require r.dir).Silent := by
    refine .bind (fun _ => rfl) fun isFile => ?_
    split
    · exact .bind (.ask _ _) fun _ => .ofOutcome _
    · exact .throw _
  exact .bind (.bind required fun _ => .bind (.ofOutcome _) fun _ => .bind (r.releases.silent_catalog _)
    fun _ => .bind (.ofOutcome _) fun _ => .pure _) fun _ => .bind (r.releases.silent_manifest _) fun _ =>
      .pure _

end SetupRequest

/-! ## Runs of tools -/

theorem Action.Silent.ends {α : Type} {action : Action α} (silent : action.Silent) (w : World) :
    Ends action w (fun _ w' => w'.launches = w.launches) fun _ w' => w'.launches = w.launches := by
  have same := silent w
  constructor <;> intro _ _ ran <;> rwa [ran] at same

/-- A run of a tool starts its program, if it comes that far. -/
theorem ToolRun.ends_run (s : Surroundings) (java : String) (t : ToolRun) (w : World) :
    Ends (t.run s java) w (fun _ w' => w'.launches = w.launches ++ [t.program java]) fun _ w' =>
      w'.launches = w.launches ∨ w'.launches = w.launches ++ [t.program java] := by
  refine .bind (((Silent.clear t.output).ends w).imp (fun _ _ => id) fun _ _ => .inl) fun _ w₁ same => ?_
  have launched : (launch s (t.program java) w₁).2.launches = w.launches ++ [t.program java] := by
    rw [launch_apply, same]
  have ends : Ends (launch s (t.program java)) w₁
      (fun _ w' => w'.launches = w.launches ++ [t.program java])
      fun _ w' => w'.launches = w.launches ++ [t.program java] := by
    constructor <;> intro _ _ ran <;> rwa [ran] at launched
  refine .bind (ends.imp (fun _ _ => id) fun _ _ => .inr) fun ended w₂ begun => ?_
  split
  · exact .pure begun
  · exact .throw (.inr begun)

/-- What several actions return, each of them returned. -/
theorem Action.exists_of_mapM_ran {α β : Type} {f : α → Action β} {xs : List α} {ys : List β} {w w' : World}
    (ran : xs.mapM f w = (.ok ys, w')) : ∀ y ∈ ys, ∃ x u u', x ∈ xs ∧ f x u = (.ok y, u') := by
  induction xs generalizing ys w with
  | nil =>
    cases ran
    exact nofun
  | cons x xs ih =>
    rw [List.mapM_cons] at ran
    obtain ⟨y, w₁, first, ran⟩ := bind_ran_iff.mp ran
    obtain ⟨rest, w₂, others, ended⟩ := bind_ran_iff.mp ran
    cases ended
    rintro y' (_ | ⟨_, listed⟩)
    · exact ⟨x, w, w₁, .head _, first⟩
    · obtain ⟨x', u, u', among, ran⟩ := ih others y' listed
      exact ⟨x', u, u', .tail _ among, ran⟩

namespace SetupRequest
variable {r : SetupRequest} {plan : SetupPlan} {classpath : List Path} {d : Disk} {runs : List ToolRun}

/-- The runs of both tools. -/
def toolRuns (r : SetupRequest) (plan : SetupPlan) (classpath : List Path) : List ToolRun :=
  [r.remapperRun plan classpath, r.decompilerRun plan classpath]

/-- Where the libraries of a side are kept. -/
def librariesOf (r : SetupRequest) : Side → Path
  | .server => r.layout.librariesDir
  | .client => r.settings.librariesDir

/-- Whether the profile of the version directory asks for a plan. -/
def Wants (r : SetupRequest) (d : Disk) (plan : SetupPlan) : Prop :=
  ∃ text p, d.readText (Profile.fileIn r.dir) = .ok text ∧ Profile.parse text = .ok p ∧
    p.plan = .ok plan

/-- **What a plan leads to**: runs of the two tools, the first one first, with a class path of libraries. -/
structure Begun (r : SetupRequest) (plan : SetupPlan) (classpath : List Path) (runs : List ToolRun) : Prop where
  provided : ∀ p ∈ classpath, ∃ rest, p = (r.librariesOf plan.side).join rest
  runs : runs <+: r.toolRuns plan classpath

/-- **What a setup starts**: nothing, or what the plan leads to that the profile asks for. -/
inductive Started (r : SetupRequest) (d : Disk) (classpath : List Path) (runs : List ToolRun) : Prop where
  | nothing (none : runs = [])
  | tools {plan : SetupPlan} (wants : r.Wants d plan) (begun : r.Begun plan classpath runs)

/-- Both tools are run, or some of their runs are begun. -/
theorem ends_runTools (s : Surroundings) (r : SetupRequest) (plan : SetupPlan) (classpath : List Path)
    (w : World) :
    Ends (runTools s r plan classpath) w
      (fun _ w' => w'.launches =
        w.launches ++ (r.toolRuns plan classpath).map (·.program r.settings.java))
      fun _ w' => ∃ runs, runs <+: r.toolRuns plan classpath ∧
        w'.launches = w.launches ++ runs.map (·.program r.settings.java) := by
  have first := ToolRun.ends_run s r.settings.java (r.remapperRun plan classpath) w
  refine .bind (first.imp (fun _ _ => id) fun _ w' begun => ?_) fun _ w₁ begun => ?_
  · rcases begun with same | begun
    · exact ⟨[], List.nil_prefix, by rw [same, List.map_nil, List.append_nil]⟩
    · exact ⟨[r.remapperRun plan classpath], ⟨[r.decompilerRun plan classpath], rfl⟩, begun⟩
  · have second := ToolRun.ends_run s r.settings.java (r.decompilerRun plan classpath) w₁
    rw [begun, List.append_assoc] at second
    refine .bind (second.imp (fun _ _ => id) fun _ w' begun' => ?_) fun _ _ begun' => .pure begun'
    rcases begun' with same | begun'
    · exact ⟨[r.remapperRun plan classpath], ⟨[r.decompilerRun plan classpath], rfl⟩, same⟩
    · exact ⟨r.toolRuns plan classpath, List.prefix_rfl, begun'⟩

/-- Each entry of the class path is put behind the directory of libraries. -/
theorem exists_join_of_provideInput {side : Side} {m : Manifest} {libraries : ProvidedLibraries}
    {w w' : World} (ran : r.provideInput side m w = (.ok libraries, w')) :
    ∀ p ∈ libraries.classpath, ∃ rest, p = (r.librariesOf side).join rest := by
  cases side with
  | server =>
    obtain ⟨list, w₁, -, ran⟩ := bind_ran_iff.mp ran
    obtain ⟨files, w₂, ran, ended⟩ := bind_ran_iff.mp ran
    cases ended
    obtain ⟨names, w₃, -, ran⟩ := bind_ran_iff.mp ran
    intro p listed
    obtain ⟨name, u, u', -, ran⟩ := exists_of_mapM_ran ran p listed
    obtain ⟨_, u₁, -, ended⟩ := bind_ran_iff.mp ran
    cases ended
    exact ⟨_, rfl⟩
  | client =>
    rw [provideInput, provideClient_eq] at ran
    obtain ⟨_, w₁, -, ran⟩ := bind_ran_iff.mp ran
    obtain ⟨as, w₂, ran, ended⟩ := bind_ran_iff.mp ran
    cases ended
    have answers := Batch.answers_ensureBy (Batch.finishes_inOrder _ _) ran
    intro p listed
    dsimp only at listed
    rw [Batch.map_path_of_answers answers] at listed
    obtain ⟨download, kept, rfl⟩ := List.mem_map.mp listed
    have asked : download ∈ r.libraryDownloads m := by
      rcases List.mem_append.mp kept with kept | kept <;> exact (List.mem_filter.mp kept).1
    obtain ⟨l, -, rfl⟩ := List.mem_map.mp asked
    exact ⟨l.path, rfl⟩

/-- What is made before the patches: both tools are run, or some of their runs are begun. -/
theorem ends_prepare (s : Surroundings) (r : SetupRequest) (plan : SetupPlan) (release : Release)
    (m : Manifest) (w : World) :
    Ends (prepare s r plan release m) w
      (fun libraries w' =>
        r.Begun plan libraries.classpath (r.toolRuns plan libraries.classpath) ∧
        w'.launches =
          w.launches ++ (r.toolRuns plan libraries.classpath).map (·.program r.settings.java))
      fun _ w' => ∃ classpath runs, r.Begun plan classpath runs ∧
        w'.launches = w.launches ++ runs.map (·.program r.settings.java) := by
  have none : ∀ {w' : World}, w'.launches = w.launches → ∃ classpath runs,
      r.Begun plan classpath runs ∧
        w'.launches = w.launches ++ runs.map (·.program r.settings.java) := fun same =>
    ⟨[], [], ⟨nofun, List.nil_prefix⟩, by rw [same, List.map_nil, List.append_nil]⟩
  have downloads := (r.silent_downloadInputs plan m).ends w
  refine .bind (downloads.imp (fun _ _ => id) fun _ _ => none) fun _ w₁ same₁ => ?_
  have inputs := (r.silent_provideInput plan.side m).ends w₁
  rw [same₁] at inputs
  rcases input : r.provideInput plan.side m w₁ with ⟨e | libraries, w₂⟩
  · exact .bind_of_error input (none (inputs.error input))
  have provided := exists_join_of_provideInput input
  refine .bind_of_ok input ?_
  have jars := (r.silent_provideTools plan).ends w₂
  rw [inputs.ok input] at jars
  refine .bind (jars.imp (fun _ _ => id) fun _ _ => none) fun _ w₃ same₃ => ?_
  have tools := ends_runTools s r plan libraries.classpath w₃
  rw [same₃] at tools
  refine .bind (tools.imp (fun _ _ => id) fun _ _ ⟨runs, begun, launched⟩ =>
    ⟨_, runs, ⟨provided, begun⟩, launched⟩) fun _ w₄ launched => ?_
  have whole : r.Begun plan libraries.classpath (r.toolRuns plan libraries.classpath) :=
    ⟨provided, List.prefix_rfl⟩
  have assets := (r.silent_provideAssets plan release m).ends w₄
  rw [launched] at assets
  refine .bind (assets.imp (fun _ _ => id) fun _ _ same => ⟨_, _, whole, same⟩) fun _ w₅ same₅ => ?_
  exact .pure ⟨whole, same₅⟩

/-- What is consulted first is the profile. -/
theorem wants_of_consult {plan : SetupPlan} {release : Release} {m : Manifest} {w w' : World}
    (ran : r.consult w = (.ok (plan, release, m), w')) : r.Wants w.disk plan := by
  obtain ⟨⟨plan', release'⟩, w₁, chosen, ran⟩ := bind_ran_iff.mp ran
  obtain ⟨m', w₂, -, ended⟩ := bind_ran_iff.mp ran
  cases ended
  obtain ⟨p, w₃, required, chosen⟩ := bind_ran_iff.mp chosen
  obtain ⟨plan', w₄, planned, chosen⟩ := bind_ran_iff.mp chosen
  obtain ⟨catalog, w₅, -, chosen⟩ := bind_ran_iff.mp chosen
  obtain ⟨release', w₆, -, ended⟩ := bind_ran_iff.mp chosen
  cases ended
  rw [ofOutcome_apply] at planned
  unfold Profile.require at required
  rw [bind_of_ok (isFile_apply _ _)] at required
  split at required
  · obtain ⟨-, text, read, parsed⟩ := (Profile.ends_load r.dir w).ok required
    exact ⟨text, p, read, parsed, congrArg Prod.fst planned⟩
  · cases required

/-- **What a setup starts**: the runs of both tools where it succeeds, and else no other ones. -/
theorem ends_run (s : Surroundings) (r : SetupRequest) (w : World) :
    Ends (run s r) w
      (fun _ w' => ∃ classpath runs, r.Started w.disk classpath runs ∧ runs.length = 2 ∧
        w'.launches = w.launches ++ runs.map (·.program r.settings.java))
      fun _ w' => ∃ classpath runs, r.Started w.disk classpath runs ∧
        w'.launches = w.launches ++ runs.map (·.program r.settings.java) := by
  unfold run
  have consulting := r.silent_consult.ends w
  rcases consulted : r.consult w with ⟨e | ⟨plan, release, m⟩, w₁⟩
  · have same := consulting.error consulted
    exact .bind_of_error consulted ⟨[], [], .nothing rfl, by rw [same, List.map_nil, List.append_nil]⟩
  refine .bind_of_ok consulted ?_
  have wants := wants_of_consult consulted
  have prepared := ends_prepare s r plan release m w₁
  rw [consulting.ok consulted] at prepared
  dsimp only
  refine .bind (prepared.imp (fun _ _ => id) fun _ _ ⟨classpath, runs, begun, launched⟩ =>
    ⟨classpath, runs, .tools wants begun, launched⟩) fun libraries w₂ ⟨begun, launched⟩ => ?_
  have patched := (PatchApplication.silent_run ⟨r.layout.decompiled, r.layout.patches,
    r.layout.workingTree, r.layout.rejects, r.tolerance⟩).ends w₂
  rw [launched] at patched
  refine .bind (patched.imp (fun _ _ => id) fun _ _ same => ⟨_, _, .tools wants begun, same⟩) ?_
  exact fun _ _ same => .pure ⟨_, _, .tools wants begun, rfl, same⟩

/-- All that a setup started, however it ends. -/
theorem exists_started (s : Surroundings) (r : SetupRequest) (w : World) :
    ∃ classpath runs, r.Started w.disk classpath runs ∧
      (run s r w).2.launches = w.launches ++ runs.map (·.program r.settings.java) ∧
      ((∃ summary, (run s r w).1 = .ok summary) → runs.length = 2) := by
  have ends := ends_run s r w
  rcases ran : run s r w with ⟨e | summary, w'⟩
  · obtain ⟨classpath, runs, started, launched⟩ := ends.error ran
    exact ⟨classpath, runs, started, launched, by rintro ⟨_, ⟨⟩⟩⟩
  · obtain ⟨classpath, runs, started, both, launched⟩ := ends.ok ran
    exact ⟨classpath, runs, started, launched, fun _ => both⟩

end SetupRequest

/-! ## Absolute paths -/

theorem Path.isAbsolute_join_of_isAbsolute {p : Path} (absolute : p.isAbsolute) (rest : String) :
    (p.join rest).isAbsolute := by
  by_cases starts : Text.startsWith "/" rest
  · rw [join_of_absolute starts]
    exact starts
  · rwa [isAbsolute_join_of_relative starts]

namespace Placeholders
variable {v : Placeholders} {names : List String} {test : String → Prop}

/-- Whether the values of some names pass a test, as far as they have any. -/
def All (v : Placeholders) (names : List String) (test : String → Prop) : Prop :=
  ∀ name ∈ names, ∀ value, v.get? name = some value → test value

theorem get?_set_self (v : Placeholders) (name value : String) :
    (v.set name value).get? name = some value := Std.TreeMap.getElem?_insert_self

theorem All.set (all : v.All names test) {name value : String} (h : name ∈ names → test value) :
    (v.set name value).All names test := by
  intro other listed found same
  by_cases ne : name = other
  · subst ne
    rw [get?_set_self] at same
    exact Option.some.inj same ▸ h listed
  · rw [get?_set ne] at same
    exact all other listed found same

end Placeholders

namespace ToolRun

/-- The names that stand for one path in the arguments of a tool. -/
def pathNames : List String := ["input", "output", "mappingsFile", "remapperFile", "tempDir", "reportsDir"]

/-- **Whether all paths that a run names are absolute**: its jar, the values that are one path, and the
entries of its class path. -/
structure Absolute (t : ToolRun) (classpath : List Path) : Prop where
  jar : t.jar.isAbsolute
  values : t.values.All pathNames fun value => (Path.mk value).isAbsolute
  listed : t.values.get? "inputClasspath" = some (":".intercalate (classpath.map Path.text))
  entries : ∀ p ∈ classpath, p.isAbsolute

end ToolRun

namespace SetupRequest
variable {r : SetupRequest} {plan : SetupPlan} {classpath : List Path} {t : ToolRun}

/-- What a build makes lies in the directory of the version. -/
theorem isAbsolute_work (l : BuildLayout) : l.work.isAbsolute = l.root.isAbsolute := by
  rw [BuildLayout.work, Path.isAbsolute_join (by decide), Path.isAbsolute_join (by decide)]

theorem isAbsolute_jar (r : SetupRequest) (jar : ToolJar) :
    (r.settings.toolsDir.join jar.fileName).isAbsolute = r.settings.cache.isAbsolute := by
  rw [Path.isAbsolute_join jar.isName_fileName, Settings.toolsDir, Path.isAbsolute_join (by decide)]

/-- Both tools run from jars in the cache and are given a directory for their own files. -/
theorem jar_and_tempDir (running : t ∈ r.toolRuns plan classpath) :
    t.directory = r.dir ∧ t.jar.isAbsolute = r.settings.cache.isAbsolute ∧
      t.values.get? "tempDir" = some r.layout.tempDir.text := by
  rcases running with _ | ⟨_, _ | ⟨_, ⟨⟩⟩⟩
  · dsimp only [remapperRun, toolRun]
    refine ⟨rfl, r.isAbsolute_jar _, ?_⟩
    simp [commonValues, Placeholders.setPath?, Placeholders.setPath, Placeholders.get?_set,
      Placeholders.get?_set_self]
  · dsimp only [decompilerRun, toolRun]
    refine ⟨rfl, r.isAbsolute_jar _, ?_⟩
    simp [commonValues, Placeholders.setPath, Placeholders.get?_set, Placeholders.get?_set_self]

section
variable (dir : r.dir.isAbsolute) (cache : r.settings.cache.isAbsolute)
include dir

theorem all_commonValues :
    (r.commonValues classpath).All ToolRun.pathNames fun value => (Path.mk value).isAbsolute := by
  have work : r.layout.work.isAbsolute := by rwa [isAbsolute_work]
  have empty : Placeholders.empty.All ToolRun.pathNames fun value => (Path.mk value).isAbsolute :=
    fun name _ value same => by simp [Placeholders.empty, Placeholders.get?] at same
  refine ((empty.set fun listed => absurd listed (by decide)).set fun _ => ?_).set fun _ => ?_
  · exact Path.isAbsolute_join_of_isAbsolute work _
  · exact Path.isAbsolute_join_of_isAbsolute work _

include cache

theorem all_values (running : t ∈ r.toolRuns plan classpath) :
    t.values.All ToolRun.pathNames fun value => (Path.mk value).isAbsolute := by
  have work : r.layout.work.isAbsolute := by rwa [isAbsolute_work]
  have below (rest : String) : (r.layout.work.join rest).isAbsolute :=
    Path.isAbsolute_join_of_isAbsolute work rest
  have common : (r.commonValues classpath).All ToolRun.pathNames fun value =>
      (Path.mk value).isAbsolute := all_commonValues dir
  rcases running with _ | ⟨_, _ | ⟨_, ⟨⟩⟩⟩
  · refine ((((common.set fun _ => ?_).set fun _ => ?_).set fun _ => ?_).set fun _ => ?_).set
      fun listed => absurd listed (by decide)
    · exact below _
    · exact below _
    · exact Path.isAbsolute_join_of_isAbsolute (below _) _
    · rwa [isAbsolute_jar]
  · exact (common.set fun _ => below _).set fun _ => below _

end

/-- **The paths that a run names are absolute** just where the directory of the version and the cache
are. -/
theorem absolute_iff (provided : ∀ p ∈ classpath, ∃ rest, p = (r.librariesOf plan.side).join rest)
    (running : t ∈ r.toolRuns plan classpath) :
    t.Absolute classpath ↔ r.dir.isAbsolute ∧ r.settings.cache.isAbsolute := by
  obtain ⟨-, jar, temp⟩ := jar_and_tempDir running
  constructor
  · intro absolute
    have tempDir := absolute.values "tempDir" (by decide) _ temp
    rw [BuildLayout.tempDir, Path.isAbsolute_join (by decide), isAbsolute_work] at tempDir
    exact ⟨tempDir, jar ▸ absolute.jar⟩
  · rintro ⟨dir, cache⟩
    refine ⟨jar ▸ cache, all_values dir cache running, get?_inputClasspath r plan classpath t running, ?_⟩
    intro p listed
    obtain ⟨rest, rfl⟩ := provided p listed
    refine Path.isAbsolute_join_of_isAbsolute ?_ rest
    cases plan.side with
    | server =>
      refine Path.isAbsolute_join_of_isAbsolute ?_ _
      rwa [isAbsolute_work]
    | client => exact Path.isAbsolute_join_of_isAbsolute cache _

end SetupRequest

/-! ## The root and the cache -/

/-- The directory that the cache lies in when no variable names the cache itself. -/
def Settings.cacheBase? (e : Environment) : Option Path :=
  (e.value? "XDG_CACHE_HOME").map Path.mk <|> e.home?

/-- **When the cache is absolute**: always if a variable names it, and else if what it lies in is. -/
theorem Settings.isAbsolute_cache_iff {here : Path} {e : Environment} {settings : Settings}
    (absolute : here.isAbsolute) (known : ofEnvironment here e = .ok settings) :
    settings.cache.isAbsolute ↔ (e.value? "REMOLD_CACHE_PATH").isSome ∨
      ∃ base, cacheBase? e = some base ∧ base.isAbsolute := by
  obtain ⟨jobs, -, rest⟩ := bind_eq_ok_iff.mp known
  obtain ⟨⟨cache, source⟩, decided, ended⟩ := bind_eq_ok_iff.mp rest
  cases ended
  clear known rest
  revert decided
  unfold cacheOf cacheBase?
  dsimp only
  rcases e.value? "REMOLD_CACHE_PATH" with _ | path
  · rcases e.value? "XDG_CACHE_HOME" with _ | base
    · rcases e.home? with _ | home <;> rintro ⟨⟩
      rw [Path.isAbsolute_join (by decide), Path.isAbsolute_join (by decide)]
      simp
    · rintro ⟨⟩
      rw [Path.isAbsolute_join (by decide)]
      simp
  · rintro ⟨⟩
    exact iff_of_true (Path.isAbsolute_join_of_isAbsolute absolute path) (.inl rfl)

namespace Command

/-- The directory of a version is absolute just where the root is. -/
theorem isAbsolute_versionDir {version : String} (plain : isPlainName version) {root : Path} :
    ((Workspace.mk root).versionDir version).isAbsolute = root.isAbsolute := by
  rw [Workspace.versionDir, Path.isAbsolute_join (isName_of_isPlainName plain), Workspace.versions,
    Path.isAbsolute_join (by decide)]

/-- A setup is refused before anything is done, or it runs in the directory of a plain name. -/
theorem runSetup_cases (s : Surroundings) (c : CommandContext) (version : String) (fuzz : FuzzOptions)
    (assets : AssetsMode) (strict : Bool) (w : World) :
    (∃ e, runSetup s c version fuzz assets strict w = (.error e, w)) ∨
      isPlainName version ∧ ∃ tolerance, runSetup s c version fuzz assets strict w =
        SetupRequest.run s ⟨c.workspace.versionDir version, c.settings, c.environment, tolerance, assets,
          strict⟩ w := by
  unfold runSetup Workspace.require checkName
  by_cases plain : isPlainName version
  · rw [if_pos plain, bind_assoc, bind_of_outcome rfl]
    dsimp only
    rw [bind_assoc, bind_of_ok (isDir_apply _ _)]
    split
    · rw [pure_bind]
      rcases fuzz.tolerance with e | tolerance
      · exact .inl ⟨e, rfl⟩
      · exact .inr ⟨plain, tolerance, bind_of_outcome rfl _ _⟩
    · exact .inl ⟨_, rfl⟩
  · rw [if_neg plain]
    exact .inl ⟨_, rfl⟩

/-- An environment that puts the cache below a relative directory. -/
def demoEnvironment : Environment := ⟨[("XDG_CACHE_HOME", "cache")]⟩

end Command
end Patchwork
