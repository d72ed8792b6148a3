import Patchwork.Proofs.Build.Bundles
import Patchwork.Proofs.Build.Spared
import Patchwork.Proofs.Build.Tools

/-! Setting up again.  Whatever earlier setups left in the build directory (`SetupRequest.Leftover`,
`SetupRequest.Kept`), each stage either makes room for its results before it makes them or reads what it
keeps for the bundle at hand only, so that a setup of a server ends alike and makes the same of the same
inputs (`SetupRequest.run_independent`).  That needs bundles whose libraries lead inward: one that
strays could write over the list of libraries. -/

namespace Patchwork
open Patchwork.Action Patchwork.Disk

namespace ReleaseCache
variable {here : Place} {stale : Place → Prop} {keeps : Place → Option Node → Prop} {c : ReleaseCache}
  (clean : Clean here stale c.root)
include clean

theorem steady_catalog {url : String}
    (sourced : ∀ p, sourcePath url = .ok p → Fresh here stale p) :
    Steady here stale keeps (c.catalog url) := by
  have named : Path.IsName "catalog.json" := by decide
  have fresh := (clean.join_name named).fresh
  have parts : (c.root.join "catalog.json").parts ≠ [] := by
    rw [Path.parts_join named]
    exact List.concat_ne_nil _ _
  exact .bind (Download.steady_fetch sourced fresh parts) fun _ =>
    .bind (.readText fresh) fun _ => .ofOutcome _

theorem steady_manifest {r : Release} (ne : c.root.text ≠ "") (inward : Path.Inward r.id)
    (sourced : ∀ p, sourcePath r.url = .ok p → Fresh here stale p) :
    Steady here stale keeps (c.manifest r) := by
  have named : Path.IsName "version.json" := by decide
  have fresh := ((clean.join ne inward).join_name named).fresh
  have parts : ((c.root.join r.id).join "version.json").parts ≠ [] := by
    rw [Path.parts_join named]
    exact List.concat_ne_nil _ _
  exact .bind (Download.steady_ensure sourced fresh parts) fun _ =>
    .bind (.readText fresh) fun _ => .ofOutcome _

end ReleaseCache

namespace SetupRequest
variable {s : Surroundings} {r : SetupRequest} {w w' : World} {here place : Place}
  {bundles : ByteArray → Prop} {ps : List Path}

/-! ## What earlier setups left -/

/-- **Where earlier setups may have left something**: at and below the directory of what builds make,
and the directory that it lies in. -/
def Leftover (r : SetupRequest) (here place : Place) : Prop :=
  place = (r.dir.join "build").place here ∨ r.layout.work.place here <+: place

/-- The directories that setups make for their results. -/
def trunk (r : SetupRequest) : List Path :=
  [r.dir.join "build", r.layout.work, r.layout.work.join "download"]

/-- The logs of both tools. -/
def logs (r : SetupRequest) : List Path :=
  [ToolRun.logOf r.layout.remapped, ToolRun.logOf r.layout.decompiled]

/-- **What earlier setups may have left there**: no file in the place of a directory that setups make,
no directory in the place of a log, the list of libraries of one of some bundles, and elsewhere
anything. -/
structure Kept (r : SetupRequest) (bundles : ByteArray → Prop) (here place : Place)
    (node : Option Node) : Prop where
  trunk : ∀ p ∈ r.trunk, place = p.place here → ∀ bytes, node ≠ some (.file bytes)
  logs : ∀ p ∈ r.logs, place = p.place here → node ≠ some .dir
  list : place = r.layout.librariesList.place here → Bundle.Keeps bundles node

/-- The names, below the directory of what builds make, that a setup of a server makes room for. -/
def results : List (List String) :=
  [["download", Side.server.name ++ ".jar"], ["download", Side.server.name ++ "-mappings.txt"],
    [Side.server.name ++ ".jar"], ["libraries"], ["remapped.jar"], ["decompiled.jar"],
    ["failed_patches.zip"]]

theorem isName_results : ∀ names ∈ results, ∀ name ∈ names,
    Path.IsName name ∧ name.utf8ByteSize ≤ nameLimit := by decide

theorem work_joinAll (names : List String) :
    r.layout.work.joinAll names = r.dir.joinAll ("build" :: "remold" :: names) := rfl

theorem parts_work : r.layout.work.parts = r.dir.parts ++ ["build", "remold"] := by
  have whole : r.layout.work = r.dir.joinAll ["build", "remold"] := rfl
  rw [whole, Path.parts_joinAll (by decide)]

theorem place_build : (r.dir.join "build").place here = r.dir.place here ++ ["build"] :=
  Path.place_join_of_isName (by decide) _ _

theorem place_trunk {p : Path} (listed : p ∈ r.trunk) : p.place here = r.dir.place here ++ ["build"] ∨
    p.place here = r.layout.work.place here ∨
    p.place here = r.layout.work.place here ++ ["download"] := by
  rw [trunk, List.mem_cons, List.mem_cons, List.mem_singleton] at listed
  rcases listed with rfl | rfl | rfl
  · exact .inl place_build
  · exact .inr (.inl rfl)
  · exact .inr (.inr (Path.place_join_of_isName (by decide) _ _))

/-- What leads to the version directory is not left over. -/
theorem not_leftover_of_above (above : place <+: r.dir.place here) : ¬ r.Leftover here place := by
  have shorter := above.length_le
  rintro (rfl | below)
  · rw [place_build, List.length_append, List.length_singleton] at shorter
    omega
  · have longer := below.length_le
    rw [place_work, List.length_append, List.length_cons] at longer
    omega

/-- Nor is what the version directory holds beside the builds. -/
theorem not_leftover_of_ne {first : String} {rest : List String} (ne : first ≠ "build") :
    ¬ r.Leftover here (r.dir.place here ++ first :: rest) := by
  rintro (same | below)
  · rw [place_build, List.append_cancel_left_eq] at same
    exact ne (List.cons.inj same).1
  · rw [place_work, List.prefix_append_right_inj, List.cons_prefix_cons] at below
    exact ne below.1.symm

section
variable (straight : ".." ∉ r.dir.parts)
include straight

theorem not_leftover_stop {front : List String} (above : front <+: r.dir.parts) :
    ¬ r.Leftover here (stopFrom here r.dir front) :=
  not_leftover_of_above (stopFrom_prefix_place straight above)

/-- What lies beside the builds is clean. -/
theorem clean_beside {first : String} {rest : List String} (ne : first ≠ "build")
    (named : ∀ name ∈ first :: rest, Path.IsName name) :
    Clean here (r.Leftover here) (r.dir.joinAll (first :: rest)) := by
  constructor
  · intro front above
    rcases stop_joinAll here named above with ⟨above, -, at_⟩ | ⟨names, above, -, at_⟩ <;> rw [at_]
    · exact not_leftover_stop straight above
    · rcases List.prefix_cons_iff.mp above with rfl | ⟨names, rfl, -⟩
      · rw [List.append_nil]
        exact not_leftover_of_above List.prefix_rfl
      · exact not_leftover_of_ne ne
  · rintro place ⟨more, rfl⟩
    rw [Path.place_joinAll named, List.append_assoc]
    exact not_leftover_of_ne ne

/-- Where a path below the directory of what builds make stops: at something that is not left over, at
the directory that this one lies in, or at and below this one. -/
theorem stop_work {names front : List String} (named : ∀ name ∈ names, Path.IsName name)
    (above : front <+: (r.layout.work.joinAll names).parts) :
    ¬ r.Leftover here (stopFrom here (r.layout.work.joinAll names) front) ∨
    stopFrom here (r.layout.work.joinAll names) front = (r.dir.join "build").place here ∨
    ∃ names', names' <+: names ∧ front = r.layout.work.parts ++ names' ∧
      stopFrom here (r.layout.work.joinAll names) front = r.layout.work.place here ++ names' := by
  have named' : ∀ name ∈ "build" :: "remold" :: names, Path.IsName name :=
    List.forall_mem_cons.mpr ⟨by decide, List.forall_mem_cons.mpr ⟨by decide, named⟩⟩
  rw [work_joinAll] at above ⊢
  rcases stop_joinAll here named' above with ⟨above, -, at_⟩ | ⟨rest, above, whole, at_⟩ <;> rw [at_]
  · exact .inl (not_leftover_stop straight above)
  rcases List.prefix_cons_iff.mp above with rfl | ⟨rest, rfl, below⟩
  · rw [List.append_nil]
    exact .inl (not_leftover_of_above List.prefix_rfl)
  rcases List.prefix_cons_iff.mp below with rfl | ⟨rest, rfl, last⟩
  · exact .inr (.inl place_build.symm)
  · refine .inr (.inr ⟨rest, last, ?_, ?_⟩)
    · rw [whole, parts_work, List.append_assoc]
      rfl
    · rw [place_work, List.append_assoc]
      rfl

/-- **Room can be made for each result**, whatever earlier setups left. -/
theorem clearable_result (short : ∀ name ∈ r.dir.parts, name.utf8ByteSize ≤ nameLimit)
    (names : List String) (listed : names ∈ results) :
    (r.layout.work.joinAll names).Clearable here (r.Leftover here) (r.Kept bundles here) := by
  have named := isName_results names listed
  have isName : ∀ name ∈ names, Path.IsName name := fun name among => (named name among).1
  have shape : ∀ names ∈ results, names ≠ [] ∧ names.dropLast <+: ["download"] := by decide
  obtain ⟨ne, front⟩ := shape names listed
  have parts : (r.layout.work.joinAll names).parts = r.dir.parts ++ ["build", "remold"] ++ names := by
    rw [Path.parts_joinAll isName, parts_work]
  have last : (r.layout.work.joinAll names).endsInName ∧
      (r.layout.work.joinAll names).meansDir = false := by
    obtain ⟨above, name, rfl⟩ := (List.eq_nil_or_concat names).resolve_left ne
    rw [List.concat_eq_append, Path.joinAll_concat]
    have isLast : Path.IsName name := isName name (by simp)
    exact ⟨Path.endsInName_join isLast _, Path.meansDir_join isLast _⟩
  refine ⟨⟨last.1, last.2, ?_, ?_⟩, ?_, fun stop above proper => ?_⟩
  · rw [parts]
    simp only [List.mem_append, not_or]
    exact ⟨⟨straight, by decide⟩, fun points => (isName _ points).ne_points rfl⟩
  · rw [parts]
    simp only [List.forall_mem_append]
    exact ⟨⟨short, by decide⟩, fun name among => (named name among).2⟩
  · have root : stopFrom here (r.layout.work.joinAll names) [] = stopFrom here r.dir [] := by
      have whole : r.layout.work = r.dir.joinAll ["build", "remold"] := rfl
      have same : r.layout.work.isAbsolute = r.dir.isAbsolute := by
        rw [whole, Path.isAbsolute_joinAll (by decide)]
      rw [stopFrom, stopFrom, Path.isAbsolute_joinAll isName, same]
    rw [root]
    exact not_leftover_stop straight List.nil_prefix
  · rcases stop_work straight isName above with fresh | at_ | ⟨names', above, whole, at_⟩
    · exact .inl fresh
    · exact .inr fun bytes kept => kept.trunk _ List.mem_cons_self at_ bytes rfl
    · have proper' : names' ≠ names := by
        rintro rfl
        exact proper (whole.trans (Path.parts_joinAll isName _).symm)
      refine .inr fun bytes kept => ?_
      rcases List.prefix_cons_iff.mp ((prefix_dropLast above proper').trans front) with
        rfl | ⟨rest, rfl, nothing⟩
      · rw [List.append_nil] at at_
        exact kept.trunk r.layout.work (by simp [trunk]) at_ bytes rfl
      · rw [List.prefix_nil.mp nothing, ← Path.place_join_of_isName (by decide)] at at_
        exact kept.trunk _ (by simp [trunk]) at_ bytes rfl

end

/-! ## What is still left over -/

/-- Whether room was made for results only. -/
def IsResults (r : SetupRequest) (ps : List Path) : Prop :=
  ∀ p ∈ ps, ∃ names ∈ results, p = r.layout.work.joinAll names

theorem isResults_of_starts (above : ps <+: [r.layout.download .server, r.layout.mappings .server,
    r.layout.inputJar .server, r.layout.librariesDir, r.layout.remapped, r.layout.decompiled]) :
    r.IsResults ps := by
  have whole : results.map r.layout.work.joinAll = [r.layout.download .server, r.layout.mappings .server,
      r.layout.inputJar .server, r.layout.librariesDir, r.layout.remapped, r.layout.decompiled,
      r.layout.work.join "failed_patches.zip"] := rfl
  intro p listed
  have listed : p ∈ results.map r.layout.work.joinAll :=
    whole ▸ List.mem_append_left [r.layout.work.join "failed_patches.zip"] (above.subset listed)
  obtain ⟨names, among, rfl⟩ := List.mem_map.mp listed
  exact ⟨names, among, rfl⟩

/-- The names there of what setups keep and of what belongs to the tools. -/
def ownNames : List String :=
  ["libraries.json", "remapped.jar.log", "decompiled.jar.log", ".tmp", "reports"]

/-- What setups keep and what belongs to the tools is left over, whatever room was made. -/
theorem behindRoom_own (straight : ".." ∉ r.dir.parts) (made : r.IsResults ps) {name : String}
    (own : name ∈ ownNames) (rest : List String) :
    behindRoom here (r.Leftover here) ps (r.layout.work.place here ++ name :: rest) := by
  refine ⟨.inr (List.prefix_append _ _), fun p listed => ?_⟩
  obtain ⟨names, among, rfl⟩ := made p listed
  have apart : ∀ names ∈ results, ∀ name ∈ ownNames, names ≠ [] ∧ names.head? ≠ some name := by decide
  obtain ⟨ne, differs⟩ := apart names among name own
  obtain ⟨first, others, rfl⟩ := List.exists_cons_of_ne_nil ne
  have differs : first ≠ name := fun same => differs (congrArg some same)
  have isName : ∀ name ∈ first :: others, Path.IsName name :=
    fun name listed => (isName_results _ among name listed).1
  have place := Path.place_joinAll isName r.layout.work here
  have straight' : ".." ∉ (r.layout.work.joinAll (first :: others)).parts := by
    rw [Path.parts_joinAll isName, parts_work]
    simp only [List.mem_append, not_or]
    exact ⟨⟨straight, by decide⟩, fun points => (isName _ points).ne_points rfl⟩
  constructor
  · rw [place, List.prefix_append_right_inj, List.cons_prefix_cons]
    exact fun below => differs below.1
  · intro front above at_
    have above : stopFrom here _ front <+: _ := stopFrom_prefix_place straight' above
    rw [← at_, place, List.prefix_append_right_inj, List.cons_prefix_cons] at above
    exact differs above.1.symm

theorem ne_trunk {name : String} (own : name ∈ ownNames) (rest : List String) {p : Path}
    (listed : p ∈ r.trunk) : r.layout.work.place here ++ name :: rest ≠ p.place here := by
  have apart : ∀ name ∈ ownNames, name ≠ "download" := by decide
  intro at_
  rcases place_trunk listed with place | place | place <;> rw [place] at at_
  · rw [place_work, List.append_assoc, List.append_cancel_left_eq] at at_
    cases at_
  · rw [List.append_right_eq_self] at at_
    cases at_
  · rw [List.append_cancel_left_eq] at at_
    exact apart name own (List.cons.inj at_).1

theorem place_list : r.layout.librariesList.place here =
    r.layout.work.place here ++ ["libraries.json"] := Path.place_join_of_isName (by decide) _ _

theorem place_logs {p : Path} (listed : p ∈ r.logs) : ∃ name ∈ ["remapped.jar.log", "decompiled.jar.log"],
    p.place here = r.layout.work.place here ++ [name] := by
  rw [logs, List.mem_cons, List.mem_singleton] at listed
  rcases listed with rfl | rfl
  · have remapped : Path.IsName "remapped.jar" := by decide
    exact ⟨_, List.mem_cons_self, ToolRun.place_logOf remapped (by decide) _⟩
  · have decompiled : Path.IsName "decompiled.jar" := by decide
    exact ⟨_, List.mem_cons_of_mem _ List.mem_cons_self,
      ToolRun.place_logOf decompiled (by decide) _⟩

/-- In the places of the tools' own, anything may be left but a directory in the place of a log. -/
theorem kept_own {name : String} (own : name ∈ ownNames) (apart : name ≠ "libraries.json")
    {rest : List String} {node : Option Node}
    (logs : ∀ p ∈ r.logs, r.layout.work.place here ++ name :: rest = p.place here →
      node ≠ some .dir) :
    r.Kept bundles here (r.layout.work.place here ++ name :: rest) node := by
  refine ⟨fun p listed at_ => absurd at_ (ne_trunk own rest listed), logs, fun at_ => ?_⟩
  rw [place_list, List.append_cancel_left_eq] at at_
  exact absurd (List.cons.inj at_).1 apart

/-- The list of libraries is kept between setups. -/
theorem keptAt_list (straight : ".." ∉ r.dir.parts) (made : r.IsResults ps)
    (opened : r.layout.download .server ∈ ps) :
    Bundle.KeptAt here (behindRoom here (r.Leftover here) ps) (r.Kept bundles here) bundles
      r.layout.librariesList := by
  have isName : ∀ name ∈ ["download", Side.server.name ++ ".jar"], Path.IsName name := by decide
  have download : r.layout.download .server =
      r.layout.work.joinAll ["download", Side.server.name ++ ".jar"] := rfl
  refine ⟨Path.endsInName_join (by decide) _, Path.meansDir_join (by decide) _, ?_, ?_, fun node => ?_⟩
  · intro front above proper left
    -- on its way the list stops where the download does
    have above := prefix_dropLast above proper
    rw [BuildLayout.librariesList, Path.parts_join (by decide), List.dropLast_concat] at above
    refine (left.2 _ opened).2 front ?_ ?_
    · rw [download, Path.parts_joinAll isName]
      exact above.trans (List.prefix_append _ _)
    · rw [download, stopFrom, stopFrom, Path.isAbsolute_joinAll isName, BuildLayout.librariesList,
        Path.isAbsolute_join (by decide)]
  · rw [place_list]
    exact behindRoom_own straight made (by decide) []
  · refine ⟨fun kept => kept.list rfl, fun keeps => ⟨fun p listed at_ => ?_, fun _ _ _ => keeps.ne_dir,
      fun _ => keeps⟩⟩
    rw [place_list] at at_
    exact absurd at_ (ne_trunk (by decide) [] listed)

/-! ## What a setup is made of -/

/-- Whether what a URL leads to is not left over. -/
def Sourced (r : SetupRequest) (here : Place) (url : String) : Prop :=
  ∀ p, sourcePath url = .ok p → Fresh here (r.Leftover here) p

/-- **What makes a setup of a server repeatable.**  The directories of the cache and the sources of all
downloads are not left over from setups, the ids of releases and the libraries of the bundle lead inward,
digests tell bundles apart, and the tools make the same of the same. -/
structure Repeatable (s : Surroundings) (r : SetupRequest) (bundles : ByteArray → Prop) (w : World) :
    Prop where
  straight : ".." ∉ r.dir.parts
  jsons : Clean w.disk.here (r.Leftover w.disk.here) r.settings.jsonsDir
  tools : Clean w.disk.here (r.Leftover w.disk.here) r.settings.toolsDir
  catalog : r.Sourced w.disk.here r.settings.catalogUrl
  release : ∀ {plan release w₁}, r.choose w = (.ok (plan, release), w₁) →
    plan.side = .server ∧ Path.Inward release.id ∧ r.Sourced w.disk.here release.url
  files : ∀ {plan release m w₁}, r.consult w = (.ok (plan, release, m), w₁) →
    r.Sourced w.disk.here m.downloads.server.url ∧
    (∀ mappings, m.downloads.serverMappings = some mappings →
      r.Sourced w.disk.here mappings.url) ∧
    r.Sourced w.disk.here plan.remapper.jar.url ∧ r.Sourced w.disk.here plan.decompiler.jar.url
  bundle : ∀ {plan release m w₁ w₂}, r.consult w = (.ok (plan, release, m), w₁) →
    r.downloadInputs plan m w₁ = (.ok (), w₂) →
    ∀ bytes, w₂.disk.file? ((r.layout.download .server).place w.disk.here) = some bytes →
      bundles bytes ∧ Bundle.Inward bytes
  apart : Bundle.ToldApart bundles
  remapper : ∀ plan classpath, plan.side = .server →
    (r.remapperRun plan classpath).Repeats s r.settings.java w.disk.here
      [r.layout.tempDir, r.layout.reportsDir]
      ((r.remapperRun plan classpath).jar :: r.layout.inputJar .server ::
        r.layout.mappings .server :: classpath)
  decompiler : ∀ plan classpath, plan.side = .server →
    (r.decompilerRun plan classpath).Repeats s r.settings.java w.disk.here
      [r.layout.tempDir, r.layout.reportsDir]
      ((r.decompilerRun plan classpath).jar :: r.layout.remapped :: classpath)

variable {plan : SetupPlan} {release : Release} {m : Manifest}

section
variable (repeatable : Repeatable s r bundles w)
include repeatable

theorem steady_choose : Steady w.disk.here (r.Leftover w.disk.here) (r.Kept bundles w.disk.here)
    r.choose := by
  have profile : Fresh w.disk.here (r.Leftover w.disk.here) (Profile.fileIn r.dir) :=
    have named : ∀ name ∈ [Profile.fileName], Path.IsName name := by decide
    (clean_beside repeatable.straight (by decide) named).fresh
  have required : Steady w.disk.here (r.Leftover w.disk.here) (r.Kept bundles w.disk.here)
      (Profile.require r.dir) := by
    refine .bind (.isFile profile) fun _ => ?_
    split
    · exact .bind (.readText profile) fun _ => .ofOutcome _
    · exact .throw _
  refine .bind required fun _ => .bind (.ofOutcome _) fun _ => ?_
  exact .bind (ReleaseCache.steady_catalog repeatable.jsons repeatable.catalog) fun _ =>
    .bind (.ofOutcome _) fun _ => .pure _

/-- Finding out what to build comes to the same. -/
theorem agrees_consult (twins : Twins w.disk.here (r.Leftover w.disk.here)
    (r.Kept bundles w.disk.here) w w') : Agrees r.consult w w' fun _ u u' =>
      Twins w.disk.here (r.Leftover w.disk.here) (r.Kept bundles w.disk.here) u u' := by
  refine .bind_of_ran ((steady_choose repeatable).agrees twins) fun found u u' chosen _ twins => ?_
  obtain ⟨plan, release⟩ := found
  obtain ⟨-, inward, sourced⟩ := repeatable.release chosen
  have manifest : Steady w.disk.here (r.Leftover w.disk.here) (r.Kept bundles w.disk.here) _ :=
    ReleaseCache.steady_manifest repeatable.jsons (Path.text_join_ne_empty (by decide) _) inward sourced
  exact .bind (manifest.agrees twins) fun _ _ _ twins => .pure twins

omit repeatable in
/-- A setup that finds its profile has a path whose names are short enough. -/
theorem short_of_consult {found : SetupPlan × Release × Manifest} {w₁ : World}
    (consulted : r.consult w = (.ok found, w₁)) :
    ∀ name ∈ r.dir.parts, name.utf8ByteSize ≤ nameLimit := by
  obtain ⟨_, _, chosen, -⟩ := bind_ran_iff.mp consulted
  obtain ⟨_, _, required, -⟩ := bind_ran_iff.mp chosen
  unfold Profile.require at required
  rw [bind_of_ok (isFile_apply _ w)] at required
  split at required
  · rename_i isFile
    obtain ⟨bytes, found⟩ := isFile_iff.mp isFile
    obtain ⟨place, led, -⟩ := locate_of_find found
    intro name listed
    refine (locate_iff.mp led).1.short name ?_
    rw [Profile.fileIn, Path.parts_join (by decide)]
    exact List.mem_append_left _ listed
  · cases required

end

/-! ## The stages of a server -/

section Stages
variable {u u' : World} (straight : ".." ∉ r.dir.parts)
  (short : ∀ name ∈ r.dir.parts, name.utf8ByteSize ≤ nameLimit)
include straight short

theorem agrees_downloadInputs (server : plan.side = .server)
    (jar : r.Sourced here m.downloads.server.url)
    (mapped : ∀ mappings, m.downloads.serverMappings = some mappings → r.Sourced here mappings.url)
    (twins : Twins here (r.Leftover here) (r.Kept bundles here) u u') :
    Agrees (r.downloadInputs plan m) u u' fun _ v v' => Twins here (behindRoom here (r.Leftover here)
      [r.layout.download .server, r.layout.mappings .server]) (r.Kept bundles here) v v' := by
  unfold downloadInputs
  rw [server]
  split
  · exact .throw
  · rename_i mappings known
    refine .bind (Batch.agrees_fetchBy ?_ ?_ (Batch.finishes_inOrder _ u) twins) fun _ _ _ twins =>
      .pure twins
    · rw [List.forall_mem_cons, List.forall_mem_singleton]
      exact ⟨jar, mapped mappings known⟩
    · rw [List.forall_mem_cons, List.forall_mem_singleton]
      exact ⟨clearable_result straight short ["download", Side.server.name ++ ".jar"] (by decide),
        clearable_result straight short ["download", Side.server.name ++ "-mappings.txt"] (by decide)⟩

omit straight short in
/-- What stands beside the downloads is apart from the bundle. -/
theorem inside_apart {name : String} (named : Path.IsName name) (apart : name ≠ "download") :
    (r.layout.work.join name).Inside here (· ≠ (r.layout.download .server).place here) := by
  have isName : ∀ name ∈ ["download", Side.server.name ++ ".jar"], Path.IsName name := by decide
  have download : (r.layout.download .server).place here =
      r.layout.work.place here ++ ["download", Side.server.name ++ ".jar"] :=
    Path.place_joinAll isName _ _
  intro place below same
  rw [same, download, Path.place_join_of_isName named, List.prefix_append_right_inj,
    List.cons_prefix_cons] at below
  exact apart below.1

section Bundle
variable (apart : Bundle.ToldApart bundles)
  (bundle : ∀ bytes, u.disk.file? ((r.layout.download .server).place here) = some bytes →
    bundles bytes ∧ Bundle.Inward bytes)
  (twins : Twins here (behindRoom here (r.Leftover here)
    [r.layout.download .server, r.layout.mappings .server]) (r.Kept bundles here) u u')
include bundle twins

omit straight short in
/-- While the bundle stays as it is, it is known. -/
theorem known_of_sameBut {v : World}
    (same : u.disk.SameBut (· ≠ (r.layout.download .server).place here) v.disk) {bytes : ByteArray}
    (found : v.disk.find (r.layout.download .server) = .ok (.file bytes)) :
    bundles bytes ∧ Bundle.Inward bytes := by
  obtain ⟨place, led, stands⟩ := locate_of_find found
  obtain rfl := place_of_locate led
  rw [same.here, twins.here] at stands
  refine bundle bytes ((same.file? _ (by simp)).symm.trans ?_)
  rw [file?, stands]

include apart

theorem agrees_openServer : Agrees r.openServer u u' fun _ v v' =>
    Twins here (behindRoom here (r.Leftover here)
      [r.layout.download .server, r.layout.mappings .server, r.layout.inputJar .server,
        r.layout.librariesDir]) (r.Kept bundles here) v v' ∧
      u.disk.SameBut (· ≠ (r.layout.download .server).place here) v.disk := by
  have input : (r.layout.inputJar .server).Inside here
      (· ≠ (r.layout.download .server).place here) := inside_apart (by decide) (by decide)
  have list : r.layout.librariesList.Inside here (· ≠ (r.layout.download .server).place here) :=
    inside_apart (by decide) (by decide)
  have dir : r.layout.librariesDir.Inside here (· ≠ (r.layout.download .server).place here) :=
    inside_apart (by decide) (by decide)
  have made : r.IsResults [r.layout.download .server, r.layout.mappings .server,
    r.layout.inputJar .server] := isResults_of_starts ⟨_, rfl⟩
  refine .bind_of_ran (Bundle.agrees_extractServer twins (clean_of_mem (by simp)).fresh
    (clearable_result straight short [Side.server.name ++ ".jar"] (by decide)))
    fun _ v v' ran _ twins₁ => ?_
  have same := (Bundle.within_extractServer (r.layout.download .server) input).sameBut twins.here
  rw [ran] at same
  refine .bind_of_ran (Bundle.agrees_libraries twins₁ (keptAt_list straight made (by simp))
    (clean_of_mem (by simp)).fresh apart fun bytes found =>
      (known_of_sameBut bundle twins same found).1) fun libraries x x' ran _ twins₂ => ?_
  have same' := (Bundle.within_libraries (r.layout.download .server) list).sameBut twins₁.here
  rw [ran] at same'
  refine .bind_of_ran (agrees_clear_behind twins₂ (clearable_result straight short ["libraries"]
    (by decide))) fun _ y y' ran _ twins₃ => .pure ⟨twins₃, ?_⟩
  have same'' := (Within.clear dir).sameBut twins₂.here
  rw [show Action.clear _ x = _ from ran] at same''
  exact same.trans (same'.trans same'')

/-- **Taking the bundle apart comes to the same in twins**, and the class path is clean. -/
theorem agrees_unpackServer : Agrees r.unpackServer u u' fun provided v v' =>
    Twins here (behindRoom here (r.Leftover here)
      [r.layout.download .server, r.layout.mappings .server, r.layout.inputJar .server,
        r.layout.librariesDir]) (r.Kept bundles here) v v' ∧
      ∀ file ∈ provided.classpath, Clean here (behindRoom here (r.Leftover here)
        [r.layout.download .server, r.layout.mappings .server, r.layout.inputJar .server,
          r.layout.librariesDir]) file := by
  refine .bind (agrees_openServer straight short apart bundle twins) fun libraries v v' opened => ?_
  obtain ⟨twins₁, same⟩ := opened
  refine .bind (Bundle.agrees_extractLibraries twins₁ (clean_of_mem (by simp)).fresh
    (clean_of_mem (by simp)) (Path.text_join_ne_empty (by decide) _) fun bytes found =>
      (known_of_sameBut bundle twins same found).2) fun files x x' extracted => .pure extracted

end Bundle

omit straight short in
/-- Providing the jars of the tools is steady where nothing in their directory is left over. -/
theorem agrees_provideTools {stale : Place → Prop} {keeps : Place → Option Node → Prop}
    (tools : Clean here stale r.settings.toolsDir)
    (remapper : ∀ p, sourcePath plan.remapper.jar.url = .ok p → Fresh here stale p)
    (decompiler : ∀ p, sourcePath plan.decompiler.jar.url = .ok p → Fresh here stale p)
    (twins : Twins here stale keeps u u') :
    Agrees (r.provideTools plan) u u' fun _ v v' => Twins here stale keeps v v' := by
  have ne : r.settings.toolsDir.text ≠ "" := Path.text_join_ne_empty (by decide) _
  have named : r.settings.toolsDir.parts ≠ [] := by
    rw [Settings.toolsDir, Path.parts_join (by decide)]
    exact List.concat_ne_nil _ _
  have parts (jar : ToolJar) : (r.settings.toolsDir.join jar.fileName).parts ≠ [] := by
    rw [Path.parts_join_of_relative jar.inward_fileName.relative ne]
    exact fun none => named (List.append_eq_nil_iff.mp none).1
  have fresh (jar : ToolJar) : Fresh here stale (r.settings.toolsDir.join jar.fileName) :=
    (tools.join ne jar.inward_fileName).fresh
  have steady : Steady here stale keeps (Batch.ensure
      [plan.remapper.jar.download r.settings.toolsDir,
        plan.decompiler.jar.download r.settings.toolsDir]) := by
    refine Batch.steady_ensure ?_ ?_ ?_ <;> rw [List.forall_mem_cons, List.forall_mem_singleton] <;>
      dsimp only [ToolJar.download]
    · exact ⟨remapper, decompiler⟩
    · exact ⟨fresh plan.remapper.jar, fresh plan.decompiler.jar⟩
    · exact ⟨parts plan.remapper.jar, parts plan.decompiler.jar⟩
  exact .bind (steady.agrees twins) fun _ _ _ twins => .pure twins

/-- **Running a tool comes to the same in twins**, whatever was left of its output, its log, its reports
and its own files. -/
theorem agrees_tool {t : ToolRun} {name : String} {inputs : List Path}
    (listed : name ∈ ["remapped.jar", "decompiled.jar"]) (output : t.output = r.layout.work.join name)
    (made : r.IsResults ps)
    (repeats : t.Repeats s r.settings.java here [r.layout.tempDir, r.layout.reportsDir] inputs)
    (fresh : ∀ p ∈ inputs, Fresh here (behindRoom here (r.Leftover here) ps) p)
    (twins : Twins here (behindRoom here (r.Leftover here) ps) (r.Kept bundles here) u u') :
    Agrees (t.run s r.settings.java) u u' fun _ v v' =>
      Twins here (behindRoom here (r.Leftover here) (ps ++ [t.output])) (r.Kept bundles here) v v' := by
  have facts : ∀ name ∈ ["remapped.jar", "decompiled.jar"], [name] ∈ results ∧
      Path.IsName name ∧ Path.IsName (name ++ ".log") ∧ name ++ ".log" ∈ ownNames ∧
      name ++ ".log" ≠ "libraries.json" := by decide
  obtain ⟨result, named, named', owned, apart⟩ := facts name listed
  have log : (ToolRun.logOf t.output).place here = r.layout.work.place here ++ [name ++ ".log"] := by
    rw [output, ToolRun.place_logOf named named']
  have made' : r.IsResults (ps ++ [t.output]) := by
    refine List.forall_mem_append.mpr ⟨made, List.forall_mem_singleton.mpr ⟨[name], result, ?_⟩⟩
    rw [output, Path.joinAll_singleton]
  have clearable : t.output.Clearable here (r.Leftover here) (r.Kept bundles here) := by
    rw [output, ← Path.joinAll_singleton]
    exact clearable_result straight short _ result
  have own : ∀ p ∈ [ToolRun.logOf t.output, r.layout.tempDir, r.layout.reportsDir],
      ∃ x ∈ ownNames, x ≠ "libraries.json" ∧ p.place here = r.layout.work.place here ++ [x] ∧
        (x = name ++ ".log" ∨ x ∉ ["remapped.jar.log", "decompiled.jar.log"]) := by
    rw [List.forall_mem_cons, List.forall_mem_cons, List.forall_mem_singleton]
    refine ⟨⟨_, owned, apart, log, .inl rfl⟩, ⟨".tmp", by decide, by decide, ?_, .inr (by decide)⟩,
      ⟨"reports", by decide, by decide, ?_, .inr (by decide)⟩⟩ <;>
      exact Path.place_join_of_isName (by decide) _ _
  have logged : ToolRun.logOf t.output ∈ r.logs := by
    rw [output]
    rcases List.mem_cons.mp listed with rfl | listed
    · exact List.mem_cons_self
    · rw [List.mem_singleton.mp listed]
      exact List.mem_cons_of_mem _ List.mem_cons_self
  refine ToolRun.agrees_run twins repeats clearable fresh (fun p among place below => ?_)
    (fun p among place below node plain => ?_) fun kept => kept.logs _ logged rfl rfl
  · obtain ⟨x, owned, -, at_, -⟩ := own p among
    obtain ⟨rest, rfl⟩ := below
    rw [at_, List.append_assoc]
    exact behindRoom_own straight made' owned rest
  · obtain ⟨x, owned, apart, at_, last⟩ := own p among
    obtain ⟨rest, rfl⟩ := below
    rw [at_, List.append_assoc, log] at plain
    rw [at_, List.append_assoc]
    refine kept_own owned apart fun q listed same => plain ?_
    obtain ⟨l, among, at_⟩ := place_logs listed
    rw [at_, List.append_cancel_left_eq] at same
    obtain ⟨rfl, rfl⟩ := List.cons.inj same
    rcases last with rfl | out
    · rfl
    · exact absurd among out

end Stages

/-! ## The whole setup -/

section
variable {u u' : World} (repeatable : Repeatable s r bundles w)
include repeatable

theorem agrees_runTools {classpath : List Path}
    (short : ∀ name ∈ r.dir.parts, name.utf8ByteSize ≤ nameLimit) (server : plan.side = .server)
    (clean : ∀ file ∈ classpath, Clean w.disk.here (behindRoom w.disk.here (r.Leftover w.disk.here)
      [r.layout.download .server, r.layout.mappings .server, r.layout.inputJar .server,
        r.layout.librariesDir]) file)
    (twins : Twins w.disk.here (behindRoom w.disk.here (r.Leftover w.disk.here)
      [r.layout.download .server, r.layout.mappings .server, r.layout.inputJar .server,
        r.layout.librariesDir]) (r.Kept bundles w.disk.here) u u') :
    Agrees (runTools s r plan classpath) u u' fun _ v v' => Twins w.disk.here
      (behindRoom w.disk.here (r.Leftover w.disk.here)
        [r.layout.download .server, r.layout.mappings .server, r.layout.inputJar .server,
          r.layout.librariesDir, r.layout.remapped, r.layout.decompiled])
      (r.Kept bundles w.disk.here) v v' := by
  have jar (jar : ToolJar) (ps : List Path) : Fresh w.disk.here
      (behindRoom w.disk.here (r.Leftover w.disk.here) ps) (r.settings.toolsDir.join jar.fileName) :=
    ((repeatable.tools.join (Path.text_join_ne_empty (by decide) _)
      jar.inward_fileName).fresh).behindRoom _
  have remapped : "remapped.jar" ∈ ["remapped.jar", "decompiled.jar"] := List.mem_cons_self
  have decompiled : "decompiled.jar" ∈ ["remapped.jar", "decompiled.jar"] :=
    List.mem_cons_of_mem _ List.mem_cons_self
  have remapping := agrees_tool repeatable.straight short remapped rfl
    (isResults_of_starts ⟨_, rfl⟩) (repeatable.remapper plan classpath server) ?_ twins
  · rw [show (r.remapperRun plan classpath).output = r.layout.remapped from rfl] at remapping
    refine .bind remapping fun _ v v' twins => ?_
    have decompiling := agrees_tool repeatable.straight short decompiled rfl
      (isResults_of_starts ⟨_, rfl⟩) (repeatable.decompiler plan classpath server) ?_ twins
    · rw [show (r.decompilerRun plan classpath).output = r.layout.decompiled from rfl] at decompiling
      exact .bind decompiling fun _ _ _ twins => .pure twins
    · rw [List.forall_mem_cons, List.forall_mem_cons]
      refine ⟨jar plan.decompiler.jar _, (clean_of_mem (by simp)).fresh, ?_⟩
      exact fun file listed => (clean file listed).fresh.mono fun _ => behindRoom_of_append
  · rw [List.forall_mem_cons, List.forall_mem_cons, List.forall_mem_cons]
    exact ⟨jar plan.remapper.jar _, (clean_of_mem (by simp)).fresh, (clean_of_mem (by simp)).fresh,
      fun file listed => (clean file listed).fresh⟩

/-- **Making everything that the patches need comes to the same in twins.** -/
theorem agrees_prepare (consulted : r.consult w = (.ok (plan, release, m), u))
    (twins : Twins w.disk.here (r.Leftover w.disk.here) (r.Kept bundles w.disk.here) u u') :
    Agrees (prepare s r plan release m) u u' fun _ v v' => Twins w.disk.here
      (behindRoom w.disk.here (r.Leftover w.disk.here)
        [r.layout.download .server, r.layout.mappings .server, r.layout.inputJar .server,
          r.layout.librariesDir, r.layout.remapped, r.layout.decompiled])
      (r.Kept bundles w.disk.here) v v' := by
  have straight := repeatable.straight
  have short := short_of_consult consulted
  obtain ⟨jar, mapped, remapper, decompiler⟩ := repeatable.files consulted
  have server : plan.side = .server := by
    obtain ⟨chosen, w₁, chose, read⟩ := bind_ran_iff.mp consulted
    have same : chosen = (plan, release) := by
      obtain ⟨m', w₂, -, ended⟩ := bind_ran_iff.mp read
      cases ended
      rfl
    exact (repeatable.release (same ▸ chose)).1
  unfold prepare
  refine .bind_of_ran (agrees_downloadInputs straight short server jar mapped twins)
    fun _ v v' fetched _ twins => ?_
  have bundle := repeatable.bundle consulted fetched
  rw [server]
  refine .bind (agrees_unpackServer straight short repeatable.apart bundle twins)
    fun provided x x' unpacked => ?_
  obtain ⟨twins, classpath⟩ := unpacked
  have tools {ps : List Path} : Clean w.disk.here (behindRoom w.disk.here (r.Leftover w.disk.here) ps)
      r.settings.toolsDir := repeatable.tools.mono fun _ left => left.1
  refine .bind (agrees_provideTools tools (fun p path => (remapper p path).behindRoom _)
    (fun p path => (decompiler p path).behindRoom _) twins) fun _ y y' twins => ?_
  refine .bind (agrees_runTools repeatable short server classpath twins) fun _ z z' twins => ?_
  have idle : r.provideAssets plan release m = pure () := by
    unfold provideAssets
    rw [server, if_neg (by simp)]
  rw [idle]
  exact .bind (.pure twins) fun _ _ _ twins => .pure twins

/-- **Setting up agrees in twins.** -/
theorem agrees_run (twins : Twins w.disk.here (r.Leftover w.disk.here) (r.Kept bundles w.disk.here) w w') :
    Agrees (r.run s) w w' fun _ u u' => Twins w.disk.here
      (behindRoom w.disk.here (r.Leftover w.disk.here)
        [r.layout.download .server, r.layout.mappings .server, r.layout.inputJar .server,
          r.layout.librariesDir, r.layout.remapped, r.layout.decompiled, r.layout.rejects])
      (r.Kept bundles w.disk.here) u u' := by
  have straight := repeatable.straight
  have own : ∀ name ∈ ["patches"], Path.IsName name := by decide
  have sources : ∀ name ∈ ["src", "main", "java"], Path.IsName name := by decide
  have patches : Clean w.disk.here (r.Leftover w.disk.here) r.layout.patches :=
    clean_beside straight (by decide) own
  have output : Clean w.disk.here (r.Leftover w.disk.here) r.layout.workingTree :=
    clean_beside straight (by decide) sources
  have place : r.layout.workingTree.place w.disk.here =
      r.dir.place w.disk.here ++ ["src", "main", "java"] := Path.place_joinAll sources r.dir w.disk.here
  refine .bind_of_ran (agrees_consult repeatable twins) fun found u u' consulted _ twins => ?_
  obtain ⟨plan, release, m⟩ := found
  have short := short_of_consult consulted
  refine .bind (agrees_prepare repeatable consulted twins) fun libraries v v' twins => ?_
  refine .bind (PatchApplication.agrees_run twins (clean_of_mem (by simp))
    (patches.mono fun _ left => left.1) (output.fresh.behindRoom _) (Path.text_join_ne_empty (by decide) _)
    ?_ (clearable_result straight short ["failed_patches.zip"] (by decide)))
    fun _ _ _ twins => .pure twins
  intro other below left
  have around : (r.layout.workingTree.place w.disk.here).dropLast =
      r.dir.place w.disk.here ++ ["src", "main"] := by
    rw [place]
    exact List.dropLast_append_of_ne_nil (by simp)
  obtain ⟨rest, rfl⟩ := around ▸ below
  rw [List.append_assoc] at left
  exact not_leftover_of_ne (by decide) left.1

end

/-! ## A setup behind another one -/

/-- The place of what builds make in the version directory. -/
def demoWork : Place := ["ws", "versions", "1.20", "build", "remold"]

/-- The world with what an earlier setup left: sources that a tool made. -/
def demoLeft : World := demoWorld.withDisk (((demoWorld.disk.put demoWork.dropLast .dir).put
  demoWork .dir).put (demoWork ++ ["decompiled.jar"]) (.file "stale".toUTF8))

/-- Which bundles were downloaded before. -/
def demoBundles (bundle : ByteArray) : Prop := bundle = "bundle".toUTF8

theorem twins_demo : Twins demoWorld.disk.here (demo.Leftover demoWorld.disk.here)
    (demo.Kept demoBundles demoWorld.disk.here) demoWorld demoLeft := by
  have build : (demo.dir.join "build").place demoWorld.disk.here = demoWork.dropLast := by decide +kernel
  have work : demo.layout.work.place demoWorld.disk.here = demoWork := by decide +kernel
  have free : demoWorld.disk.at? demoWork.dropLast = none := by decide +kernel
  have tree : demoWorld.disk.IsTree := by decide +kernel
  have bare : ∀ place, demo.Leftover demoWorld.disk.here place → demoWorld.disk.at? place = none := by
    rintro place (rfl | below)
    · rwa [build]
    · rw [work] at below
      obtain ⟨rest, rfl⟩ := (List.dropLast_prefix demoWork).trans below
      exact tree.none_of_append free rest
  have none (place : Place) : demo.Kept demoBundles demoWorld.disk.here place none :=
    ⟨fun _ _ _ _ => by nofun, fun _ _ _ => by nofun, fun _ => .none⟩
  have dirs (place : Place) (listed : place ∈ [demoWork.dropLast, demoWork]) :
      demo.Kept demoBundles demoWorld.disk.here place (some .dir) := by
    have apart : ∀ place ∈ [demoWork.dropLast, demoWork], (∀ p ∈ demo.logs,
        place ≠ p.place demoWorld.disk.here) ∧
          place ≠ demo.layout.librariesList.place demoWorld.disk.here := by decide +kernel
    obtain ⟨logs, list⟩ := apart place listed
    exact ⟨fun _ _ _ _ => by nofun, fun p among at_ => absurd at_ (logs p among),
      fun at_ => absurd at_ list⟩
  have file : demo.Kept demoBundles demoWorld.disk.here (demoWork ++ ["decompiled.jar"])
      (some (.file "stale".toUTF8)) := by
    have apart : (∀ p ∈ demo.trunk, demoWork ++ ["decompiled.jar"] ≠ p.place demoWorld.disk.here) ∧
        demoWork ++ ["decompiled.jar"] ≠ demo.layout.librariesList.place demoWorld.disk.here := by
      decide +kernel
    exact ⟨fun p among at_ => absurd at_ (apart.1 p among), fun _ _ _ => by nofun,
      fun at_ => absurd at_ apart.2⟩
  have left : ∀ place, demoLeft.disk.at? place = demoWorld.disk.at? place ∨
      demo.Leftover demoWorld.disk.here place ∧
        demo.Kept demoBundles demoWorld.disk.here place (demoLeft.disk.at? place) := by
    intro place
    rw [demoLeft, World.withDisk_disk, at?_put_eq _ (by decide), at?_put_eq _ (by decide),
      at?_put_eq _ (by decide)]
    split
    · rename_i same
      subst same
      exact .inr ⟨.inr (work ▸ List.prefix_append _ _), file⟩
    split
    · rename_i same
      subst same
      exact .inr ⟨.inr (work ▸ List.prefix_rfl), dirs _ (by simp)⟩
    split
    · rename_i same
      subst same
      exact .inr ⟨.inl build.symm, dirs _ (by simp)⟩
    · exact .inl rfl
  refine ⟨rfl, tree, by decide +kernel, rfl, fun place fresh => ?_, fun place stale => ?_,
    fun place _ => none place⟩
  · exact (left place).resolve_right fun found => fresh found.1
  · refine ⟨bare place stale ▸ none place, ?_⟩
    rcases left place with same | found
    · rw [same, bare place stale]
      exact none place
    · exact found.2

/-- A tool that does nothing makes the same of the same. -/
theorem repeats_idle (t : ToolRun) (java : String) (own inputs : List Path) :
    t.Repeats demoSurroundings java here own inputs := by
  refine ⟨fun _ _ => rfl, fun _ _ tree => tree, fun _ _ _ _ _ => rfl, fun _ _ _ vacant => vacant, ?_⟩
  intro past past' d d' tree tree' _ _ read way free _ _
  have at_ : stopFrom here t.output t.output.parts = t.output.place here := by
    rw [stopFrom, Path.foldl_parts, Path.place]
  have free' : d'.at? (t.output.place here) = none := by
    rw [← at_, way _ List.prefix_rfl, at_, free]
  refine ⟨rfl, fun place below => ?_⟩
  obtain ⟨rest, rfl⟩ := below
  exact (tree'.none_of_append free' rest).trans (tree.none_of_append free rest).symm

/-- What leads past the build directory is clean. -/
theorem clean_demo {p : Path} (straight : ".." ∉ p.parts)
    (apart : ¬ demoWork.dropLast <+: p.place demoWorld.disk.here)
    (apart' : ¬ p.place demoWorld.disk.here <+: demoWork.dropLast) :
    Clean demoWorld.disk.here (demo.Leftover demoWorld.disk.here) p := by
  have build : (demo.dir.join "build").place demoWorld.disk.here = demoWork.dropLast := by decide +kernel
  have work : demo.layout.work.place demoWorld.disk.here = demoWork := by decide +kernel
  refine (clean_of_apart straight apart apart').mono ?_
  rintro place (rfl | below)
  · exact build ▸ List.prefix_rfl
  · exact (List.dropLast_prefix demoWork).trans (work ▸ below)

theorem repeatable_demo : Repeatable demoSurroundings demo demoBundles demoWorld := by
  have refused : ∀ {found w₁}, demo.consult demoWorld ≠ (.ok found, w₁) := by
    intro found w₁ consulted
    have mismatch := refused_demo.2
    rw [consulted] at mismatch
    cases mismatch
  have sourced {url : String} {p : Path} (leads : (sourcePath url).toOption = some p)
      (clean : Clean demoWorld.disk.here (demo.Leftover demoWorld.disk.here) p) :
      demo.Sourced demoWorld.disk.here url := by
    intro q path
    rw [path] at leads
    exact Option.some.inj leads ▸ clean.fresh
  refine ⟨by decide, clean_demo (by decide) (by decide +kernel) (by decide +kernel),
    clean_demo (by decide) (by decide +kernel) (by decide +kernel),
    sourced (p := ⟨"/catalog.json"⟩) (by decide +kernel)
      (clean_demo (by decide) (by decide +kernel) (by decide +kernel)),
    fun chosen => ?_, fun consulted => absurd consulted refused,
    fun consulted => absurd consulted refused, fun a b known known' _ => known.trans known'.symm,
    fun _ _ _ => repeats_idle _ _ _ _, fun _ _ _ => repeats_idle _ _ _ _⟩
  have listed := refused_demo.1
  rw [chosen] at listed
  obtain ⟨side, rfl⟩ := Prod.mk.inj (Option.some.inj listed)
  exact ⟨side, Path.inward_of_slashless (by decide) (by decide),
    sourced (p := ⟨"/1.20.json"⟩) (by decide +kernel)
      (clean_demo (by decide) (by decide +kernel) (by decide +kernel))⟩

end SetupRequest
end Patchwork
