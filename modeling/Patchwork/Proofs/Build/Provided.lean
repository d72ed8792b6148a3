import Patchwork.Proofs.Build.Spared
import Patchwork.Proofs.Download.Kept

/-! What a setup provides for its tools.  The class path of a client lists what is kept in the cache
first, and so it is in the order of the manifest just where nothing that is kept stands behind something
that is not (`SetupRequest.classpath_keptFirst`).  The jars of both tools lie in one directory, under names
made of their coordinates.  One of the tools runs from the jar with its digest in any case; both do just
where the names differ or the digests agree (`SetupRequest.ownJars_iff`). -/

namespace Patchwork
open Patchwork.Action Disk

namespace Placeholders
variable {name other : String}

/-- The value of a name that was set to paths. -/
theorem get?_setPaths (v : Placeholders) (name : String) (ps : List Path) :
    (v.setPaths name ps).get? name = some (":".intercalate (ps.map Path.text)) :=
  Std.TreeMap.getElem?_insert_self

theorem get?_set (ne : other ≠ name) (v : Placeholders) (value : String) :
    (v.set other value).get? name = v.get? name := by
  unfold set get?
  rw [Std.TreeMap.getElem?_insert, if_neg (mt Std.LawfulEqCmp.eq_of_compare ne)]

end Placeholders

namespace ToolJar
variable {jar jar' : ToolJar} {d : Disk} {p : Path}

/-- The digest that a jar must have. -/
def checksum (jar : ToolJar) : Checksum := .of .sha256 jar.sha256

/-- **Whether the file behind a path is the jar of a tool**, as far as its digest tells. -/
def IsAt (jar : ToolJar) (d : Disk) (p : Path) : Prop :=
  ∃ bytes, d.find p = .ok (.file bytes) ∧ jar.checksum.accepts (DigestAlgorithm.sha256.compute bytes)

/-- One file is the jar of two tools only where their digests agree. -/
theorem IsAt.checksum_eq (at_ : jar.IsAt d p) (at' : jar'.IsAt d p) : jar.checksum = jar'.checksum := by
  obtain ⟨bytes, found, accepted⟩ := at_
  obtain ⟨bytes', found', accepted'⟩ := at'
  cases found.symm.trans found'
  rw [Checksum.accepts_compute_iff] at accepted accepted'
  unfold checksum Checksum.of at accepted accepted' ⊢
  rw [Text.toLower_toLower] at accepted accepted'
  rw [accepted, accepted']

theorem target_download (jar : ToolJar) (tools : Path) :
    (jar.download tools).target = tools.join jar.fileName := by
  dsimp only [download]

/-- Jars under different names are apart in every directory. -/
theorem targetsApart_download {here : Place} (tools : Path) (ne : jar.fileName ≠ jar'.fileName) :
    TargetsApart here (jar.download tools) (jar'.download tools) := by
  have apart : ∀ jar jar' : ToolJar, jar.fileName ≠ jar'.fileName →
      ¬ tools.place here ++ [jar.fileName] <+: tools.place here ++ [jar'.fileName] := by
    intro jar jar' ne above
    rw [List.prefix_append_right_inj] at above
    exact ne (List.cons.inj (above.eq_of_length rfl)).1
  unfold TargetsApart
  rw [target_download, target_download, Path.place_join_of_isName jar.isName_fileName,
    Path.place_join_of_isName jar'.isName_fileName]
  exact ⟨apart _ _ ne, apart _ _ ne.symm⟩

/-- Whether the path of a jar keeps out of some places is decided by the directory. -/
theorem avoids_download_iff {places : Place → Prop} (tools : Path) :
    (jar.download tools).Avoids d places ↔ ∀ front, front <+: tools.parts →
      ∀ place, places place → ¬ place <+: d.stop tools front := by
  have parts := Path.parts_join jar.isName_fileName tools
  have stop : ∀ front, d.stop (tools.join jar.fileName) front = d.stop tools front := by
    intro front
    rw [Disk.stop, Disk.stop, Disk.start, Disk.start, Path.isAbsolute_join jar.isName_fileName]
  unfold Download.Avoids
  rw [target_download, parts]
  constructor
  · intro avoids front above
    rw [← stop]
    refine avoids front (above.trans (List.prefix_append _ _)) fun whole => ?_
    have longer := above.length_le
    rw [whole, List.length_append, List.length_singleton] at longer
    omega
  · intro avoids front above proper
    rw [stop]
    refine avoids front ?_
    have above' := Disk.prefix_dropLast above proper
    rwa [List.dropLast_concat] at above'

end ToolJar

namespace SetupRequest
variable {r : SetupRequest} {plan : SetupPlan} {m : Manifest} {w w' : World} {schedule : Nat → List Nat}

/-! ## The class path of a client -/

/-- The downloads of the libraries of a client. -/
def libraryDownloads (r : SetupRequest) (m : Manifest) : List Download :=
  m.libraryJars.map (LibraryJar.download · r.settings.librariesDir)

/-- Copies the jar of a client to the place where the tools look for it. -/
def copyClient (r : SetupRequest) : Action Unit := do
  let input := r.layout.inputJar .client
  Action.clear input
  let bytes ← Action.ask (.copyingTo input.text) (·.read (r.layout.download .client))
  Action.change (.copyingTo input.text) (·.write input bytes)

/-- Copies the jar of a client and downloads its libraries, by the schedule for so many downloads. -/
def provideClientBy (schedule : Nat → List Nat) (r : SetupRequest) (m : Manifest) :
    Action ProvidedLibraries := do
  r.copyClient
  let artifacts ← Batch.ensureBy schedule (r.libraryDownloads m)
  return ⟨m.libraries.map Library.name, artifacts.map Artifact.path⟩

theorem provideClient_eq (r : SetupRequest) (m : Manifest) :
    r.provideClient m = provideClientBy Batch.inOrder r m := by
  simp only [provideClient, provideClientBy, copyClient, bind_assoc]
  rfl

/-- Both tools are given the class path. -/
theorem get?_inputClasspath (r : SetupRequest) (plan : SetupPlan) (classpath : List Path) :
    ∀ run ∈ [r.remapperRun plan classpath, r.decompilerRun plan classpath],
      run.values.get? "inputClasspath" = some (":".intercalate (classpath.map Path.text)) := by
  have common : (r.commonValues classpath).get? "inputClasspath" =
      some (":".intercalate (classpath.map Path.text)) := by
    rw [commonValues, Placeholders.setPath, Placeholders.setPath, Placeholders.get?_set (by decide),
      Placeholders.get?_set (by decide), Placeholders.get?_setPaths]
  rintro run (_ | ⟨_, _ | ⟨_, ⟨⟩⟩⟩)
  · simp only [remapperRun, toolRun, Placeholders.setPath?, Placeholders.setPath]
    simpa [Placeholders.get?_set] using common
  · simp only [decompilerRun, toolRun, Placeholders.setPath]
    simpa [Placeholders.get?_set] using common

/-- **The class path of a client has the libraries first that were kept.** A batch that keeps what is in
place answers for what it keeps first; its answers are in the order of the requests, where these have
distinct targets, just where nothing that is kept stands behind something that is not.  So it is with
the class path that both tools are given, and with the order of the manifest. -/
theorem classpath_keptFirst (turns : ∀ n, ∀ i < n, 3 ≤ (schedule n).count i) :
    (∀ rs w as w', Batch.ensureBy schedule rs w = (.ok as, w') →
      List.Forall₂ Download.Answers (Batch.keptFirst w.disk rs) as ∧
        ((rs.map Download.target).Nodup →
          (List.Forall₂ Download.Answers rs as ↔ Batch.KeptInFront w.disk rs))) ∧
    ∀ r m w libraries w', provideClientBy schedule r m w = (.ok libraries, w') →
      (∀ plan, ∀ run ∈ [r.remapperRun plan libraries.classpath, r.decompilerRun plan libraries.classpath],
        run.values.get? "inputClasspath" =
          some (":".intercalate (libraries.classpath.map Path.text))) ∧
      ∃ w₁, r.copyClient w = (.ok (), w₁) ∧
        libraries.classpath = (Batch.keptFirst w₁.disk (r.libraryDownloads m)).map Download.target ∧
        (((r.libraryDownloads m).map Download.target).Nodup →
          (libraries.classpath = (r.libraryDownloads m).map Download.target ↔
            Batch.KeptInFront w₁.disk (r.libraryDownloads m))) := by
  have answers : ∀ {rs w as w'}, Batch.ensureBy schedule rs w = (.ok as, w') →
      List.Forall₂ Download.Answers (Batch.keptFirst w.disk rs) as := fun ran =>
    Batch.answers_ensureBy (Batch.finishes_of_turns (turns _) _) ran
  constructor
  · exact fun rs w as w' ran => ⟨answers ran, fun distinct => Batch.answers_iff (answers ran) distinct⟩
  · intro r m w libraries w' ran
    refine ⟨fun plan => get?_inputClasspath r plan _, ?_⟩
    obtain ⟨_, w₁, copied, ran⟩ := bind_ran_iff.mp ran
    obtain ⟨as, w₂, ran, ended⟩ := bind_ran_iff.mp ran
    cases ended
    refine ⟨w₁, copied, Batch.map_path_of_answers (answers ran), fun distinct => ?_⟩
    dsimp only
    rw [Batch.map_path_of_answers (answers ran)]
    exact Batch.map_keptFirst_eq_iff distinct

/-- Requests of which the second one is kept. -/
def demoLate : List Download := [⟨"file:///src.txt", ⟨"/o/g"⟩, none⟩, Download.demo]

theorem isKept_demo : Download.demo.isKept Download.demoDisk := by
  have accepted := @Checksum.accepts_of_eq "hello".toUTF8 Download.demoDigest (by decide +kernel)
  exact Download.isKept_iff.mpr ⟨Download.demoDigest, "hello".toUTF8, rfl, rfl, accepted⟩

theorem classpath_keptFirst_demo : (∀ n, ∀ i < n, 3 ≤ (Batch.inOrder n).count i) ∧
    ∃ as w', Batch.ensureBy Batch.inOrder demoLate Batch.demoWorld = (.ok as, w') ∧
      List.Forall₂ Download.Answers (Batch.keptFirst Batch.demoWorld.disk demoLate) as ∧
      ¬ List.Forall₂ Download.Answers demoLate as := by
  have turns : ∀ n, ∀ i < n, 3 ≤ (Batch.inOrder n).count i := fun _ _ => Batch.le_count_inOrder
  have pending : Batch.pending Batch.demoWorld.disk demoLate =
      [⟨"file:///src.txt", ⟨"/o/g"⟩, none⟩] := by
    have kept : Download.demo.isKept Batch.demoWorld.disk = true := isKept_demo
    unfold Batch.pending demoLate
    rw [List.filter_cons_of_pos rfl, List.filter_cons_of_neg (by rw [kept]; decide), List.filter_nil]
  obtain ⟨reused, -, apply⟩ := Batch.ensureBy_apply Batch.inOrder demoLate Batch.demoWorld
  have fetched : (Batch.fetchBy (Batch.inOrder 1) [⟨"file:///src.txt", ⟨"/o/g"⟩, none⟩]
      Batch.demoWorld).1.isOk := by decide +kernel
  refine ⟨turns, ?_⟩
  rw [pending] at apply
  rcases downloaded : Batch.fetchBy (Batch.inOrder 1) [⟨"file:///src.txt", ⟨"/o/g"⟩, none⟩]
      Batch.demoWorld with ⟨e | as, w'⟩ <;> rw [downloaded] at fetched
  · cases fetched
  · have ran : Batch.ensureBy Batch.inOrder demoLate Batch.demoWorld = (.ok (reused ++ as), w') :=
      apply.trans (bind_of_ok downloaded _)
    obtain ⟨answers, inOrder⟩ := (classpath_keptFirst turns).1 _ _ _ _ ran
    refine ⟨reused ++ as, w', ran, answers, fun same => ?_⟩
    have front := (inOrder (by decide)).mp same
    unfold Batch.KeptInFront demoLate at front
    exact absurd (List.pairwise_pair.mp front isKept_demo) (by decide)

/-! ## The jars of the tools -/

/-- The downloads of the jars of both tools. -/
def toolDownloads (r : SetupRequest) (plan : SetupPlan) : List Download :=
  [plan.remapper.jar.download r.settings.toolsDir, plan.decompiler.jar.download r.settings.toolsDir]

/-- Provides the jars of both tools, by the schedule for so many downloads. -/
def provideToolsBy (schedule : Nat → List Nat) (r : SetupRequest) (plan : SetupPlan) : Action Unit := do
  let _ ← Batch.ensureBy schedule (r.toolDownloads plan)

theorem provideTools_eq (r : SetupRequest) (plan : SetupPlan) :
    r.provideTools plan = provideToolsBy Batch.inOrder r plan := rfl

section
variable (turns : ∀ n, ∀ i < n, 3 ≤ (schedule n).count i) (tree : w.disk.IsTree)
  (ran : provideToolsBy schedule r plan w = (.ok (), w'))
include turns tree ran

/-- Jars under different names are both in place. -/
theorem isAt_of_apart (ne : plan.remapper.jar.fileName ≠ plan.decompiler.jar.fileName) :
    plan.remapper.jar.IsAt w'.disk (r.settings.toolsDir.join plan.remapper.jar.fileName) ∧
      plan.decompiler.jar.IsAt w'.disk (r.settings.toolsDir.join plan.decompiler.jar.fileName) := by
  obtain ⟨as, w₁, ran, ended⟩ := bind_ran_iff.mp ran
  cases ended
  have shared : ∀ d ∈ r.toolDownloads plan, d.Avoids w.disk (· = d.target.place w.disk.here) →
      ∀ d' ∈ r.toolDownloads plan, d'.Avoids w.disk (· = d.target.place w.disk.here) := by
    have jars : ∀ d ∈ r.toolDownloads plan, ∃ jar : ToolJar, d = jar.download r.settings.toolsDir := by
      rintro d (_ | ⟨_, _ | ⟨_, ⟨⟩⟩⟩) <;> exact ⟨_, rfl⟩
    intro d listed around d' listed'
    obtain ⟨jar, rfl⟩ := jars d listed
    obtain ⟨jar', rfl⟩ := jars d' listed'
    rw [ToolJar.avoids_download_iff] at around ⊢
    exact around
  have apart : (r.toolDownloads plan).Pairwise (TargetsApart w.disk.here) :=
    List.pairwise_pair.mpr (ToolJar.targetsApart_download _ ne)
  have inPlace := Batch.inPlace_ensureBy tree apart shared (Batch.finishes_of_turns (turns _) _) ran
  obtain ⟨bytes, there⟩ := inPlace _ List.mem_cons_self plan.remapper.jar.checksum rfl
  obtain ⟨bytes', there'⟩ :=
    inPlace _ (List.mem_cons_of_mem _ List.mem_cons_self) plan.decompiler.jar.checksum rfl
  have found := there.file
  have found' := there'.file
  rw [ToolJar.target_download] at found found'
  exact ⟨⟨bytes, found, there.accepted⟩, ⟨bytes', found', there'.accepted⟩⟩

/-- Of jars under one name, one is in place. -/
theorem isAt_of_shared (same : plan.remapper.jar.fileName = plan.decompiler.jar.fileName) :
    plan.remapper.jar.IsAt w'.disk (r.settings.toolsDir.join plan.remapper.jar.fileName) ∨
      plan.decompiler.jar.IsAt w'.disk (r.settings.toolsDir.join plan.remapper.jar.fileName) := by
  obtain ⟨as, w₁, ran, ended⟩ := bind_ran_iff.mp ran
  cases ended
  have one : ∀ d ∈ r.toolDownloads plan,
      d.target = r.settings.toolsDir.join plan.remapper.jar.fileName := by
    rintro d (_ | ⟨_, _ | ⟨_, ⟨⟩⟩⟩) <;> rw [ToolJar.target_download]
    rw [same]
  obtain ⟨d, listed, bytes, a, found, checked⟩ := Batch.passes_ensureBy tree one (List.cons_ne_nil _ _)
    (Batch.finishes_of_turns (turns _) _) ran
  rcases listed with _ | ⟨_, _ | ⟨_, ⟨⟩⟩⟩
  · exact .inl ⟨bytes, found,
      ((Download.check_eq_ok_iff (e := plan.remapper.jar.checksum) rfl).mp checked).1⟩
  · exact .inr ⟨bytes, found,
      ((Download.check_eq_ok_iff (e := plan.decompiler.jar.checksum) rfl).mp checked).1⟩

/-- **Which tools run from their own jars.**  By whatever schedule the jars are provided, and whatever was
kept of them before, the file that one of the tools runs from has the digest of that tool's jar; and so
it is with both of them just where their jars have different names or agree in their digests. -/
theorem ownJars_iff (classpath : List Path) :
    (plan.remapper.jar.IsAt w'.disk (r.remapperRun plan classpath).jar ∨
      plan.decompiler.jar.IsAt w'.disk (r.decompilerRun plan classpath).jar) ∧
    (plan.remapper.jar.IsAt w'.disk (r.remapperRun plan classpath).jar ∧
        plan.decompiler.jar.IsAt w'.disk (r.decompilerRun plan classpath).jar ↔
      (plan.remapper.jar.fileName = plan.decompiler.jar.fileName →
        plan.remapper.jar.checksum = plan.decompiler.jar.checksum)) := by
  dsimp only [remapperRun, decompilerRun, toolRun]
  by_cases same : plan.remapper.jar.fileName = plan.decompiler.jar.fileName
  · have one := isAt_of_shared turns tree ran same
    rw [← same]
    refine ⟨one, fun both _ => both.1.checksum_eq both.2, fun agree => ?_⟩
    have agree := agree rfl
    unfold ToolJar.IsAt at one ⊢
    rw [agree] at one ⊢
    exact ⟨one.elim id id, one.elim id id⟩
  · have both := isAt_of_apart turns tree ran same
    exact ⟨.inl both.1, fun _ same' => absurd same' same, fun _ => both⟩

end

/-- A disk with the jars of two tools in the cache. -/
def demoJars : World where
  disk := ((((Disk.empty.put ["cache"] .dir).put ["cache", "tools"] .dir).put
    ["cache", "tools", "a_r.jar"] (.file "one".toUTF8)).put
      ["cache", "tools", "a_d.jar"] (.file "two".toUTF8))
  gitCalls := []
  launches := []

/-- The two tools. -/
def demoTools : SetupPlan where
  version := "1.20"
  side := .server
  remapper := ⟨⟨"a:r", "file:///r.jar",
    "7692c3ad3540bb803c020b3aee66cd8887123234ea0c6e7143c0add73ff431ed", none⟩, []⟩
  decompiler := ⟨⟨"a:d", "file:///d.jar",
    "3fc4ccfe745870e2c0d99f71f30ff0656c8dedd41cc1d7d3d376b0dbe685e2f3", none⟩, []⟩

theorem ownJars_demo : (∀ n, ∀ i < n, 3 ≤ (Batch.inOrder n).count i) ∧ demoJars.disk.IsTree ∧
    provideToolsBy Batch.inOrder demo demoTools demoJars = (.ok (), demoJars) ∧
      demoTools.remapper.jar.IsAt demoJars.disk (demo.remapperRun demoTools []).jar ∧
      demoTools.decompiler.jar.IsAt demoJars.disk (demo.decompilerRun demoTools []).jar := by
  have turns : ∀ n, ∀ i < n, 3 ≤ (Batch.inOrder n).count i := fun _ _ => Batch.le_count_inOrder
  have tree : demoJars.disk.IsTree := by decide +kernel
  have kept : ∀ d ∈ demo.toolDownloads demoTools, d.isKept demoJars.disk := by
    have one := @Checksum.accepts_of_eq "one".toUTF8 demoTools.remapper.jar.checksum (by decide +kernel)
    have two := @Checksum.accepts_of_eq "two".toUTF8 demoTools.decompiler.jar.checksum (by decide +kernel)
    rintro d (_ | ⟨_, _ | ⟨_, ⟨⟩⟩⟩)
    · exact Download.isKept_iff.mpr ⟨demoTools.remapper.jar.checksum, "one".toUTF8, rfl, rfl, one⟩
    · exact Download.isKept_iff.mpr ⟨demoTools.decompiler.jar.checksum, "two".toUTF8, rfl, rfl, two⟩
  have pending : Batch.pending demoJars.disk (demo.toolDownloads demoTools) = [] :=
    List.filter_eq_nil_iff.mpr fun d listed => by rw [kept d listed]; decide
  obtain ⟨reused, -, apply⟩ := Batch.ensureBy_apply Batch.inOrder (demo.toolDownloads demoTools) demoJars
  rw [pending] at apply
  have ran : provideToolsBy Batch.inOrder demo demoTools demoJars = (.ok (), demoJars) :=
    bind_of_ok apply _
  obtain ⟨-, both⟩ := ownJars_iff turns tree ran []
  exact ⟨turns, tree, ran, both.mpr fun same => absurd same (by decide +kernel)⟩

end SetupRequest
end Patchwork
