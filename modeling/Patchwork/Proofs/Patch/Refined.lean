import Patchwork.Patch.Files
import Patchwork.Proofs.Archive.Kept
import Patchwork.Proofs.Patch.Framed

/-! Applications of patches on the disk.  Where applying a set to the baseline succeeds, the tree at
the output is the one that applying the set in memory makes, and the archive of rejects is the one
that it collects, with nothing else in either of them (`PatchApplication.refines_of_run`).  The copy
that is made when there are no patches comes to the same (`PatchApplication.storedAt_copyBaseline`): an
archive that is copied as it is holds the tree that would be written. -/

namespace Patchwork

/-- **Whether the places of two paths lie apart**: none of them is at or below the other. -/
structure Disk.Apart (d : Disk) (p q : Path) : Prop where
  above : ¬ p.place d.here <+: q.place d.here
  below : ¬ q.place d.here <+: p.place d.here

instance (d : Disk) (p q : Path) : Decidable (d.Apart p q) :=
  decidable_of_iff (¬ p.place d.here <+: q.place d.here ∧ ¬ q.place d.here <+: p.place d.here)
    ⟨fun apart => ⟨apart.1, apart.2⟩, fun apart => ⟨apart.above, apart.below⟩⟩

theorem PatchSet.asks_load (dir : Path) : (PatchSet.load dir).Asks := by
  refine .bind (fun _ => rfl) fun found => ?_
  split
  · exact .bind (.filesBelow dir) fun _ => .ofOutcome _
  · exact .pure _

/-- Without patches the tree stays as it was. -/
theorem PatchSet.apply_of_isEmpty {s : PatchSet} (none : s.isEmpty) (baseline : FileMap)
    (tolerance : Tolerance) : s.apply baseline tolerance = ⟨baseline, [], ∅⟩ := by
  have empty : s.toList = [] := by
    rw [toList, List.map_eq_nil_iff, ← List.isEmpty_iff, Std.TreeMap.isEmpty_toList]
    exact none
  rw [apply, empty]
  rfl

namespace PatchSummary
variable {reports : List PatchReport} {rejects : Path}

/-- **A summary is a failure** exactly when some patch did not apply in full. -/
theorem toOutcome_of : (of reports rejects).toOutcome = .ok () ↔ ∀ r ∈ reports, r.isFailed = false := by
  have success : (of reports rejects).isSuccess = true ↔ ∀ r ∈ reports, r.isFailed = false := by
    simp [isSuccess, of, List.filter_eq_nil_iff]
  rw [← success, toOutcome, failure?]
  split
  · rename_i none
    split at none
    · rename_i success
      simp [success]
    · cases none
  · rename_i e some
    split at some
    · cases some
    · rename_i fails
      simp [fails]

end PatchSummary

namespace PatchApplication
open Path Disk
variable {r : PatchApplication} {baseline : FileMap} {set : PatchSet} {summary : PatchSummary}
  {w w' : World}

/-- **What an application reads**: the baseline's tree and the set of patches. -/
structure Reads (r : PatchApplication) (w : World) (baseline : FileMap) (set : PatchSet) : Prop where
  baseline : (TreeHome.of w.disk r.baseline).read w = (.ok baseline, w)
  set : PatchSet.load r.patches w = (.ok set, w)

/-- **Whether an application can replace what is where it writes.**  A path that leads back may lead
nowhere until the directories on its way are made. -/
structure Laid (r : PatchApplication) (d : Disk) : Prop where
  straight : ".." ∉ r.output.parts
  straight' : ".." ∉ r.rejects.parts
  named : r.output.text ≠ ""
  named' : r.rejects.text ≠ ""
  apart : d.Apart r.baseline r.output
  apart' : d.Apart r.output r.rejects

/-- **What a finished application left**: at the output the tree that applying the patches makes, in
the archive of rejects what it rejects, and in the summary what it reports. -/
structure Refines (r : PatchApplication) (run : TreeRun) (summary : PatchSummary) (w w' : World) :
    Prop where
  stores : (TreeHome.of w.disk r.output).Stores w'.disk run.tree.toList
  output : TreeHome.of w'.disk r.output = TreeHome.of w.disk r.output
  tree : ∃ tree, (TreeHome.of w'.disk r.output).read w' = (.ok tree, w') ∧
    ∀ path : String, tree[path]? = run.tree[path]?
  rejects : ∃ rejects, Archive.read r.rejects w' = (.ok rejects, w') ∧
    ∀ name : String, rejects[name]? = run.rejects[name]?
  reports : summary.reports = run.reports
  changed : summary.changed = run.reports.countP fun report => !report.isFailed
  failed : summary.failed = run.reports.countP PatchReport.isFailed
  success : summary.toOutcome = .ok () ↔ ∀ report ∈ run.reports, report.isFailed = false

/-! ## The copy without patches -/

/-- **Copying the baseline** stores its tree at the output. -/
theorem storedAt_copyBaseline {home home' : TreeHome} (tree : w.disk.IsTree)
    (straight : ".." ∉ home'.path.parts) (ne : home'.path.text ≠ "")
    (apart : w.disk.Apart home.path home'.path) (keepable : home'.Keepable baseline)
    (read : home.read w = (.ok baseline, w)) (ran : copyBaseline home home' w = (.ok (), w')) :
    home'.StoredAt baseline.toList w.disk w'.disk := by
  have written : (do home'.write (← home.read)) w = (.ok (), w') →
      home'.StoredAt baseline.toList w.disk w'.disk := by
    intro ran
    rw [Action.bind_of_ok read] at ran
    exact TreeHome.storedAt_write tree straight ne keepable ran
  cases home with
  | folder source => exact written ran
  | archive source =>
    cases home' with
    | folder target => exact written ran
    | archive target =>
      obtain ⟨bytes, found, holds⟩ := Archive.holds_of_read read
      obtain ⟨_, w₁, cleared, ran⟩ := Action.bind_ran_iff.mp ran
      obtain ⟨bytes', w₂, asked, ran⟩ := Action.bind_ran_iff.mp ran
      have roomy := roomy_of_clear tree straight ne cleared
      rw [Action.ask_apply] at asked
      rcases copied : w₁.disk.read source with e | copied' <;> rw [copied] at asked <;> cases asked
      -- the source lies elsewhere, so it is still what it was before the target was cleared
      have same : bytes' = bytes := by
        obtain ⟨-, -, -, before⟩ := find_file_iff.mp found
        obtain ⟨-, -, -, after⟩ := find_file_iff.mp (read_eq_ok_iff.mp copied)
        have still := roomy.quiet.at?_eq apart.below apart.above
        rw [TreeHome.path, roomy.quiet.here] at *
        rw [still, before] at after
        exact (Node.file.inj (Option.some.inj after)).symm
      subst same
      have replaced := replaced_of_write roomy ran
      exact ⟨replaced.tree, replaced.quiet, bytes', replaced.found, holds⟩

/-! ## Applications -/

/-- **What an application does behind reading**: it stores the tree that applying the patches makes,
and then the rejects, and tells what became of the patches. -/
theorem storedAt_of_run (tree : w.disk.IsTree) (reads : r.Reads w baseline set)
    (laid : r.Laid w.disk)
    (keepable : (TreeHome.of w.disk r.output).Keepable (set.apply baseline r.tolerance).tree)
    (ran : r.run w = (.ok summary, w')) : ∃ w₁,
      (TreeHome.of w.disk r.output).StoredAt (set.apply baseline r.tolerance).tree.toList
        w.disk w₁.disk ∧
      (TreeHome.archive r.rejects).write (set.apply baseline r.tolerance).rejects w₁ = (.ok (), w') ∧
      summary = .of (set.apply baseline r.tolerance).reports r.rejects := by
  have path := TreeHome.path_of w.disk r.output
  have straight : ".." ∉ (TreeHome.of w.disk r.output).path.parts := by
    rw [path]
    exact laid.straight
  have named : (TreeHome.of w.disk r.output).path.text ≠ "" := by
    rw [path]
    exact laid.named
  unfold run at ran
  rw [Action.bind_of_ok (Action.disk_apply w)] at ran
  dsimp only at ran
  split at ran
  · cases ran
  rw [Action.bind_of_ok reads.set] at ran
  split at ran
  · rename_i empty
    rw [PatchSet.apply_of_isEmpty empty] at keepable ⊢
    obtain ⟨_, w₁, copied, ran⟩ := Action.bind_ran_iff.mp ran
    obtain ⟨_, w₂, rejected, ran⟩ := Action.bind_ran_iff.mp ran
    cases ran
    have apart : w.disk.Apart (TreeHome.of w.disk r.baseline).path (TreeHome.of w.disk r.output).path := by
      rw [TreeHome.path_of, path]
      exact laid.apart
    exact ⟨w₁, storedAt_copyBaseline tree straight named apart keepable reads.baseline copied,
      rejected, rfl⟩
  · rw [Action.bind_of_ok reads.baseline] at ran
    obtain ⟨_, w₁, written, ran⟩ := Action.bind_ran_iff.mp ran
    obtain ⟨_, w₂, rejected, ran⟩ := Action.bind_ran_iff.mp ran
    cases ran
    exact ⟨w₁, TreeHome.storedAt_write tree straight named keepable written, rejected, rfl⟩

/-- **An application on the disk comes to the one in memory.** -/
theorem refines_of_run (tree : w.disk.IsTree) (reads : r.Reads w baseline set)
    (laid : r.Laid w.disk)
    (keepable : (TreeHome.of w.disk r.output).Keepable (set.apply baseline r.tolerance).tree)
    (keepable' : (TreeHome.archive r.rejects).Keepable (set.apply baseline r.tolerance).rejects)
    (ran : r.run w = (.ok summary, w')) :
    r.Refines (set.apply baseline r.tolerance) summary w w' := by
  obtain ⟨w₁, stored, rejected, rfl⟩ := storedAt_of_run tree reads laid keepable ran
  have archived : (TreeHome.archive r.rejects).StoredAt (set.apply baseline r.tolerance).rejects.toList
      w₁.disk w'.disk :=
    TreeHome.storedAt_write stored.tree laid.straight' laid.named' keepable' rejected
  have path := TreeHome.path_of w.disk r.output
  have straight : ".." ∉ (TreeHome.of w.disk r.output).path.parts := by
    rw [path]
    exact laid.straight
  have here : w₁.disk.here = w.disk.here := stored.quiet.here
  -- the rejects are written elsewhere
  have stores : (TreeHome.of w.disk r.output).Stores w'.disk
      (set.apply baseline r.tolerance).tree.toList := by
    refine stored.stores.of_quiet straight archived.quiet ?_ ?_ <;>
      rw [path, here]
    · exact laid.apart'.below
    · exact laid.apart'.above
  have output := stores.of_path
  rw [path] at output
  have pointwise : ∀ {read tree : FileMap},
      (∀ name content, read[name]? = some content ↔ (name, content) ∈ tree.toList) →
        ∀ name : String, read[name]? = tree[name]? := fun same name => Option.ext fun content =>
    (same name content).trans Std.TreeMap.mem_toList_iff_getElem?_eq_some
  obtain ⟨read, ranRead, same⟩ := stores.read
  obtain ⟨rejects, ranRejects, same'⟩ := archived.stores.read
  exact
    { stores := stores
      output := output
      tree := ⟨read, output ▸ ranRead, pointwise same⟩
      rejects := ⟨rejects, ranRejects, pointwise same'⟩
      reports := rfl
      changed := List.countP_eq_length_filter.symm
      failed := List.countP_eq_length_filter.symm
      success := PatchSummary.toOutcome_of }

/-- A disk with a tree of one file, a patch that changes it and one of a file that is not there, and an
older output. -/
def demoWorld : World :=
  ⟨((((((Disk.empty.put ["b"] .dir).put ["b", "f"] (.file "x\n".toUTF8)).put ["o"] .dir).put
    ["o", "old"] (.file "z".toUTF8)).put ["p"] .dir).put
    ["p", "f.patch"] (.file "--- a/f\n+++ b/f\n@@ -1 +1 @@\n-x\n+y\n".toUTF8)).put
    ["p", "g.patch"] (.file "--- a/g\n+++ b/g\n@@ -1 +1 @@\n-x\n+y\n".toUTF8), [], []⟩

def demo : PatchApplication := ⟨⟨"/b"⟩, ⟨"/p"⟩, ⟨"/o"⟩, ⟨"/r.zip"⟩, .shifted⟩

/-- What is read of the patches; none if they cannot be read. -/
def demoSet : PatchSet := (PatchSet.load demo.patches demoWorld).1.toOption.getD .empty

def demoBaseline : FileMap := FileMap.ofFiles [("f", "x\n".toUTF8)]

theorem reads_demo : demo.Reads demoWorld demoBaseline demoSet := by
  constructor
  · have home : TreeHome.of demoWorld.disk demo.baseline = .folder ⟨"/b"⟩ := by decide +kernel
    have files : demoWorld.disk.files ⟨"/b"⟩ = .ok [(["f"], "x\n".toUTF8)] :=
      eq_ok_of_toOption (by decide +kernel)
    rw [home, TreeHome.read, TreeHome.readFolder, Action.bind_of_ok (filesBelow_of_files files)]
    rfl
  · have loaded : (PatchSet.load demo.patches demoWorld).1.toOption.isSome := by decide +kernel
    obtain ⟨set, done⟩ := Option.isSome_iff_exists.mp loaded
    have same : demoSet = set := by
      rw [demoSet, done]
      rfl
    exact (PatchSet.asks_load _).ran (same ▸ done)

theorem laid_demo : demo.Laid demoWorld.disk where
  straight := by decide +kernel
  straight' := by decide +kernel
  named := by decide
  named' := by decide
  apart := by decide +kernel
  apart' := by decide +kernel

theorem keepable_demo :
    (TreeHome.of demoWorld.disk demo.output).Keepable (demoSet.apply demoBaseline .shifted).tree ∧
      (TreeHome.archive demo.rejects).Keepable (demoSet.apply demoBaseline .shifted).rejects := by
  have home : TreeHome.of demoWorld.disk demo.output = .folder ⟨"/o"⟩ := by decide +kernel
  have names : (demoSet.apply demoBaseline .shifted).tree.keys = ["f"] ∧
      (demoSet.apply demoBaseline .shifted).rejects.keys = ["g.patch"] := by
    decide +kernel
  have rejects : (demoSet.apply demoBaseline .shifted).rejects.toList =
      [("g.patch", "--- a/g\n+++ b/g\n@@ -1 +1 @@\n-x\n+y\n".toUTF8)] := by
    decide +kernel
  refine ⟨⟨fun name listed => ?_, ?_⟩, ⟨fun name listed => ?_, fun _ => ?_⟩⟩
  · obtain rfl := List.mem_singleton.mp (names.1 ▸ Std.TreeMap.mem_keys.mpr listed)
    decide +kernel
  · rw [home]
    rintro ⟨⟩
  · obtain rfl := List.mem_singleton.mp (names.2 ▸ Std.TreeMap.mem_keys.mpr listed)
    decide +kernel
  · rw [rejects]
    constructor
    · constructor
      · decide +kernel
      · decide +kernel
    · decide +kernel
    · decide +kernel
    · decide +kernel

/-- The file is changed, the older output is gone, and the other patch is rejected. -/
theorem refines_of_run_demo : ∃ summary w', demo.run demoWorld = (.ok summary, w') ∧
    summary.changed = 1 ∧ summary.failed = 1 ∧
    demo.Refines (demoSet.apply demoBaseline demo.tolerance) summary demoWorld w' := by
  have done : (demo.run demoWorld).1.toOption = some ⟨1, 1,
      [⟨"f", .applied (.shifted 0)⟩, ⟨"g", .failed 0 1 "--- a/g\n+++ b/g\n@@ -1 +1 @@\n-x\n+y\n"⟩],
      demo.rejects⟩ := by
    decide +kernel
  obtain ⟨w', ran⟩ := Action.exists_of_toOption done
  exact ⟨_, w', ran, rfl, rfl, refines_of_run (by decide +kernel) reads_demo laid_demo keepable_demo.1
    keepable_demo.2 ran⟩

/-- A disk with an empty tree and an older output. -/
def demoStale : World :=
  ⟨(((Disk.empty.put ["b"] .dir).put ["o"] .dir).put ["o", "out"] .dir).put
    ["o", "out", "old"] (.file "z".toUTF8), [], []⟩

/-- An output whose path leads through a directory that is not there, and back. -/
def demoDetour : PatchApplication :=
  ⟨⟨"/b"⟩, ⟨"/p"⟩, ⟨"/o/gone/../out"⟩, ⟨"/r.zip"⟩, .shifted⟩

theorem reads_demoDetour : demoDetour.Reads demoStale ∅ .empty := by
  constructor
  · have home : TreeHome.of demoStale.disk demoDetour.baseline = .folder ⟨"/b"⟩ := by decide +kernel
    have files : demoStale.disk.files ⟨"/b"⟩ = .ok [] := eq_ok_of_toOption (by decide +kernel)
    rw [home, TreeHome.read, TreeHome.readFolder, Action.bind_of_ok (filesBelow_of_files files)]
    rfl
  · have none : demoStale.disk.exists? demoDetour.patches = false := by decide +kernel
    unfold PatchSet.load
    rw [Action.bind_of_ok (Action.exists?_apply _ _), none]
    rfl

/-- **An older output stays** where the path of the output leads back: nothing is found there to be
removed, and then the directories on the way are made. -/
theorem stale_of_detour : ∃ summary w', demoDetour.run demoStale = (.ok summary, w') ∧
    demoStale.disk.IsTree ∧ demoDetour.Reads demoStale ∅ .empty ∧
    [demoDetour.baseline, demoDetour.patches, demoDetour.output, demoDetour.rejects].Pairwise
      demoStale.disk.Apart ∧
    ¬ demoDetour.Refines (PatchSet.empty.apply ∅ demoDetour.tolerance) summary demoStale w' := by
  have done : ((do
      let summary ← demoDetour.run
      let tree ← (← TreeHome.atPath demoDetour.output).read
      return (summary, tree["old"]?.isSome)) demoStale).1.toOption =
        some (⟨0, 0, [], demoDetour.rejects⟩, true) := by
    decide +kernel
  obtain ⟨w₁, ran⟩ := Action.exists_of_toOption done
  obtain ⟨summary, w', applied, ran⟩ := Action.bind_ran_iff.mp ran
  obtain ⟨home, w₂, found, ran⟩ := Action.bind_ran_iff.mp ran
  obtain ⟨tree, w₃, read, ran⟩ := Action.bind_ran_iff.mp ran
  cases found
  refine ⟨summary, w', applied, by decide +kernel, reads_demoDetour, by decide +kernel,
    fun refines => ?_⟩
  obtain ⟨tree', read', same⟩ := refines.tree
  cases read.symm.trans read'
  have gone : tree["old"]? = none := (same "old").trans Std.TreeMap.getElem?_emptyc
  rw [gone] at ran
  cases ran

end PatchApplication
end Patchwork
