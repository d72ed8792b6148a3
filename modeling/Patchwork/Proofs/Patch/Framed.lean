import Patchwork.Proofs.Outcome
import Patchwork.Proofs.Patch.Trees

/-! What a patch set does path by path.  In a set that holds each patch under its own path
(`PatchSet.Keyed`, as every set that patches were put into does) the patches come in the order
of their paths (`PatchSet.Keyed.inOrder`), so the changes are to different paths.  Each of them
is made of the tree as it was, and a change leaves what it says at its own path and nothing
elsewhere (`getElem?_apply`); the rejects are collected the same way (`getElem?_rejects`). -/

namespace Patchwork

/-! ## Sets that hold each patch under its own path -/

namespace PatchSet

/-- Each patch is held under its own path. -/
def Keyed (s : PatchSet) : Prop := ∀ path p, s.get? path = some p → p.path = path

namespace Keyed
variable {s : PatchSet}

theorem empty : PatchSet.empty.Keyed := fun _ _ found => by
  rw [get?, PatchSet.empty, Std.TreeMap.getElem?_emptyc] at found
  cases found

theorem insert {t : PatchSet} {p : Patch} (keyed : s.Keyed) (done : s.insert p = .ok t) :
    t.Keyed := by
  unfold PatchSet.insert at done
  split at done
  · cases done
  · cases done
    intro path q found
    simp only [get?, Std.TreeMap.getElem?_insert, Std.LawfulEqCmp.compare_eq_iff_eq] at found
    split at found
    · cases found
      assumption
    · exact keyed path q found

/-- Putting patches into a set keeps each under its own path. -/
theorem insertAll {t : PatchSet} {ps : List Patch} (keyed : s.Keyed)
    (done : s.insertAll ps = .ok t) : t.Keyed := by
  induction ps generalizing s with
  | nil =>
    cases done
    exact keyed
  | cons p ps ih =>
    rw [PatchSet.insertAll, List.foldlM_cons, bind_eq_ok_iff] at done
    obtain ⟨u, first, rest⟩ := done
    exact ih (keyed.insert first) rest

theorem mem_toList (keyed : s.Keyed) {p : Patch} : p ∈ s.toList ↔ s.get? p.path = some p := by
  simp only [toList, List.mem_map, Prod.exists, exists_eq_right, get?,
    Std.TreeMap.mem_toList_iff_getElem?_eq_some]
  constructor
  · rintro ⟨path, found⟩
    obtain rfl := keyed path p found
    exact found
  · exact fun found => ⟨p.path, found⟩

theorem inOrder (keyed : s.Keyed) : Patch.InOrder s.toList := by
  refine List.pairwise_map.mpr (Std.TreeMap.ordered_keys_toList.imp_of_mem ?_)
  intro a b ha hb before
  rwa [keyed _ _ (Std.TreeMap.mem_toList_iff_getElem?_eq_some.mp ha),
    keyed _ _ (Std.TreeMap.mem_toList_iff_getElem?_eq_some.mp hb)]

theorem path_ne_of_get?_eq_none (keyed : s.Keyed) {path : String} (unpatched : s.get? path = none) :
    ∀ p ∈ s.toList, p.path ≠ path := by
  rintro p hp rfl
  rw [keyed.mem_toList.mp hp] at unpatched
  cases unpatched

/-- The paths of the patches are the paths they are held under. -/
theorem map_path_toList (keyed : s.Keyed) : s.toList.map Patch.path = s.byPath.keys := by
  rw [toList, List.map_map, ← Std.TreeMap.map_fst_toList_eq_keys]
  refine List.map_congr_left fun entry listed => ?_
  exact keyed _ _ (Std.TreeMap.mem_toList_iff_getElem?_eq_some.mp listed)

end Keyed
end PatchSet

/-! ## Patches that do not suit what is there -/

/-- **A patch that does not suit what is there**: a file to be added that is there, one to be
changed or removed that is not, and one that is not text. -/
inductive Patch.Misfit (p : Patch) : Option ByteArray → Prop where
  | taken {bytes : ByteArray} (kind : p.kind = .add) : p.Misfit (some bytes)
  | missing (kind : p.kind ≠ .add) : p.Misfit none
  | binary {bytes : ByteArray} (text : FileMap.text? bytes = none) : p.Misfit (some bytes)

theorem Patch.target?_eq_none_iff {p : Patch} {baseline : Option ByteArray} :
    p.target? baseline = none ↔ p.Misfit baseline := by
  constructor
  · intro none
    rcases baseline with _ | bytes <;> rcases kind : p.kind <;> simp only [target?, kind] at none
    · exact .missing (by rw [kind]; nofun)
    · cases none
    · exact .missing (by rw [kind]; nofun)
    · exact .binary none
    · exact .taken kind
    · exact .binary none
  · rintro (kind | kind | text)
    · simp only [target?, kind]
    · rcases kind' : p.kind <;> simp only [target?, kind']
      exact absurd kind' kind
    · rcases kind : p.kind <;> simp only [target?, kind, text]

theorem Patch.apply_of_misfit {p : Patch} {baseline : Option ByteArray} (misfit : p.Misfit baseline)
    (tolerance : Tolerance) : p.apply baseline tolerance =
      ⟨⟨p.path, .failed 0 p.hunks.length p.render⟩, baseline⟩ := by
  rw [apply, target?_eq_none_iff.mpr misfit]

theorem Patch.path_apply (p : Patch) (baseline : Option ByteArray) (tolerance : Tolerance) :
    (p.apply baseline tolerance).report.path = p.path := by
  unfold apply
  split <;> rfl

/-! ## Rejects -/

theorem PatchReport.isFailed_iff {r : PatchReport} : r.isFailed = true ↔ r.reject? ≠ none := by
  rcases r with ⟨path, _ | _⟩ <;> simp [isFailed, reject?]

theorem FileChange.getElem?_collect (c : FileChange) (rejects : FileMap) (name : String) :
    (c.collect rejects)[name]? =
      if c.report.path ++ PatchSet.suffix = name ∧ c.report.reject? ≠ none
      then c.report.reject?.map String.toUTF8 else rejects[name]? := by
  cases reject : c.report.reject? <;> simp [collect, reject, Std.TreeMap.getElem?_insert]

section Collected
variable {changes : List FileChange}

/-- A reject is under the name of a patch that did not apply in full. -/
theorem getElem?_foldl_collect_of_ne (rejects : FileMap) {name : String}
    (h : ∀ c ∈ changes, c.report.path ++ PatchSet.suffix = name → c.report.reject? = none) :
    (changes.foldl (fun rejects c => c.collect rejects) rejects)[name]? = rejects[name]? := by
  induction changes generalizing rejects with
  | nil => rfl
  | cons c changes ih =>
    obtain ⟨first, others⟩ := List.forall_mem_cons.mp h
    rw [List.foldl_cons, ih _ others, c.getElem?_collect, if_neg]
    exact fun ⟨named, rejected⟩ => rejected (first named)

/-- Of changes to different paths each that did not apply in full leaves its reject. -/
theorem getElem?_foldl_collect_of_mem (rejects : FileMap)
    (distinct : changes.Pairwise fun c d => c.report.path ≠ d.report.path) {c : FileChange}
    (hc : c ∈ changes) (failed : c.report.reject? ≠ none) :
    (changes.foldl (fun rejects c => c.collect rejects) rejects)[
      c.report.path ++ PatchSet.suffix]? = c.report.reject?.map String.toUTF8 := by
  induction distinct generalizing rejects with
  | nil => cases hc
  | @cons d changes apart _ ih =>
    rw [List.foldl_cons]
    rcases List.mem_cons.mp hc with rfl | hc
    · rw [getElem?_foldl_collect_of_ne, c.getElem?_collect, if_pos ⟨rfl, failed⟩]
      intro e he named
      exact absurd (String.append_left_inj _ |>.mp named).symm (apart e he)
    · exact ih _ hc

theorem mem_foldl_collect (rejects : FileMap) (name : String) :
    name ∈ changes.foldl (fun rejects c => c.collect rejects) rejects ↔ name ∈ rejects ∨
      ∃ c ∈ changes, c.report.isFailed = true ∧ c.report.path ++ PatchSet.suffix = name := by
  induction changes generalizing rejects with
  | nil => simp
  | cons c changes ih =>
    have first : name ∈ c.collect rejects ↔ name ∈ rejects ∨
        c.report.isFailed = true ∧ c.report.path ++ PatchSet.suffix = name := by
      rw [PatchReport.isFailed_iff]
      cases reject : c.report.reject? <;>
        simp [FileChange.collect, reject, Std.TreeMap.mem_insert, or_comm]
    rw [List.foldl_cons, ih, first, or_assoc]
    simp only [List.mem_cons, exists_eq_or_imp]

end Collected

/-! ## The result path by path -/

namespace PatchSet
variable {s : PatchSet} {baseline : FileMap} {tolerance : Tolerance}

/-- What applying a set changes, in the order of the paths. -/
def changes (s : PatchSet) (baseline : FileMap) (tolerance : Tolerance) : List FileChange :=
  s.toList.map fun p => p.apply baseline[p.path]? tolerance

theorem Keyed.distinct_changes (keyed : s.Keyed) :
    (s.changes baseline tolerance).Pairwise fun c d => c.report.path ≠ d.report.path := by
  refine List.pairwise_map.mpr (keyed.inOrder.distinct.imp fun apart => ?_)
  rwa [Patch.path_apply, Patch.path_apply]

theorem Keyed.mem_changes (keyed : s.Keyed) (baseline : FileMap) (tolerance : Tolerance)
    {path : String} {p : Patch} (found : s.get? path = some p) :
    p.apply baseline[path]? tolerance ∈ s.changes baseline tolerance := by
  obtain rfl := keyed path p found
  exact List.mem_map_of_mem (keyed.mem_toList.mpr found)

/-- Every change is of a patch of the set. -/
theorem Keyed.exists_of_mem_changes (keyed : s.Keyed) {c : FileChange}
    (hc : c ∈ s.changes baseline tolerance) :
    ∃ p, s.get? p.path = some p ∧ p.apply baseline[p.path]? tolerance = c := by
  obtain ⟨p, hp, rfl⟩ := List.mem_map.mp hc
  exact ⟨p, keyed.mem_toList.mp hp, rfl⟩

/-- What a tree holds afterwards: at the path of a patch what that patch makes of the tree as it
was, elsewhere what it held. -/
theorem getElem?_apply (keyed : s.Keyed) (path : String) :
    (s.apply baseline tolerance).tree[path]? =
      match s.get? path with
      | none => baseline[path]?
      | some p => (p.apply baseline[path]? tolerance).content := by
  rcases found : s.get? path with _ | p
  · refine getElem?_foldl_store_of_ne baseline ?_
    refine List.forall_mem_map.mpr fun p hp => ?_
    rw [Patch.path_apply]
    exact keyed.path_ne_of_get?_eq_none found p hp
  · obtain rfl := keyed path p found
    have left := getElem?_foldl_store_of_mem baseline keyed.distinct_changes
      (keyed.mem_changes baseline tolerance found)
    rwa [Patch.path_apply] at left

/-- What is rejected under the name of a path's patch. -/
theorem getElem?_rejects (keyed : s.Keyed) (path : String) :
    (s.apply baseline tolerance).rejects[path ++ suffix]? =
      (s.get? path).bind fun p =>
        (p.apply baseline[path]? tolerance).report.reject?.map String.toUTF8 := by
  rcases found : s.get? path with _ | p
  · refine (getElem?_foldl_collect_of_ne ∅ ?_).trans Std.TreeMap.getElem?_emptyc
    refine List.forall_mem_map.mpr fun p hp named => ?_
    rw [Patch.path_apply, String.append_left_inj] at named
    exact absurd named (keyed.path_ne_of_get?_eq_none found p hp)
  · obtain rfl := keyed path p found
    have listed := keyed.mem_changes baseline tolerance found
    rcases reject : (p.apply baseline[p.path]? tolerance).report.reject? with _ | text
    · refine (getElem?_foldl_collect_of_ne ∅ ?_).trans ?_
      · intro c hc named
        obtain ⟨q, found', rfl⟩ := keyed.exists_of_mem_changes hc
        rw [Patch.path_apply, String.append_left_inj] at named
        rw [named, found] at found'
        cases found'
        exact reject
      · rw [Option.bind_some, reject]
        exact Std.TreeMap.getElem?_emptyc
    · have left := getElem?_foldl_collect_of_mem ∅ keyed.distinct_changes listed (by rw [reject]; nofun)
      rwa [Patch.path_apply] at left

theorem Keyed.reports_apply (keyed : s.Keyed) :
    (s.apply baseline tolerance).reports.map PatchReport.path = s.byPath.keys := by
  rw [← keyed.map_path_toList, apply, List.map_map, List.map_map]
  exact List.map_congr_left fun p _ => p.path_apply _ _

theorem Keyed.ordered_reports (keyed : s.Keyed) :
    (s.apply baseline tolerance).reports.Pairwise fun r q => compare r.path q.path = .lt := by
  have ordered : ((s.apply baseline tolerance).reports.map PatchReport.path).Pairwise
      fun a b => compare a b = .lt := by
    rw [keyed.reports_apply]
    exact Std.TreeMap.ordered_keys
  exact List.pairwise_map.mp ordered

/-- A report is on a patch of the set and says what became of it. -/
theorem Keyed.mem_reports (keyed : s.Keyed) {r : PatchReport} :
    r ∈ (s.apply baseline tolerance).reports ↔ ∃ p, s.get? r.path = some p ∧
      (p.apply baseline[r.path]? tolerance).report = r := by
  constructor
  · intro listed
    obtain ⟨c, hc, rfl⟩ := List.mem_map.mp listed
    obtain ⟨p, found, rfl⟩ := keyed.exists_of_mem_changes hc
    rw [Patch.path_apply]
    exact ⟨p, found, rfl⟩
  · rintro ⟨p, found, report⟩
    rw [← report]
    exact List.mem_map_of_mem (keyed.mem_changes baseline tolerance found)

end PatchSet

/-- The report on the patch of a path. -/
def TreeRun.report? (run : TreeRun) (path : String) : Option PatchReport :=
  run.reports.find? fun r => r.path = path

theorem PatchSet.Keyed.report?_apply {s : PatchSet} (keyed : s.Keyed) (baseline : FileMap)
    (tolerance : Tolerance) (path : String) : (s.apply baseline tolerance).report? path =
      (s.get? path).map fun p => (p.apply baseline[path]? tolerance).report := by
  rcases found : s.get? path with _ | p
  · refine List.find?_eq_none.mpr fun r listed => ?_
    obtain ⟨p, held, -⟩ := keyed.mem_reports.mp listed
    rw [decide_eq_true_eq]
    rintro rfl
    rw [found] at held
    cases held
  · rcases reported : (s.apply baseline tolerance).report? path with _ | r
    · obtain rfl := keyed path p found
      have listed : (p.apply baseline[p.path]? tolerance).report ∈
          (s.apply baseline tolerance).reports :=
        List.mem_map_of_mem (keyed.mem_changes baseline tolerance found)
      have unnamed := List.find?_eq_none.mp reported _ listed
      simp [Patch.path_apply] at unnamed
    · have named : r.path = path := by simpa using List.find?_some reported
      obtain ⟨q, held, report⟩ := keyed.mem_reports.mp (List.mem_of_find?_eq_some reported)
      rw [named, found] at held
      cases held
      rw [← report, named]
      rfl

/-! ## Frame and independence -/

/-- **What applying a set of patches does to each path, and what it says of it.** -/
structure Framed (s : PatchSet) (baseline : FileMap) (tolerance : Tolerance) (run : TreeRun) :
    Prop where
  unpatched : ∀ path, s.get? path = none → run.tree[path]? = baseline[path]?
  /-- Whatever other patches a set has and whatever else a tree holds, they change nothing about
  a patched path. -/
  own : ∀ path p, s.get? path = some p → ∀ (s' : PatchSet) (baseline' : FileMap), s'.Keyed →
    s'.get? path = some p → baseline'[path]? = baseline[path]? →
      (s'.apply baseline' tolerance).tree[path]? = run.tree[path]? ∧
      (s'.apply baseline' tolerance).report? path = run.report? path ∧
      (s'.apply baseline' tolerance).rejects[path ++ PatchSet.suffix]? =
        run.rejects[path ++ PatchSet.suffix]?
  misfit : ∀ path p, s.get? path = some p → p.Misfit baseline[path]? →
    run.tree[path]? = baseline[path]? ∧
    run.report? path = some ⟨path, .failed 0 p.hunks.length (p.renderHunks p.hunks)⟩ ∧
    run.rejects[path ++ PatchSet.suffix]? = some (p.renderHunks p.hunks).toUTF8
  /-- There is one report for each patch. -/
  reports : run.reports.map PatchReport.path = s.byPath.keys
  ordered : run.reports.Pairwise fun r q => compare r.path q.path = .lt
  rejects : ∀ name, name ∈ run.rejects ↔
    ∃ r ∈ run.reports, r.isFailed = true ∧ r.path ++ PatchSet.suffix = name
  /-- A reject is what the report on the path says it is. -/
  rejected : ∀ r ∈ run.reports,
    run.rejects[r.path ++ PatchSet.suffix]? = r.reject?.map String.toUTF8

theorem PatchSet.Keyed.rejected_apply {s : PatchSet} (keyed : s.Keyed) {baseline : FileMap}
    {tolerance : Tolerance} {r : PatchReport}
    (listed : r ∈ (s.apply baseline tolerance).reports) :
    (s.apply baseline tolerance).rejects[r.path ++ suffix]? = r.reject?.map String.toUTF8 := by
  obtain ⟨p, found, report⟩ := keyed.mem_reports.mp listed
  rw [getElem?_rejects keyed, found, Option.bind_some, report]

/-- Every reject is of a patch that did not apply in full. -/
theorem PatchSet.mem_rejects_apply (s : PatchSet) {baseline : FileMap} {tolerance : Tolerance}
    {name : String} : name ∈ (s.apply baseline tolerance).rejects ↔
      ∃ r ∈ (s.apply baseline tolerance).reports, r.isFailed = true ∧ r.path ++ suffix = name := by
  refine (mem_foldl_collect ∅ name).trans ?_
  rw [or_iff_right Std.TreeMap.not_mem_emptyc]
  constructor
  · rintro ⟨c, hc, failed⟩
    exact ⟨c.report, List.mem_map_of_mem hc, failed⟩
  · rintro ⟨r, listed, failed⟩
    obtain ⟨c, hc, rfl⟩ := List.mem_map.mp listed
    exact ⟨c, hc, failed⟩

/-- **A patch acts on its own file alone**, whatever else is in the set and in the tree. -/
theorem PatchSet.framed_apply {s : PatchSet} (keyed : s.Keyed) (baseline : FileMap)
    (tolerance : Tolerance) : Framed s baseline tolerance (s.apply baseline tolerance) where
  unpatched path none := by rw [getElem?_apply keyed, none]
  own path p found s' baseline' keyed' found' same := by
    rw [getElem?_apply keyed, getElem?_apply keyed', keyed.report?_apply, keyed'.report?_apply,
      getElem?_rejects keyed, getElem?_rejects keyed', found, found', same]
    exact ⟨rfl, rfl, rfl⟩
  misfit path p found misfit := by
    obtain rfl := keyed path p found
    rw [getElem?_apply keyed, keyed.report?_apply, getElem?_rejects keyed, found]
    dsimp only [Option.map_some, Option.bind_some]
    rw [Patch.apply_of_misfit misfit]
    exact ⟨rfl, rfl, rfl⟩
  reports := keyed.reports_apply
  ordered := keyed.ordered_reports
  rejects _ := s.mem_rejects_apply
  rejected _ := keyed.rejected_apply

/-- A patch that adds a file and one that removes a file that is not there. -/
theorem PatchSet.framed_apply_demo : ∃ set,
    empty.insertAll [⟨"a", .add, []⟩, ⟨"b", .delete, []⟩] = .ok set ∧ set.Keyed ∧
      Framed set ∅ .shifted (set.apply ∅ .shifted) := by
  obtain ⟨set, made, -⟩ :=
    @insertAll_ok empty [⟨"a", .add, []⟩, ⟨"b", .delete, []⟩] (by decide) (by simp [empty])
  have keyed : set.Keyed := Keyed.empty.insertAll made
  exact ⟨set, made, keyed, framed_apply keyed ∅ .shifted⟩

end Patchwork
