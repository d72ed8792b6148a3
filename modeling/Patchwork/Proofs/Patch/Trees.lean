import Patchwork.Patch.TreeDiff
import Patchwork.Patch.TreeRun
import Patchwork.Proofs.FileMap
import Patchwork.Proofs.Patch.Drift

/-! Two versions of one path.  A version is the bytes of a file or that there is none.
Comparing two versions records a patch exactly when they differ and are text, and
applying the patch to the first version gives the second, whether the file is changed,
added or deleted (`PathDiff.describes_between`).

The round trip of trees.  The patches between two trees come in the order of their
paths, one for each path where the trees differ and are text (`mem_treePatches`), so a
set takes them all (`PatchSet.toList_insertAll`).  Applying the set changes each of
these paths to what the second tree has there and no other path
(`getElem?_restoredTree_of_mem`, `getElem?_restoredTree_of_ne`), so what was skipped is
all that is left of the difference. -/

namespace Patchwork

/-! ## Versions as text -/

/-- A version that is text is the bytes of that text. -/
theorem eq_of_versionText? {version : Option ByteArray} {text : Option String}
    (h : versionText? version = some text) : version = text.map String.toUTF8 := by
  cases version with
  | none =>
    obtain rfl := Option.some.inj h
    rfl
  | some bytes =>
    obtain ⟨t, ht, rfl⟩ := Option.map_eq_some_iff.mp h
    exact congrArg some (FileMap.toUTF8_eq_of_text? ht).symm

/-! ## The patch of a path -/

namespace Patch
variable {path : String} {context : Nat}

/-- Only equal versions have no patch. -/
theorem eq_of_between_eq_none {old new : Option String} (h : between path old new context = none) :
    old = new := by
  cases old with
  | none =>
    cases new with
    | none => rfl
    | some new => simp [between] at h
  | some old =>
    cases new with
    | none => simp [between] at h
    | some new =>
      have unchanged : hunksBetween old new context = [] := by simpa [between] using h
      exact congrArg some (eq_of_hunksBetween_eq_nil unchanged)

theorem path_between {old new : Option String} {p : Patch}
    (h : between path old new context = some p) : p.path = path := by
  simp only [between, Option.ite_none_left_eq_some] at h
  rw [← Option.some.inj h.2]

/-- What a patch makes of the text that its hunks were recorded for. -/
theorem apply_of_target? {p : Patch} {baseline : Option ByteArray} {old : String} (new : String)
    (target : p.target? baseline = some old) (hunks : p.hunks = hunksBetween old new context)
    (tolerance : Tolerance) :
    p.apply baseline tolerance = ⟨⟨p.path, .applied (.shifted 0)⟩,
      if p.kind = .delete ∧ new = "" then none else some new.toUTF8⟩ := by
  simp [apply, target, hunks, HunkRun.of_hunksBetween]

/-- **The patch between two versions of a file makes the second from the first.** -/
theorem apply_between {old new : Option String} (differ : old ≠ new) {p : Patch}
    (h : between path old new context = some p) (tolerance : Tolerance) :
    p.apply (old.map String.toUTF8) tolerance =
      ⟨⟨path, .applied (.shifted 0)⟩, new.map String.toUTF8⟩ := by
  cases old with
  | none =>
    cases new with
    | none => exact absurd rfl differ
    | some new =>
      obtain rfl : _ = p := by simpa [between] using h
      exact apply_of_target? new rfl rfl tolerance
  | some old =>
    cases new with
    | none =>
      obtain rfl : _ = p := by simpa [between] using h
      refine apply_of_target? "" ?_ rfl tolerance
      exact FileMap.text?_toUTF8 old
    | some new =>
      obtain ⟨-, rfl⟩ : _ ∧ _ = p := by simpa [between] using h
      refine apply_of_target? new ?_ rfl tolerance
      exact FileMap.text?_toUTF8 old

end Patch

namespace PathDiff

/-- **What comparing two versions of a path says of them.**  A patch makes the second
from the first, under every tolerance. -/
inductive Describes (path : String) (old new : Option ByteArray) : PathDiff → Prop
  | same : old = new → Describes path old new .same
  | patch {p : Patch} : old ≠ new → versionText? old ≠ none → versionText? new ≠ none →
      p.path = path → (∀ tolerance, p.apply old tolerance = ⟨⟨path, .applied (.shifted 0)⟩, new⟩) →
      Describes path old new (.patch p)
  | binary : old ≠ new → versionText? old = none ∨ versionText? new = none →
      Describes path old new .binary

theorem describes_between (path : String) (old new : Option ByteArray) (context : Nat) :
    Describes path old new (between path old new context) := by
  by_cases same : old = new
  · rw [between, if_pos same]
    exact .same same
  · rw [between, if_neg same]
    cases hold : versionText? old with
    | none => exact .binary same (.inl hold)
    | some o =>
      cases hnew : versionText? new with
      | none => exact .binary same (.inr hnew)
      | some n =>
        have differ : o ≠ n := by
          rintro rfl
          exact same ((eq_of_versionText? hold).trans (eq_of_versionText? hnew).symm)
        cases hp : Patch.between path o n context with
        | none => exact absurd (Patch.eq_of_between_eq_none hp) differ
        | some p =>
          simp only [hp]
          refine .patch same (by rw [hold]; nofun) (by rw [hnew]; nofun) (Patch.path_between hp)
            fun tolerance => ?_
          rw [eq_of_versionText? hold, eq_of_versionText? hnew]
          exact Patch.apply_between differ hp tolerance

theorem describes_of_between {path : String} {old new : Option ByteArray} {context : Nat}
    {d : PathDiff} (h : between path old new context = d) : Describes path old new d :=
  h ▸ describes_between path old new context

theorem between_self (path : String) (version : Option ByteArray) (context : Nat) :
    between path version version context = .same := if_pos rfl

theorem eq_of_between_eq_same {path : String} {old new : Option ByteArray} {context : Nat}
    (h : between path old new context = .same) : old = new := by
  cases describes_of_between h with
  | same same => exact same

theorem between_eq_binary_iff {path : String} {old new : Option ByteArray} {context : Nat} :
    between path old new context = .binary ↔
      old ≠ new ∧ (versionText? old = none ∨ versionText? new = none) := by
  generalize h : between path old new context = d
  cases describes_of_between h with
  | same same => exact ⟨nofun, fun h => absurd same h.1⟩
  | patch _ hold hnew => exact ⟨nofun, fun h => absurd h.2 (not_or.mpr ⟨hold, hnew⟩)⟩
  | binary differ textless => exact ⟨fun _ => ⟨differ, textless⟩, fun _ => rfl⟩

theorem eq_patch_of_patch? {d : PathDiff} {p : Patch} (h : d.patch? = some p) : d = .patch p := by
  cases d with
  | same => cases h
  | patch q => exact congrArg _ (Option.some.inj h)
  | binary => cases h

section Patched
variable {path : String} {old new : Option ByteArray} {context : Nat} {p : Patch}
  (h : between path old new context = .patch p)
include h

theorem ne_of_between : old ≠ new := by
  cases describes_of_between h with
  | patch differ => exact differ

theorem path_of_between : p.path = path := by
  cases describes_of_between h with
  | patch _ _ _ named => exact named

theorem apply_of_between (tolerance : Tolerance) :
    p.apply old tolerance = ⟨⟨path, .applied (.shifted 0)⟩, new⟩ := by
  cases describes_of_between h with
  | patch _ _ _ _ made => exact made tolerance

end Patched

end PathDiff
end Patchwork

/-! ## Trees -/

namespace Patchwork

/-! ## Changes of files -/

section Changes
variable {changes : List FileChange} {path : String}

theorem FileChange.getElem?_store (c : FileChange) (tree : FileMap) (path : String) :
    (c.store tree)[path]? = if c.report.path = path then c.content else tree[path]? := by
  cases h : c.content with
  | none => simp [store, h, Std.TreeMap.getElem?_erase]
  | some bytes => simp [store, h, Std.TreeMap.getElem?_insert]

theorem getElem?_foldl_store_of_ne (tree : FileMap) (h : ∀ c ∈ changes, c.report.path ≠ path) :
    (changes.foldl (fun tree c => c.store tree) tree)[path]? = tree[path]? := by
  induction changes generalizing tree with
  | nil => rfl
  | cons c changes ih =>
    obtain ⟨first, others⟩ := List.forall_mem_cons.mp h
    rw [List.foldl_cons, ih _ others, c.getElem?_store, if_neg first]

/-- Of changes to different paths each leaves what it says. -/
theorem getElem?_foldl_store_of_mem (tree : FileMap)
    (distinct : changes.Pairwise fun c d => c.report.path ≠ d.report.path) {c : FileChange}
    (hc : c ∈ changes) :
    (changes.foldl (fun tree c => c.store tree) tree)[c.report.path]? = c.content := by
  induction distinct generalizing tree with
  | nil => cases hc
  | @cons d changes apart _ ih =>
    rw [List.foldl_cons]
    rcases List.mem_cons.mp hc with rfl | hc
    · rw [getElem?_foldl_store_of_ne _ fun e he => (apart e he).symm, c.getElem?_store, if_pos rfl]
    · exact ih _ hc

theorem foldl_collect_of_applied (rejects : FileMap)
    (h : ∀ c ∈ changes, c.report.reject? = none) :
    changes.foldl (fun rejects c => c.collect rejects) rejects = rejects := by
  induction changes with
  | nil => rfl
  | cons c changes ih =>
    obtain ⟨first, others⟩ := List.forall_mem_cons.mp h
    rw [List.foldl_cons, FileChange.collect, first]
    exact ih others

end Changes

/-! ## Sets of patches -/

/-- Patches of different paths, in the order of the paths. -/
def Patch.InOrder (ps : List Patch) : Prop := ps.Pairwise fun p q => compare p.path q.path = .lt

theorem Patch.InOrder.distinct {ps : List Patch} (h : InOrder ps) :
    ps.Pairwise fun p q => p.path ≠ q.path := by
  refine h.imp fun {p q} before same => ?_
  have equal : compare p.path q.path = .eq := Std.LawfulEqCmp.compare_eq_iff_eq.mpr same
  rw [equal] at before
  cases before

/-- In order, patches are told by which they are. -/
theorem Patch.InOrder.eq_of_mem_iff {ps qs : List Patch} (hp : InOrder ps) (hq : InOrder qs)
    (same : ∀ p, p ∈ ps ↔ p ∈ qs) : ps = qs := by
  have nodup : ∀ {rs : List Patch}, InOrder rs → rs.Nodup := fun h =>
    h.distinct.imp fun apart same => apart (congrArg Patch.path same)
  refine List.Perm.eq_of_pairwise ?_ hp hq
    ((List.perm_ext_iff_of_nodup (nodup hp) (nodup hq)).mpr same)
  intro p q _ _ before after
  rw [Std.OrientedCmp.gt_of_lt before] at after
  cases after

namespace PatchSet

/-- Patches of different paths all go into a set. -/
theorem insertAll_ok {s : PatchSet} {ps : List Patch}
    (distinct : ps.Pairwise fun p q => p.path ≠ q.path)
    (fresh : ∀ p ∈ ps, s.byPath[p.path]? = none) :
    ∃ t, s.insertAll ps = .ok t ∧ ∀ path p,
      t.byPath[path]? = some p ↔ s.byPath[path]? = some p ∨ p ∈ ps ∧ p.path = path := by
  induction distinct generalizing s with
  | nil => exact ⟨s, rfl, by simp⟩
  | @cons p ps apart _ ih =>
    obtain ⟨first, others⟩ := List.forall_mem_cons.mp fresh
    have insert : s.insert p = .ok ⟨s.byPath.insert p.path p⟩ := by
      simp [PatchSet.insert, Std.TreeMap.contains_eq_isSome_getElem?, first]
    obtain ⟨t, ht, content⟩ := @ih ⟨s.byPath.insert p.path p⟩ fun q hq => by
      rw [Std.TreeMap.getElem?_insert, if_neg (by simpa using apart q hq), others q hq]
    refine ⟨t, ?_, fun path q => ?_⟩
    · rw [insertAll, List.foldlM_cons, insert]
      exact ht
    · simp only [content, Std.TreeMap.getElem?_insert, Std.LawfulEqCmp.compare_eq_iff_eq,
        List.mem_cons]
      constructor
      · rintro (h | ⟨hq, hpath⟩)
        · split at h
          · rename_i hpath
            obtain rfl := Option.some.inj h
            exact .inr ⟨.inl rfl, hpath⟩
          · exact .inl h
        · exact .inr ⟨.inr hq, hpath⟩
      · rintro (h | ⟨rfl | hq, hpath⟩)
        · rw [if_neg]
          · exact .inl h
          · rintro rfl
            rw [first] at h
            cases h
        · exact .inl (if_pos hpath)
        · exact .inr ⟨hq, hpath⟩

/-- A set of patches that come in order lists them as they come. -/
theorem toList_insertAll {ps : List Patch} (ordered : Patch.InOrder ps) :
    ∃ set, empty.insertAll ps = .ok set ∧ set.toList = ps := by
  obtain ⟨set, hset, content⟩ :=
    insertAll_ok (s := empty) ordered.distinct fun p _ => Std.TreeMap.getElem?_emptyc
  have entry : ∀ {path p}, (path, p) ∈ set.byPath.toList ↔ p ∈ ps ∧ p.path = path := by
    intro path p
    rw [Std.TreeMap.mem_toList_iff_getElem?_eq_some, content]
    simp [empty]
  refine ⟨set, hset, Patch.InOrder.eq_of_mem_iff ?_ ordered fun p => ?_⟩
  · refine List.pairwise_map.mpr (Std.TreeMap.ordered_keys_toList.imp_of_mem ?_)
    intro a b ha hb before
    rwa [(entry.mp ha).2, (entry.mp hb).2]
  · simp only [toList, List.mem_map]
    constructor
    · rintro ⟨⟨path, q⟩, hq, rfl⟩
      exact (entry.mp hq).1
    · intro hp
      exact ⟨(p.path, p), entry.mpr ⟨hp, rfl⟩, rfl⟩

end PatchSet

/-! ## The patches between two trees -/

section Between
variable {baseline working : FileMap} {context : Nat} {ignored : List String}

theorem mem_comparedPaths {path : String} : path ∈ comparedPaths baseline working ignored ↔
    (path ∈ baseline ∨ path ∈ working) ∧ isIgnored ignored path = false := by
  simp [comparedPaths, FileMap.mem_foldl_insert]

theorem ordered_comparedPaths :
    (comparedPaths baseline working ignored).Pairwise fun a b => compare a b = .lt := by
  rw [comparedPaths, Std.TreeMap.map_fst_toList_eq_keys]
  exact Std.TreeMap.ordered_keys.filter _

/-- The patches between two trees, in the order of their paths. -/
def treePatches (baseline working : FileMap) (context : Nat) (ignored : List String) :
    List Patch :=
  (treeDiffs baseline working context ignored).filterMap fun d => d.2.patch?

/-- The paths that differ and are not text in both trees. -/
def skippedPaths (baseline working : FileMap) (context : Nat) (ignored : List String) :
    List String :=
  ((treeDiffs baseline working context ignored).filter fun d => d.2 = .binary).map Prod.fst

/-- A path with a difference belongs to one of the trees. -/
theorem mem_comparedPaths_of_ne {path : String} (compared : isIgnored ignored path = false)
    (differ : baseline[path]? ≠ working[path]?) :
    path ∈ comparedPaths baseline working ignored := by
  refine mem_comparedPaths.mpr ⟨?_, compared⟩
  cases hb : baseline[path]? with
  | some bytes => exact .inl (Std.TreeMap.mem_iff_isSome_getElem?.mpr (by rw [hb]; rfl))
  | none =>
    cases hw : working[path]? with
    | some bytes => exact .inr (Std.TreeMap.mem_iff_isSome_getElem?.mpr (by rw [hw]; rfl))
    | none => exact absurd (hb.trans hw.symm) differ

theorem mem_skippedPaths {path : String} :
    path ∈ skippedPaths baseline working context ignored ↔
      isIgnored ignored path = false ∧
        PathDiff.between path baseline[path]? working[path]? context = .binary := by
  simp only [skippedPaths, treeDiffs, List.mem_map, List.mem_filter, decide_eq_true_eq]
  constructor
  · rintro ⟨_, ⟨⟨path, hpath, rfl⟩, binary⟩, rfl⟩
    exact ⟨(mem_comparedPaths.mp hpath).2, binary⟩
  · rintro ⟨compared, binary⟩
    have differ := (PathDiff.between_eq_binary_iff.mp binary).1
    exact ⟨(path, _), ⟨⟨path, mem_comparedPaths_of_ne compared differ, rfl⟩, binary⟩, rfl⟩

theorem mem_treePatches {p : Patch} :
    p ∈ treePatches baseline working context ignored ↔
      isIgnored ignored p.path = false ∧
        PathDiff.between p.path baseline[p.path]? working[p.path]? context = .patch p := by
  simp only [treePatches, treeDiffs, List.mem_filterMap, List.mem_map]
  constructor
  · rintro ⟨_, ⟨path, hpath, rfl⟩, hp⟩
    have found := PathDiff.eq_patch_of_patch? hp
    obtain rfl := PathDiff.path_of_between found
    exact ⟨(mem_comparedPaths.mp hpath).2, found⟩
  · rintro ⟨compared, found⟩
    refine ⟨(p.path, _), ⟨p.path, mem_comparedPaths_of_ne compared ?_, rfl⟩, ?_⟩
    · exact PathDiff.ne_of_between found
    · rw [found]
      rfl

/-- There is one patch for a path, and the patches come in the order of the paths. -/
theorem inOrder_treePatches : Patch.InOrder (treePatches baseline working context ignored) := by
  rw [treePatches, treeDiffs, List.filterMap_map]
  refine List.Pairwise.filterMap _ (fun a b before p hp q hq => ?_) ordered_comparedPaths
  rw [PathDiff.path_of_between (PathDiff.eq_patch_of_patch? hp),
    PathDiff.path_of_between (PathDiff.eq_patch_of_patch? hq)]
  exact before

theorem PatchSet.between_eq_ok {set : PatchSet}
    (h : empty.insertAll (treePatches baseline working context ignored) = .ok set) :
    PatchSet.between baseline working context ignored =
      .ok (set, skippedPaths baseline working context ignored) := by
  show (empty.insertAll (treePatches baseline working context ignored) >>= fun set =>
    pure (set, skippedPaths baseline working context ignored)) = _
  rw [h]
  rfl

/-! ## The round trip -/

/-- The change of a path to what a tree has there. -/
def Patch.restoring (working : FileMap) (p : Patch) : FileChange :=
  ⟨⟨p.path, .applied (.shifted 0)⟩, working[p.path]?⟩

/-- Each patch between two trees applies in full and restores what the second has. -/
theorem map_apply_treePatches (tolerance : Tolerance) :
    ((treePatches baseline working context ignored).map fun p =>
        p.apply baseline[p.path]? tolerance) =
      (treePatches baseline working context ignored).map (Patch.restoring working) := by
  refine List.map_congr_left fun p hp => ?_
  exact PathDiff.apply_of_between (mem_treePatches.mp hp).2 tolerance

/-- The first tree with the patches between it and the second applied. -/
def restoredTree (baseline working : FileMap) (context : Nat) (ignored : List String) : FileMap :=
  ((treePatches baseline working context ignored).map (Patch.restoring working)).foldl
    (fun tree c => c.store tree) baseline

theorem getElem?_restoredTree_of_mem {p : Patch}
    (hp : p ∈ treePatches baseline working context ignored) :
    (restoredTree baseline working context ignored)[p.path]? = working[p.path]? := by
  refine @getElem?_foldl_store_of_mem _ baseline ?_ (p.restoring working) (List.mem_map_of_mem hp)
  exact List.pairwise_map.mpr inOrder_treePatches.distinct

theorem getElem?_restoredTree_of_ne {path : String}
    (h : ∀ p ∈ treePatches baseline working context ignored, p.path ≠ path) :
    (restoredTree baseline working context ignored)[path]? = baseline[path]? :=
  getElem?_foldl_store_of_ne baseline (List.forall_mem_map.mpr h)

/-- Where the trees are compared and nothing is skipped, the second is restored. -/
theorem getElem?_restoredTree_of_compared {path : String}
    (compared : isIgnored ignored path = false)
    (unskipped : path ∉ skippedPaths baseline working context ignored) :
    (restoredTree baseline working context ignored)[path]? = working[path]? := by
  cases found : PathDiff.between path baseline[path]? working[path]? context with
  | same =>
    have unpatched : ∀ p ∈ treePatches baseline working context ignored, p.path ≠ path := by
      rintro p hp rfl
      rw [(mem_treePatches.mp hp).2] at found
      cases found
    rw [getElem?_restoredTree_of_ne unpatched]
    exact PathDiff.eq_of_between_eq_same found
  | patch p =>
    obtain rfl := PathDiff.path_of_between found
    exact getElem?_restoredTree_of_mem (mem_treePatches.mpr ⟨compared, found⟩)
  | binary => exact absurd (mem_skippedPaths.mpr ⟨compared, found⟩) unskipped

/-- Elsewhere the first stays as it is. -/
theorem getElem?_restoredTree_of_uncompared {path : String}
    (uncompared : isIgnored ignored path = true ∨
      path ∈ skippedPaths baseline working context ignored) :
    (restoredTree baseline working context ignored)[path]? = baseline[path]? := by
  refine getElem?_restoredTree_of_ne ?_
  rintro p hp rfl
  obtain ⟨compared, found⟩ := mem_treePatches.mp hp
  rcases uncompared with hidden | skipped
  · rw [compared] at hidden
    cases hidden
  · rw [(mem_skippedPaths.mp skipped).2] at found
    cases found

/-- Comparing the first tree with the restored one finds what is restored and nothing
to skip. -/
theorem between_restoredTree {path : String} (compared : isIgnored ignored path = false) :
    PathDiff.between path baseline[path]?
        (restoredTree baseline working context ignored)[path]? context =
      if path ∈ skippedPaths baseline working context ignored then .same
      else PathDiff.between path baseline[path]? working[path]? context := by
  split
  · rename_i skipped
    rw [getElem?_restoredTree_of_uncompared (.inr skipped)]
    exact PathDiff.between_self _ _ _
  · rename_i unskipped
    rw [getElem?_restoredTree_of_compared compared unskipped]

theorem treePatches_restoredTree :
    treePatches baseline (restoredTree baseline working context ignored) context ignored =
      treePatches baseline working context ignored := by
  refine inOrder_treePatches.eq_of_mem_iff inOrder_treePatches fun p => ?_
  rw [mem_treePatches, mem_treePatches]
  refine and_congr_right fun compared => ?_
  rw [between_restoredTree compared]
  split
  · rename_i skipped
    rw [(mem_skippedPaths.mp skipped).2]
    exact ⟨nofun, nofun⟩
  · exact Iff.rfl

theorem skippedPaths_restoredTree :
    skippedPaths baseline (restoredTree baseline working context ignored) context ignored = [] := by
  refine List.eq_nil_iff_forall_not_mem.mpr fun path h => ?_
  obtain ⟨compared, found⟩ := mem_skippedPaths.mp h
  rw [between_restoredTree compared] at found
  split at found
  · cases found
  · rename_i unskipped
    exact unskipped (mem_skippedPaths.mpr ⟨compared, found⟩)

/-- **What making a patch set and applying it comes to.** -/
structure Reproduced (baseline working : FileMap) (context : Nat) (ignored : List String)
    (set : PatchSet) (skipped : List String) (run : TreeRun) : Prop where
  /-- A path is skipped when it differs and is not text in both trees. -/
  skips : ∀ path, path ∈ skipped ↔ isIgnored ignored path = false ∧
    baseline[path]? ≠ working[path]? ∧
      (versionText? baseline[path]? = none ∨ versionText? working[path]? = none)
  unfailed : ∀ report ∈ run.reports, report.isFailed = false
  unrejected : run.rejects = ∅
  restored : ∀ path, isIgnored ignored path = false → path ∉ skipped →
    run.tree[path]? = working[path]?
  untouched : ∀ path, isIgnored ignored path = true ∨ path ∈ skipped →
    run.tree[path]? = baseline[path]?
  /-- Comparing the first tree with the result gives the set again, and skips nothing. -/
  again : PatchSet.between baseline run.tree context ignored = .ok (set, [])

end Between

/-- **The patches between two trees make the second from the first**, apart from what is
ignored and what is not text, under every tolerance. -/
theorem PatchSet.reproduced_apply_between (baseline working : FileMap) (context : Nat)
    (ignored : List String) (tolerance : Tolerance) :
    ∃ set skipped, PatchSet.between baseline working context ignored = .ok (set, skipped) ∧
      Reproduced baseline working context ignored set skipped (set.apply baseline tolerance) := by
  obtain ⟨set, hset, listed⟩ :=
    PatchSet.toList_insertAll (inOrder_treePatches : Patch.InOrder
      (treePatches baseline working context ignored))
  have applied : set.apply baseline tolerance =
      ⟨restoredTree baseline working context ignored,
        (treePatches baseline working context ignored).map fun p => (p.restoring working).report,
        ∅⟩ := by
    rw [PatchSet.apply, listed, map_apply_treePatches]
    congr 1
    · rw [List.map_map]
      rfl
    · exact foldl_collect_of_applied ∅ (List.forall_mem_map.mpr fun p _ => rfl)
  refine ⟨set, _, PatchSet.between_eq_ok hset, ?_⟩
  rw [applied]
  exact {
    skips := fun path => by rw [mem_skippedPaths, PathDiff.between_eq_binary_iff]
    unfailed := List.forall_mem_map.mpr fun p _ => rfl
    unrejected := rfl
    restored := fun path => getElem?_restoredTree_of_compared
    untouched := fun path => getElem?_restoredTree_of_uncompared
    again := by
      -- the same patches make the same set
      rw [← treePatches_restoredTree] at hset
      rw [PatchSet.between_eq_ok hset, skippedPaths_restoredTree] }

end Patchwork
