import Patchwork.FileMap

/-! Trees of files that are put together file by file, and files that are text. -/

namespace Patchwork.FileMap

theorem toUTF8_eq_of_text? {bytes : ByteArray} {text : String}
    (h : text? bytes = some text) : text.toUTF8 = bytes := by
  simp only [text?, String.fromUTF8?] at h
  split at h
  · obtain rfl := Option.some.inj h
    rfl
  · cases h

theorem text?_toUTF8 (text : String) : text? text.toUTF8 = some text := by
  simp only [text?, String.fromUTF8?]
  split
  · rfl
  · rename_i h
    exact absurd text.isValidUTF8 (by simpa using h)

theorem mem_foldl_insert (files : List (String × ByteArray)) (tree : FileMap) (path : String) :
    path ∈ files.foldl (fun t file => t.insert file.1 file.2) tree ↔
      path ∈ tree ∨ path ∈ files.map Prod.fst := by
  induction files generalizing tree with
  | nil => simp
  | cons file files ih =>
    rw [List.foldl_cons, ih, Std.TreeMap.mem_insert, List.map_cons, List.mem_cons,
      Std.LawfulEqCmp.compare_eq_iff_eq, @eq_comm _ path, or_left_comm, or_assoc]

/-- A tree of given files has their paths. -/
theorem mem_ofFiles {files : List (String × ByteArray)} {path : String} :
    path ∈ ofFiles files ↔ path ∈ files.map Prod.fst := by
  rw [ofFiles, mem_foldl_insert, or_iff_right Std.TreeMap.not_mem_emptyc]

/-- What is listed of a tree stands at a path of it. -/
theorem mem_of_mem_toList {tree : FileMap} {path : String} {bytes : ByteArray}
    (h : (path, bytes) ∈ tree.toList) : path ∈ tree :=
  Std.TreeMap.mem_iff_isSome_getElem?.mpr
    (Option.isSome_of_eq_some (Std.TreeMap.mem_toList_iff_getElem?_eq_some.mp h))

/-- No two files of a tree have one name. -/
theorem distinct_toList (tree : FileMap) : tree.toList.Pairwise fun a b => a.1 ≠ b.1 :=
  Std.TreeMap.distinct_keys_toList.imp fun apart same =>
    apart (Std.LawfulEqCmp.compare_eq_iff_eq.mpr same)

/-- Files of different names are held under their names. -/
theorem getElem?_ofFiles {files : List (String × ByteArray)}
    (distinct : files.Pairwise fun a b => a.1 ≠ b.1) {path : String} {bytes : ByteArray} :
    (ofFiles files)[path]? = some bytes ↔ (path, bytes) ∈ files := by
  have fold : ∀ tree : FileMap, (files.foldl (fun t file => t.insert file.1 file.2) tree)[path]? =
      some bytes ↔ (path, bytes) ∈ files ∨ path ∉ files.map Prod.fst ∧ tree[path]? = some bytes := by
    induction distinct with
    | nil => simp
    | @cons file files apart _ ih =>
      intro tree
      rw [List.foldl_cons, ih, Std.TreeMap.getElem?_insert]
      by_cases same : file.1 = path
      · subst same
        have other : ∀ bytes', (file.1, bytes') ∉ files := fun _ listed => apart _ listed rfl
        simp [other, Prod.ext_iff, eq_comm]
      · have unnamed : ∀ bytes', (path, bytes') ≠ file := fun _ whole => same (whole ▸ rfl)
        simp [same, unnamed, Ne.symm same]
  rw [ofFiles, fold]
  simp

end Patchwork.FileMap
