import Patchwork.Proofs.Patch.Compared
import Patchwork.Proofs.Patch.Trees

/-! Patches between two trees, and how they are read back.  The ranges of every hunk between two texts
lie inside these texts (`inside_of_mem_hunksBetween`), and a text has no more lines than bytes
(`Text.length_lines_le`); so where the files of two trees are no larger than memory allows, the numbers
of all headers are signed words, and each patch between the trees is read as it was written, if its path
can stand in the header (`Patch.parse_render_of_mem_treePatches`). -/

namespace Patchwork

/-! ## Ranges inside a text -/

namespace LineRange

/-- Whether a range stays inside some number of lines. -/
structure Inside (total : Nat) (r : LineRange) : Prop where
  start : r.start ≤ total
  length : r.length ≤ total

theorem inside_ofIndex {index length total : Nat} (h : index + length ≤ total) :
    (ofIndex index length).Inside total := by
  constructor <;> simp only [ofIndex]
  · split <;> omega
  · omega

theorem Inside.isSigned {total : Nat} {r : LineRange} (inside : r.Inside total)
    (signed : Text.IsSigned total) : Text.IsSigned r.start ∧ Text.IsSigned r.length := by
  have start := inside.start
  have length := inside.length
  unfold Text.IsSigned at signed ⊢
  constructor <;> omega

end LineRange

namespace HunkCutter.Extent
variable {e : Extent} {h : OpenHunk} {oldStop newStop oldTotal newTotal : Nat}

theorem inside_close (old : h.oldStart + h.old.length = oldStop)
    (new : h.newStart + h.new.length = newStop) {after : List String}
    (oldRoom : oldStop + after.length ≤ oldTotal) (newRoom : newStop + after.length ≤ newTotal) :
    (h.close after).old.Inside oldTotal ∧ (h.close after).new.Inside newTotal := by
  rw [OpenHunk.old_close, OpenHunk.new_close]
  exact ⟨LineRange.inside_ofIndex (by omega), LineRange.inside_ofIndex (by omega)⟩

/-- Cutting changes gives hunks inside the two texts. -/
theorem inside_of_mem_cut {tail : List String} {rest : List (Change String)}
    (old : h.oldStart + h.old.length = oldStop) (new : h.newStart + h.new.length = newStop)
    (oldRoom : oldStop + (rest.flatMap Change.old ++ tail).length ≤ oldTotal)
    (newRoom : newStop + (rest.flatMap Change.new ++ tail).length ≤ newTotal) {k : Hunk}
    (hk : k ∈ e.cut h oldStop newStop tail rest) :
    k.old.Inside oldTotal ∧ k.new.Inside newTotal := by
  -- the hunk and its last change vary, and what is left of both texts shrinks with them
  induction rest generalizing h oldStop newStop with
  | nil =>
    have taken : (tail.take (e.after oldStop newStop)).length ≤ tail.length :=
      List.length_take_le' _ _
    rw [List.flatMap_nil, List.nil_append] at oldRoom newRoom
    rw [List.mem_singleton.mp hk]
    exact inside_close old new (by omega) (by omega)
  | cons c rest ih =>
    rw [List.flatMap_cons, List.append_assoc, List.length_append, ← Nat.add_assoc] at oldRoom newRoom
    rw [cut] at hk
    split at hk
    · refine ih ?_ ?_ oldRoom newRoom hk
      · rw [h.old_grown, List.length_append, ← Nat.add_assoc, old]
      · rw [h.new_grown, List.length_append, ← Nat.add_assoc, new]
    · rcases List.mem_cons.mp hk with rfl | hk
      · have taken : (c.kept.take (e.after oldStop newStop)).length ≤ c.kept.length :=
          List.length_take_le' _ _
        simp only [Change.old, Change.new, List.length_append] at oldRoom newRoom
        exact inside_close old new (by omega) (by omega)
      · exact ih (oldStart_add_length_opening oldStop newStop c)
          (newStart_add_length_opening oldStop newStop c) oldRoom newRoom hk

end HunkCutter.Extent

/-- **The ranges of a hunk between two texts lie inside them.** -/
theorem inside_of_mem_hunksBetween {old new : String} {context : Nat} {h : Hunk}
    (mem : h ∈ hunksBetween old new context) :
    h.old.Inside (Text.lines old).length ∧ h.new.Inside (Text.lines new).length := by
  have fits := EditScript.fits_compact (EditScript.fits_shortest (Text.lines old) (Text.lines new))
  obtain ⟨oldSide, newSide⟩ := EditScript.changes_of_fits fits
  unfold hunksBetween HunkCutter.Extent.hunks at mem
  dsimp only at mem
  rw [lineScript] at mem
  split at mem
  · cases mem
  · rename_i c rest changes
    rw [Changes.old, changes, List.flatMap_cons, List.append_assoc] at oldSide
    rw [Changes.new, changes, List.flatMap_cons, List.append_assoc] at newSide
    refine HunkCutter.Extent.inside_of_mem_cut ?_ ?_ ?_ ?_ mem
    · rw [HunkCutter.Extent.oldStart_add_length_opening, Nat.zero_add]
    · rw [HunkCutter.Extent.newStart_add_length_opening, Nat.zero_add]
    · rw [← List.length_append, oldSide]
    · rw [← List.length_append, newSide]

/-! ## Lines and bytes -/

theorem Text.Cut.length_le {ls : List (List Char)} (cut : Text.Cut ls) :
    ls.length ≤ ls.flatten.length := by
  induction cut with
  | nil => exact Nat.le_refl _
  | last nonempty =>
    rw [List.flatten_singleton]
    exact List.length_pos_iff.mpr nonempty
  | ended _ _ ih =>
    rw [List.flatten_cons, List.length_append, List.length_append, List.length_cons,
      List.length_singleton]
    omega

theorem Text.length_le_utf8ByteSize (s : String) : s.toList.length ≤ s.utf8ByteSize := by
  obtain ⟨chars, rfl⟩ : ∃ chars, s = String.ofList chars := ⟨_, String.ofList_toList.symm⟩
  rw [String.toList_ofList]
  induction chars with
  | nil => exact Nat.zero_le _
  | cons c chars ih =>
    have size := Char.utf8Size_pos c
    rw [Text.utf8ByteSize_ofList_cons, List.length_cons]
    omega

/-- A text has no more lines than bytes. -/
theorem Text.length_lines_le (s : String) : (Text.lines s).length ≤ s.utf8ByteSize := by
  have lines := (Text.cut_cutLines s.toList).length_le
  rw [Text.flatten_cutLines] at lines
  rw [Text.lines, List.length_map]
  exact lines.trans (Text.length_le_utf8ByteSize s)

/-! ## Patches of trees -/

/-- **Whether memory can hold the files of a tree**: none is larger than a signed word can say. -/
def FileMap.Fits (tree : FileMap) : Prop :=
  ∀ (path : String) (bytes : ByteArray), tree[path]? = some bytes → Text.IsSigned bytes.size

namespace Patch
variable {baseline working : FileMap} {context : Nat} {ignored : List String} {p : Patch}

/-- A version of a file that memory can hold has no more lines than a signed word can say. -/
theorem isSigned_of_fits {tree : FileMap} (fits : tree.Fits) {path : String} {text : Option String}
    (read : versionText? tree[path]? = some text) :
    Text.IsSigned (Text.lines (text.getD "")).length := by
  have version := eq_of_versionText? read
  cases text with
  | none => decide
  | some text =>
    have lines := Text.length_lines_le text
    have size : Text.IsSigned text.utf8ByteSize := fits path _ version
    unfold Text.IsSigned at size ⊢
    rw [Option.getD_some]
    omega

/-- A patch between two trees is made from two versions of its file. -/
theorem exists_between_of_mem_treePatches (hp : p ∈ treePatches baseline working context ignored) :
    ∃ old new, versionText? baseline[p.path]? = some old ∧ versionText? working[p.path]? = some new ∧
      Patch.between p.path old new context = some p := by
  have found := (mem_treePatches.mp hp).2
  unfold PathDiff.between at found
  split at found
  · cases found
  split at found
  · rename_i old new oldText newText
    split at found
    · rename_i q made
      cases found
      exact ⟨old, new, oldText, newText, made⟩
    · cases found
  · cases found

/-- **A patch between two trees is read as it was written**, if its path can stand in the header. -/
theorem parse_render_of_mem_treePatches (hp : p ∈ treePatches baseline working context ignored)
    (fits : baseline.Fits) (fits' : working.Fits) (headed : p.Headed p.hunks) :
    parse p.path p.render = .ok p := by
  obtain ⟨old, new, oldText, newText, made⟩ := exists_between_of_mem_treePatches hp
  have made' : p.Made := .between old new context made
  have signed : ∀ h ∈ p.hunks, h.IsSigned := by
    intro h hh
    rw [hunks_of_between made] at hh
    obtain ⟨oldSide, newSide⟩ := inside_of_mem_hunksBetween hh
    obtain ⟨oldStart, oldLength⟩ := oldSide.isSigned (isSigned_of_fits fits oldText)
    obtain ⟨newStart, newLength⟩ := newSide.isSigned (isSigned_of_fits fits' newText)
    exact ⟨oldStart, oldLength, newStart, newLength⟩
  exact parse_renderHunks_of_headed headed made'.wellFormed signed (made'.pairwise signed)

end Patch
end Patchwork
