import Patchwork.Proofs.Disk.Grown

/-! Trees stay trees.  A path that can be followed leads to what is there, or to a new name in a
directory (`IsTree.stands_or_new_of_locate`); so whatever is put at its place leaves a tree, unless a
file takes the place of a directory (`IsTree.put_of_locate`).  Hence no operation on a disk takes
anything out of its directory, also where it stops half-way (`IsTree.makeDirs`, `IsTree.write`,
`IsTree.placeFile`, `IsTree.remove`). -/

namespace Patchwork

namespace Path

theorem slashless_of_mem_parts {p : Path} {name : String} (listed : name ∈ p.parts) :
    '/' ∉ name.toList :=
  (slashed_pieces p.text).2 name (mem_pieces_of_mem_parts listed)

/-- A path without parts is the root, or has no text. -/
theorem isAbsolute_or_blank_of_parts {p : Path} (none : p.parts = []) :
    p.isAbsolute ∨ p.text = "" := by
  have written := (slashed_pieces p.text).1
  rw [parts_eq] at none
  rcases pieces : Text.pieces '/' p.text with _ | ⟨first, rest⟩ <;> rw [pieces] at none written
  · exact absurd pieces (pieces_ne_nil p.text)
  obtain rfl : first = "" := by
    by_contra named
    rw [namesOf, if_neg named] at none
    cases none
  unfold slashed at written
  rcases rest with _ | ⟨second, rest⟩
  · rw [String.intercalate_singleton] at written
    exact .inr written.symm
  · rw [String.intercalate_cons_of_ne_nil (List.cons_ne_nil _ _)] at written
    refine .inl (isAbsolute_iff.mpr ?_)
    have single : "/".toList = ['/'] := by decide
    rw [← written]
    simp [single]

end Path

namespace Disk
open Path
variable {d d' : Disk} {p : Path} {place : Place} {node : Node} {bytes : ByteArray}

/-- **Where a path leads**: to what is there, or to a new name in a directory. -/
theorem IsTree.stands_or_new_of_locate (tree : d.IsTree) (led : d.locate p = .ok place) :
    d.at? place ≠ none ∨
      ∃ above name, place = above ++ [name] ∧ d.at? above = some .dir ∧ IsName name := by
  obtain ⟨-, rfl, stops⟩ := locate_iff.mp led
  rw [← stop_parts]
  rcases List.eq_nil_or_concat p.parts with none | ⟨front, name, parts⟩
  · -- the path leads to the directory that it starts from
    have start : d.stop p p.parts = if p.isAbsolute then [] else d.here := by
      rw [none]
      rfl
    rcases isAbsolute_or_blank_of_parts none with absolute | blank
    · rw [start, if_pos absolute, at?_nil]
      exact .inl (Option.some_ne_none _)
    · exact absurd blank (locate_eq_ok_iff.mp led).1.ne_empty
  · rw [List.concat_eq_append] at parts
    have dir := stops front (parts ▸ List.prefix_append _ _) (by simp [parts])
    have last : d.stop p p.parts = Place.step (d.stop p front) name := by
      rw [parts, stop, List.foldl_append]
      rfl
    have listed : name ∈ p.parts := parts ▸ List.mem_append_right _ List.mem_cons_self
    rw [last, Place.step]
    by_cases idle : isIdle name
    · rw [if_pos idle, dir]
      exact .inl (Option.some_ne_none _)
    by_cases up : name = ".."
    · rw [if_neg idle, if_pos up, tree.parent _ (dir ▸ Option.some_ne_none _)]
      exact .inl (Option.some_ne_none _)
    rw [if_neg idle, if_neg up]
    obtain ⟨named, point⟩ : name ≠ "" ∧ name ≠ "." := by simpa [isIdle] using idle
    exact .inr ⟨_, name, rfl, dir, named, point, up, slashless_of_mem_parts listed⟩

/-- **What is put where a path leads leaves a tree**, if no file takes the place of a directory. -/
theorem IsTree.put_of_locate (tree : d.IsTree) (led : d.locate p = .ok place)
    (kept : d.at? place = some .dir → node = .dir) : (d.put place node).IsTree := by
  by_cases top : place = []
  · subst top
    have same : ∀ other, (d.put [] node).at? other = d.at? other := by
      intro other
      by_cases top : other = []
      · rw [top, at?_nil, at?_nil]
      · exact at?_put d [] node top
    constructor <;> intro other found <;> rw [same] at found
    · rw [same]
      exact tree.parent other found
    · exact tree.named other found
  rcases tree.stands_or_new_of_locate led with stands | ⟨above, name, rfl, dir, named⟩
  · obtain ⟨above, name, rfl⟩ := (List.eq_nil_or_concat place).resolve_left top
    rw [List.concat_eq_append] at stands kept ⊢
    have dir := tree.parent _ stands
    rw [List.dropLast_concat] at dir
    exact tree.put dir (tree.named _ stands name (by simp)) kept
  · exact tree.put dir named kept

theorem IsTree.makeDir (tree : d.IsTree) (made : d.makeDir p = .ok d') : d'.IsTree := by
  obtain ⟨place, led, made⟩ := bind_eq_ok_iff.mp made
  split at made
  · cases made
  · cases made
    exact tree.put_of_locate led fun _ => rfl

/-- Making directories leaves a tree, also where it fails half-way. -/
theorem IsTree.makeDirs (tree : d.IsTree) (p : Path) : (d.makeDirs p).2.IsTree := by
  unfold Disk.makeDirs
  -- a directory is made in `case3` and `case5` alone; elsewhere the last step is refused
  fun_induction makeDirsOf d p.withParents with
  | case1 | case2 | case7 => exact tree
  | case3 _ _ _ d' made => exact tree.makeDir made
  | case4 _ _ _ _ e d' above ih =>
    rw [above] at ih
    exact ih
  | case5 _ _ _ _ d' above d'' made ih =>
    rw [above] at ih
    exact ih.makeDir made
  | case6 _ _ _ _ d' above e _ ih =>
    rw [above] at ih
    exact ih

theorem IsTree.write (tree : d.IsTree) (written : d.write p bytes = .ok d') : d'.IsTree := by
  obtain ⟨led, -, vacant, rfl⟩ := put_of_write written
  exact tree.put_of_locate led fun dir => absurd dir vacant

theorem IsTree.placeFile (tree : d.IsTree) (placed : d.placeFile p bytes = .ok d') : d'.IsTree := by
  obtain ⟨place, led, placed⟩ := bind_eq_ok_iff.mp placed
  split at placed <;> split at placed <;> cases placed
  rename_i vacant _
  exact tree.put_of_locate led fun dir => absurd dir vacant

theorem IsTree.emptied (tree : d.IsTree) (place : Place) : (d.emptied place).IsTree := by
  constructor
  · intro other found
    rw [at?_emptied] at found ⊢
    split at found
    · exact absurd rfl found
    · rename_i kept
      have dir := tree.parent other found
      split
      · rename_i removed
        obtain ⟨below, apart, top⟩ := removed
        refine absurd ⟨below.trans (List.dropLast_prefix other), ?_, ?_⟩ kept
        · rintro rfl
          exact apart ((List.dropLast_prefix other).eq_of_length_le below.length_le)
        · rintro rfl
          exact top rfl
      · exact dir
  · intro other found
    rw [at?_emptied] at found
    split at found
    · exact absurd rfl found
    · exact tree.named other found

/-- Removing leaves a tree, also where it is refused. -/
theorem IsTree.remove (tree : d.IsTree) (p : Path) : (d.remove p).2.IsTree := by
  unfold Disk.remove
  split
  · rename_i place _ led _
    split
    · rename_i ends
      obtain ⟨front, name, named⟩ := exists_place_of_endsInName ends d.here
      refine tree.erase ?_
      rw [← place_of_locate led, named]
      exact List.concat_ne_nil _ _
    · exact tree.emptied place
  · exact tree
  · exact tree

end Disk
end Patchwork

/-! ## Files written in directories made for them

Nothing changes but the place of the file, and the directories on the way to it (`Disk.Written`,
`Disk.ends_written`); so a file elsewhere is found as before (`Disk.Written.find_of_find`), and a
path that does not lead back finds no other ones (`Disk.Written.find_iff`). -/

namespace Patchwork
open Patchwork.Action Disk

namespace Disk
variable {p q : Path} {d d' : Disk} {place : Place} {bytes : ByteArray}

/-- **A disk with one more file**, and with directories made on the way to it. -/
structure Written (p : Path) (d d' : Disk) : Prop where
  tree : d'.IsTree
  grown : d.Grown (· = p.place d.here) d'
  same : d.SameBut (· = p.place d.here) d'
  file : ∃ bytes, d'.at? (p.place d.here) = some (.file bytes)
  vacant : d.at? (p.place d.here) ≠ some .dir

namespace Written
variable (h : Written p d d') (tree : d.IsTree)
include h tree

/-- Nothing lies below what was written. -/
theorem out {node : Node} (stands : d.at? place = some node) (apart : place ≠ p.place d.here) :
    ¬ p.place d.here <+: place := by
  rintro ⟨rest, rfl⟩
  have more : rest ≠ [] := by
    rintro rfl
    exact apart (List.append_nil _)
  exact h.vacant (tree.dir_of_append (stands ▸ Option.some_ne_none _) more)

theorem dir (stands : d.at? place = some .dir) : d'.at? place = some .dir := by
  have apart : place ≠ p.place d.here := fun same => h.vacant (same ▸ stands)
  exact h.grown.dir (fun _ same => same ▸ h.out tree stands apart) stands

/-- **A file elsewhere is found as before.** -/
theorem find_of_find (apart : q.place d.here ≠ p.place d.here)
    (found : d.find q = .ok (.file bytes)) : d'.find q = .ok (.file bytes) := by
  obtain ⟨takes, file, stops, stands⟩ := find_file_iff.mp found
  refine find_file_iff.mpr ⟨takes, file, fun front above proper => ?_, ?_⟩
  · rw [stop_eq h.grown.here]
    exact h.dir tree (stops front above proper)
  · rw [h.grown.here]
    exact (h.grown.file_iff fun _ same => same ▸ h.out tree stands apart).mpr stands

/-- A path that does not lead back finds no other files than before. -/
theorem find_iff (straight : ".." ∉ q.parts) (apart : q.place d.here ≠ p.place d.here) :
    d'.find q = .ok (.file bytes) ↔ d.find q = .ok (.file bytes) := by
  refine ⟨fun found => ?_, h.find_of_find tree apart⟩
  have out : ¬ p.place d.here <+: q.place d.here := by
    rintro ⟨rest, whole⟩
    have more : rest ≠ [] := by
      rintro rfl
      exact apart (whole ▸ List.append_nil _)
    obtain ⟨written, file⟩ := h.file
    have none := h.tree.none_of_file file more
    obtain ⟨-, -, -, stands⟩ := find_file_iff.mp found
    rw [h.grown.here, ← whole, none] at stands
    cases stands
  rw [← read_eq_ok_iff] at found ⊢
  exact (read_of_grown tree h.grown straight fun _ same => same ▸ out).mp found

end Written

/-- **Making the directory of a path and writing the file.** -/
theorem ends_written {w : World} (tree : w.disk.IsTree) (p : Path) (bytes : ByteArray) :
    Ends (do makeParent p; writeFile p bytes) w (fun _ w' => Written p w.disk w'.disk)
      (fun _ w' => w.disk.Grown (fun _ => False) w'.disk) := by
  have made : ∃ d, (makeParent p w).2 = w.withDisk d ∧ w.disk.Grown (fun _ => False) d ∧ d.IsTree ∧
      w.disk.SameBut (fun _ => False) d := by
    unfold makeParent
    rcases p.parent? with _ | q
    · exact ⟨w.disk, rfl, .refl _ _, tree, .refl _ _⟩
    · dsimp only
      rw [Action.makeDirs, changeBy_apply]
      exact ⟨_, rfl, grown_makeDirs _ _, tree.makeDirs q, sameBut_makeDirs _ _⟩
  obtain ⟨d, left, grown, tree₁, same⟩ := made
  rcases ran : makeParent p w with ⟨e | _, w₁⟩ <;> rw [ran] at left <;> dsimp only at left <;>
    subst left
  · exact .bind_of_error ran grown
  refine .bind_of_ok ran (.change (fun d' written => ?_) fun e _ => grown)
  obtain ⟨led, -, vacant, rfl⟩ := put_of_write written
  rw [World.withDisk_disk, grown.here] at led vacant
  rw [World.withDisk_disk, World.withDisk_disk, grown.here]
  have free : w.disk.at? (p.place w.disk.here) ≠ some .dir := fun dir =>
    vacant (grown.dir (fun _ => False.elim) dir)
  have ne : p.place w.disk.here ≠ [] := by
    intro top
    rw [top] at free
    exact free (at?_nil _)
  refine ⟨tree₁.put_of_locate led fun dir => absurd dir vacant, ?_, ?_, ⟨bytes, at?_put_self _ ne _⟩,
    free⟩
  · exact (grown.mono fun _ => False.elim).trans (Quiet.put _ ne _).grown
  · exact (same.mono fun _ => False.elim).trans (sameBut_put _ _ _)

end Disk
end Patchwork
