import Patchwork.Proofs.Disk.Behind
import Patchwork.Proofs.Ends

/-! Places that are cleared and filled.  What is left of a path that was removed (`Disk.Removed`) is
nothing, if the path ends in a name; a directory that is meant by a path of another kind may stay, but
empty.  A file that is put in the place of a path at once is what the path then leads to
(`Disk.find_of_placeFile`). -/

namespace Patchwork

namespace Disk
open Path
variable {d d' : Disk} {p : Path} {place : Place}

/-- **What removing leaves of a path**: nothing, or a directory without anything in it. -/
structure Removed (p : Path) (d : Disk) : Prop where
  absent : p.endsInName → d.exists? p = false
  bare : d.exists? p → ∀ names, names ≠ [] → d.at? (p.place d.here ++ names) = none

theorem exists?_eq_false_of_error {e : IoError} (h : d.find p = .error e) : d.exists? p = false := by
  rw [exists?, h]

/-- Where nothing stands at the place of a path, the path leads nowhere. -/
theorem exists?_eq_false_of_free (h : d.at? (p.place d.here) = none) : d.exists? p = false := by
  rw [Bool.eq_false_iff, Ne, exists?_iff]
  rintro ⟨node, found⟩
  obtain ⟨place, led, stands⟩ := locate_of_find found
  rw [place_of_locate led, stands] at h
  cases h

theorem Removed.of_free (h : d.exists? p = false) : Removed p d :=
  ⟨fun _ => h, fun there => absurd there (Bool.eq_false_iff.mp h)⟩

theorem at?_emptied (d : Disk) (place other : Place) :
    (d.emptied place).at? other =
      if place <+: other ∧ other ≠ place ∧ other ≠ [] then none else d.at? other := by
  unfold at? emptied
  by_cases top : other = []
  · rw [top, if_pos rfl, if_neg (by simp), if_pos rfl]
  · rw [if_neg top, if_neg top, Std.TreeMap.getElem?_filter']
    have kept : (other == place || !place.isPrefixOf other) = true ↔
        ¬ (place <+: other ∧ other ≠ place ∧ other ≠ []) := by
      simp [← List.isPrefixOf_iff_prefix, top]
      cases place.isPrefixOf other <;> simp
    by_cases out : place <+: other ∧ other ≠ place ∧ other ≠ []
    · rw [if_pos out]
      cases d.nodes[other]? with
      | none => rfl
      | some node => rw [Option.filter_some, if_neg (fun keep => kept.mp keep out)]
    · rw [if_neg out]
      cases d.nodes[other]? with
      | none => rfl
      | some node => rw [Option.filter_some, if_pos (kept.mpr out)]

/-- A path that leads nowhere is removed without a change. -/
theorem remove_of_error {e : IoError} (h : d.find p = .error e) : (d.remove p).2 = d := by
  unfold remove
  rw [h]
  cases d.locate p <;> rfl

/-- **Removing leaves nothing**, or at most an empty directory, also where it is refused. -/
theorem removed_remove (d : Disk) (p : Path) : Removed p (d.remove p).2 := by
  rcases found : d.find p with e | node
  · rw [remove_of_error found]
    exact .of_free (exists?_eq_false_of_error found)
  obtain ⟨place, led, -⟩ := locate_of_find found
  have at_ := place_of_locate led
  unfold remove
  rw [led, found]
  dsimp only
  split
  · rename_i ends
    obtain ⟨front, name, named⟩ := exists_place_of_endsInName ends d.here
    have ne : place ≠ [] := by
      rw [← at_, named]
      exact List.concat_ne_nil _ _
    have here : (d.erase place).here = d.here := rfl
    refine .of_free (exists?_eq_false_of_free ?_)
    rw [here, at_, at?_erase d ne, if_pos List.prefix_rfl]
  · rename_i ends
    have here : (d.emptied place).here = d.here := rfl
    refine ⟨fun ends' => absurd ends' ends, fun _ names deep => ?_⟩
    rw [here, at_]
    rw [at?_emptied, if_pos ⟨List.prefix_append _ _, by simp [deep], by simp [deep]⟩]

/-- Nothing comes by removing. -/
theorem at?_of_remove {other : Place} {node : Node} (h : (d.remove p).2.at? other = some node) :
    d.at? other = some node := by
  rcases found : d.find p with e | node'
  · rwa [remove_of_error found] at h
  obtain ⟨place, led, -⟩ := locate_of_find found
  unfold remove at h
  rw [led, found] at h
  dsimp only at h
  split at h
  · rename_i ends
    obtain ⟨front, name, named⟩ := exists_place_of_endsInName ends d.here
    have ne : place ≠ [] := by
      rw [← place_of_locate led, named]
      exact List.concat_ne_nil _ _
    rw [at?_erase d ne] at h
    split at h
    · cases h
    · exact h
  · rw [at?_emptied] at h
    split at h
    · cases h
    · exact h

theorem here_remove (d : Disk) (p : Path) : (d.remove p).2.here = d.here := by
  unfold remove
  split
  · split <;> rfl
  · rfl
  · rfl

/-- A path that leads to something still does when more is there. -/
theorem find_mono {node : Node} (here : d'.here = d.here)
    (more : ∀ other node, d.at? other = some node → d'.at? other = some node)
    (h : d.find p = .ok node) : d'.find p = .ok node := by
  obtain ⟨place, led, stands⟩ := locate_of_find h
  have led' := locate_mono here (fun other dir => more other .dir dir) led
  unfold find at h ⊢
  rw [led, ok_bind, stands] at h
  rw [led', ok_bind, more place node stands]
  exact h

/-- What was removed stays away when more is removed. -/
theorem Removed.remove (h : Removed p d) (q : Path) : Removed p (d.remove q).2 := by
  have here := here_remove d q
  have there : ∀ {node}, (d.remove q).2.find p = .ok node → d.exists? p := fun found =>
    exists?_iff.mpr ⟨_, find_mono here.symm (fun _ _ => at?_of_remove) found⟩
  constructor
  · intro ends
    rw [Bool.eq_false_iff, Ne, exists?_iff]
    rintro ⟨node, found⟩
    exact Bool.eq_false_iff.mp (h.absent ends) (there found)
  · intro exists' names deep
    obtain ⟨node, found⟩ := exists?_iff.mp exists'
    rw [here, Option.eq_none_iff_forall_ne_some]
    intro node' stands
    cases (at?_of_remove stands).symm.trans (h.bare (there found) names deep)

/-- A directory that is meant by a point is emptied, and it stays where it is. -/
theorem remove_of_point (isDir : d.isDir p) (point : p.lastPiece? = some ".")
    (straight : ".." ∉ p.parts) :
    (d.remove p).1 = .error .invalidArgument ∧ (d.remove p).2.isDir p := by
  have found := isDir_iff.mp isDir
  obtain ⟨place, led, stands⟩ := locate_of_find found
  have ends : ¬ p.endsInName := by
    rw [endsInName, point]
    decide
  have emptied : d.remove p = (.error .invalidArgument, d.emptied place) := by
    unfold remove staysBy
    rw [led, found, point]
    exact if_neg ends
  rw [emptied]
  have stay : ∀ other, other <+: place → d.at? other = some .dir →
      (d.emptied place).at? other = some .dir := by
    intro other above dir
    rw [at?_emptied, if_neg, dir]
    rintro ⟨below, apart, -⟩
    exact apart (above.eq_of_length_le below.length_le)
  have here : (d.emptied place).here = d.here := rfl
  have led' := locate_of_above straight here stay led
  exact ⟨rfl, isDir_iff.mpr (find_of_locate led' (stay place List.prefix_rfl stands))⟩

/-- **A file that is put in the place of a path is what the path leads to.** -/
theorem find_of_placeFile {bytes : ByteArray} (h : d.placeFile p bytes = .ok d') :
    p.endsInName ∧ d'.find p = .ok (.file bytes) := by
  obtain ⟨place, led, h⟩ := bind_eq_ok_iff.mp h
  split at h <;> split at h <;> cases h
  rename_i vacant meant
  obtain ⟨file, ends⟩ : p.meansDir = false ∧ p.endsInName = true := by simpa using meant
  obtain ⟨front, name, named⟩ := exists_place_of_endsInName ends d.here
  have ne : place ≠ [] := by
    rw [← place_of_locate led, named]
    exact List.concat_ne_nil _ _
  have led' : (d.put place (.file bytes)).locate p = .ok place :=
    locate_put led ne fun dir => absurd dir vacant
  refine ⟨ends, ?_⟩
  unfold find
  rw [led', ok_bind, at?_put_self d ne]
  exact if_neg (by simp [file])

end Disk

namespace Action
variable {w : World} {p : Path}

/-- The disk that removing leaves, whether it succeeds or not. -/
theorem remove_snd (p : Path) (w : World) :
    (Action.remove p w).2 = w.withDisk (w.disk.remove p).2 := by
  have same : w.withDisk w.disk = w := rfl
  unfold Action.remove
  rw [bind_of_ok (disk_apply w)]
  rcases found : w.disk.find p with e | node
  · rw [Disk.remove_of_error found, same]
    cases e <;> rfl
  · dsimp only
    rw [changeBy_apply]
    rfl

/-- Removing a path whatever comes of it is a step that never fails. -/
theorem discard_apply (p : Path) (w : World) :
    Action.discard p w = (.ok (), w.withDisk (w.disk.remove p).2) := by
  unfold Action.discard
  rw [tryCatch_apply, ← remove_snd]
  rcases Action.remove p w with ⟨e | _, w'⟩ <;> rfl

end Action
end Patchwork
